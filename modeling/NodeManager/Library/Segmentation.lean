import Mathlib.Algebra.Order.BigOperators.Group.List
import Mathlib.Tactic.Linarith

/-!
# Reading blocks from a stream that arrives in pieces

Pieces of a stream are appended to an input buffer. Each arrival is followed
by one read, which removes at most `cap` elements; what is left stays for the
read after the next arrival. An arrival carries a label, for whatever else
the reader is given at that moment. The reads are the blocks of the stream
exactly when each arrival completes the next block.
-/

namespace Segmentation

variable {σ α : Type*} {cap : ℕ}

/-- The buffer contents that the reader finds after each arrival. -/
def inputs (cap : ℕ) : List α → List (σ × List α) → List (σ × List α)
  | _, [] => []
  | rest, (s, piece) :: arrivals =>
    (s, rest ++ piece) :: inputs cap ((rest ++ piece).drop cap) arrivals

/-- As many arrivals as blocks, the `k`-th of them completing block `k`. -/
def Aligned (cap n : ℕ) (lengths : List ℕ) : Prop :=
  lengths.length = n ∧ ∀ k ≤ n, cap * k ≤ (lengths.take k).sum

/-- The lengths of the pieces. -/
def lengths (arrivals : List (σ × List α)) : List ℕ := arrivals.map fun a => a.2.length

/-- The elements of the pieces in order. -/
def stream (arrivals : List (σ × List α)) : List α := arrivals.flatMap fun a => a.2

/-- The lengths of the reads. -/
def readLengths (cap : ℕ) (inputs : List (σ × List α)) : List ℕ :=
  inputs.map fun input => (input.2.take cap).length

theorem inputs_length (rest : List α) (arrivals : List (σ × List α)) :
    (inputs cap rest arrivals).length = arrivals.length := by
  induction arrivals generalizing rest with
  | nil => rfl
  | cons a arrivals ih => rw [inputs, List.length_cons, List.length_cons, ih]

/-- No read returns nothing when no piece is empty. -/
theorem input_pos {arrivals : List (σ × List α)} (hpos : ∀ l ∈ lengths arrivals, 0 < l)
    (rest : List α) {input : σ × List α} (hmem : input ∈ inputs cap rest arrivals) :
    0 < input.2.length := by
  induction arrivals generalizing rest with
  | nil => cases hmem
  | cons a arrivals ih =>
    rcases List.mem_cons.mp hmem with rfl | hmem
    · have ha := hpos a.2.length List.mem_cons_self
      rw [List.length_append]
      omega
    · exact ih (fun l hl => hpos l (List.mem_cons_of_mem _ hl)) _ hmem

/-- Aligned arrivals let every read return the next block. -/
theorem reads_eq_blocks {blocks : List (List α)} (hblocks : ∀ b ∈ blocks, b.length = cap)
    {rest : List α} {arrivals : List (σ × List α)}
    (hstream : rest ++ stream arrivals = blocks.flatten)
    (hcount : arrivals.length = blocks.length)
    (hready : ∀ k ≤ blocks.length, cap * k ≤ rest.length + ((lengths arrivals).take k).sum) :
    (inputs cap rest arrivals).map (fun input => input.2.take cap) = blocks := by
  induction blocks generalizing rest arrivals with
  | nil =>
    obtain rfl := List.length_eq_zero_iff.mp hcount
    rfl
  | cons b blocks ih =>
    obtain ⟨a, arrivals, rfl⟩ := List.exists_cons_of_length_eq_add_one hcount
    have hb : b.length = cap := hblocks b List.mem_cons_self
    have hrest : ∀ c ∈ blocks, c.length = cap := fun c hc =>
      hblocks c (List.mem_cons_of_mem b hc)
    have hfirst : cap ≤ (rest ++ a.2).length := by
      have h := hready 1 (by rw [List.length_cons]; omega)
      simp only [lengths, List.map_cons, List.take_succ_cons, List.take_zero, List.sum_cons,
        List.sum_nil] at h
      rw [List.length_append]
      omega
    have hsplit : rest ++ a.2 ++ stream arrivals = b ++ blocks.flatten := by
      rw [List.append_assoc, ← List.flatten_cons, ← hstream]
      rfl
    have htake : (rest ++ a.2).take cap = b := by
      have h := congrArg (List.take cap) hsplit
      rwa [List.take_append_of_le_length hfirst, List.take_append_of_le_length hb.ge,
        List.take_of_length_le hb.le] at h
    have hdrop : (rest ++ a.2).drop cap ++ stream arrivals = blocks.flatten := by
      have h := congrArg (List.drop cap) hsplit
      rwa [List.drop_append_of_le_length hfirst, List.drop_append_of_le_length hb.ge,
        List.drop_of_length_le hb.le, List.nil_append] at h
    have hnext : ∀ k ≤ blocks.length, cap * k ≤
        ((rest ++ a.2).drop cap).length + ((lengths arrivals).take k).sum := by
      intro k hk
      have h := hready (k + 1) (by rw [List.length_cons]; omega)
      simp only [lengths, List.map_cons, List.take_succ_cons, List.sum_cons] at h
      rw [List.length_append] at hfirst
      rw [List.length_drop, List.length_append, lengths]
      have hmul : cap * (k + 1) = cap * k + cap := Nat.mul_succ cap k
      omega
    have htail := ih hrest hdrop (Nat.succ.inj hcount) hnext
    have hunfold : inputs cap rest (a :: arrivals) =
        (a.1, rest ++ a.2) :: inputs cap ((rest ++ a.2).drop cap) arrivals := rfl
    rw [hunfold, List.map_cons, htake, htail]

/-- The reads never return more than has arrived. -/
theorem readLengths_take_sum (cap : ℕ) (rest : List α) (arrivals : List (σ × List α)) (k : ℕ) :
    ((readLengths cap (inputs cap rest arrivals)).take k).sum ≤
      rest.length + ((lengths arrivals).take k).sum := by
  induction arrivals generalizing rest k with
  | nil => simp only [inputs, readLengths, List.map_nil, List.take_nil, List.sum_nil, Nat.zero_le]
  | cons a arrivals ih =>
    cases k with
    | zero => simp only [List.take_zero, List.sum_nil, Nat.zero_le]
    | succ k =>
      have hnext := ih ((rest ++ a.2).drop cap) k
      simp only [readLengths, lengths, inputs, List.map_cons, List.take_succ_cons, List.sum_cons,
        List.length_take, List.length_drop, List.length_append] at hnext ⊢
      omega

/-- Full parts leave room in the sum for at most the other parts. -/
theorem sum_of_full (cap : ℕ) {parts : List ℕ} (hpos : ∀ l ∈ parts, 0 < l) :
    cap * parts.countP (cap ≤ ·) + (parts.length - parts.countP (cap ≤ ·)) ≤ parts.sum := by
  induction parts with
  | nil => simp only [List.countP_nil, List.length_nil, List.sum_nil, Nat.mul_zero, Nat.sub_self,
      Nat.add_zero, Nat.le_refl]
  | cons l parts ih =>
    have hl := hpos l List.mem_cons_self
    have hrest := ih fun m hm => hpos m (List.mem_cons_of_mem l hm)
    have hle : parts.countP (cap ≤ ·) ≤ parts.length := List.countP_le_length
    by_cases hfull : cap ≤ l
    · have hcount : (l :: parts).countP (cap ≤ ·) = parts.countP (cap ≤ ·) + 1 :=
        List.countP_cons_of_pos (by simpa using hfull)
      rw [hcount, List.length_cons, List.sum_cons, Nat.mul_succ]
      omega
    · have hcount : (l :: parts).countP (cap ≤ ·) = parts.countP (cap ≤ ·) :=
        List.countP_cons_of_neg (by simpa using hfull)
      rw [hcount, List.length_cons, List.sum_cons]
      omega

/-- When as many reads as there are blocks are full, all reads are, so the
arrivals were aligned. -/
theorem aligned_of_full {n : ℕ} {arrivals : List (σ × List α)} (hcap : 0 < cap)
    (hpos : ∀ l ∈ lengths arrivals, 0 < l) (htotal : (lengths arrivals).sum = cap * n)
    (hfull : n ≤ (inputs cap [] arrivals).countP fun input => cap ≤ input.2.length) :
    Aligned cap n (lengths arrivals) := by
  have hlen : (lengths arrivals).length = arrivals.length := List.length_map ..
  have hreadLen : (readLengths cap (inputs cap [] arrivals)).length = arrivals.length := by
    rw [readLengths, List.length_map, inputs_length]
  have hreadPos : ∀ l ∈ readLengths cap (inputs cap [] arrivals), 0 < l := by
    intro l hl
    obtain ⟨input, hmem, rfl⟩ := List.mem_map.mp hl
    have h := input_pos hpos [] hmem
    rw [List.length_take]
    omega
  have hcount : (readLengths cap (inputs cap [] arrivals)).countP (cap ≤ ·) =
      (inputs cap [] arrivals).countP fun input => cap ≤ input.2.length := by
    rw [readLengths, List.countP_map]
    congr 1
    funext input
    simp only [Function.comp_apply, List.length_take, decide_eq_decide]
    omega
  have hsum : (readLengths cap (inputs cap [] arrivals)).sum ≤ cap * n := by
    have h := readLengths_take_sum cap [] arrivals arrivals.length
    rwa [List.take_of_length_le hreadLen.le, List.take_of_length_le hlen.le, htotal,
      List.length_nil, Nat.zero_add] at h
  have hbound := sum_of_full cap hreadPos
  have hle : (readLengths cap (inputs cap [] arrivals)).countP (cap ≤ ·) ≤ arrivals.length :=
    hreadLen ▸ List.countP_le_length
  rw [hcount, hreadLen] at hbound
  rw [hcount] at hle
  have hmul : cap * n ≤
      cap * (inputs cap [] arrivals).countP fun input => decide (cap ≤ input.2.length) :=
    Nat.mul_le_mul_left cap hfull
  have hall : arrivals.length =
      (inputs cap [] arrivals).countP fun input => decide (cap ≤ input.2.length) := by omega
  have hn : arrivals.length = n := by
    have h : cap * arrivals.length ≤ cap * n := by rw [hall]; omega
    have h' := Nat.le_of_mul_le_mul_left h hcap
    omega
  refine ⟨hlen.trans hn, fun k hk => ?_⟩
  have heach : ∀ l ∈ readLengths cap (inputs cap [] arrivals), cap ≤ l := by
    have h := List.countP_eq_length.mp (hcount.trans (hall.symm.trans hreadLen.symm))
    intro l hl
    simpa using h l hl
  have hreads : cap * k ≤ ((readLengths cap (inputs cap [] arrivals)).take k).sum := by
    have h := List.card_nsmul_le_sum ((readLengths cap (inputs cap [] arrivals)).take k) cap
      fun l hl => heach l (List.mem_of_mem_take hl)
    rw [List.length_take, hreadLen, Nat.min_eq_left (by omega), nsmul_eq_mul, Nat.cast_id] at h
    linarith
  have h := readLengths_take_sum cap [] arrivals k
  rw [List.length_nil, Nat.zero_add] at h
  exact hreads.trans h

end Segmentation
