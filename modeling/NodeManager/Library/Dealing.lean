import Mathlib.Data.List.Induction
import Mathlib.Data.List.Perm.Basic

/-!
# Dealing a list in turn

The elements of a list are dealt to a number of hands in turn. Each hand holds
its elements in their order, the hands together hold every element once, and
none holds more than one element more than another.
-/

namespace Dealing

variable {α : Type*}

/-- What a hand holds of the elements from a position on. -/
def handFrom (count i : ℕ) : ℕ → List α → List α
  | _, [] => []
  | n, x :: xs => if n % count = i then x :: handFrom count i (n + 1) xs
    else handFrom count i (n + 1) xs

/-- What a hand holds of a list. -/
def hand (count i : ℕ) (xs : List α) : List α := handFrom count i 0 xs

theorem handFrom_append (count i n : ℕ) (xs ys : List α) :
    handFrom count i n (xs ++ ys) =
      handFrom count i n xs ++ handFrom count i (n + xs.length) ys := by
  induction xs generalizing n with
  | nil => rfl
  | cons x xs ih =>
    have hnext : n + 1 + xs.length = n + (x :: xs).length := by
      rw [List.length_cons]
      omega
    rw [List.cons_append, handFrom, handFrom, ih, hnext]
    split
    · rfl
    · rfl

/-- One more element goes to the hand whose turn it is. -/
theorem hand_concat (count i : ℕ) (xs : List α) (x : α) :
    hand count i (xs ++ [x]) =
      hand count i xs ++ if xs.length % count = i then [x] else [] := by
  rw [hand, handFrom_append, Nat.zero_add]
  rfl

/-- Nothing is dealt past the last hand. -/
theorem hand_eq_nil {count i : ℕ} (h : 0 < count) (hi : count ≤ i) (xs : List α) :
    hand count i xs = [] := by
  induction xs using List.reverseRecOn with
  | nil => rfl
  | append_singleton xs x ih =>
    have hturn := Nat.mod_lt xs.length h
    rw [hand_concat, ih, if_neg (by omega), List.append_nil]

/-- It is the turn of exactly one hand. -/
theorem flatMap_turn {count j : ℕ} (h : j < count) (x : α) :
    ((List.range count).flatMap fun i => if j = i then [x] else []) = [x] := by
  have hnobody : ∀ n ≤ j, ((List.range n).flatMap fun i => if j = i then [x] else []) = [] := by
    intro n hn
    refine List.flatMap_eq_nil_iff.mpr fun i hi => if_neg ?_
    have hlt := List.mem_range.mp hi
    omega
  induction count with
  | zero => exact absurd h (Nat.not_lt_zero j)
  | succ count ih =>
    rw [List.range_succ, List.flatMap_append, List.flatMap_singleton]
    by_cases hlast : j = count
    · rw [if_pos hlast, hnobody count (Nat.le_of_eq hlast.symm), List.nil_append]
    · rw [if_neg hlast, ih (by omega), List.append_nil]

/-- The hands together hold every element once. -/
theorem flatMap_hand_perm {count : ℕ} (h : 0 < count) (xs : List α) :
    ((List.range count).flatMap fun i => hand count i xs).Perm xs := by
  induction xs using List.reverseRecOn with
  | nil =>
    have hnone : ((List.range count).flatMap fun i => hand count i ([] : List α)) = [] :=
      List.flatMap_eq_nil_iff.mpr fun _ _ => rfl
    rw [hnone]
  | append_singleton xs x ih =>
    have hturn := flatMap_turn (Nat.mod_lt xs.length h) x
    simp only [hand_concat]
    refine (List.flatMap_append_perm _ _ _).symm.trans ?_
    rw [hturn]
    exact ih.append_right [x]

/-- How many elements a hand holds. -/
theorem hand_length {count i : ℕ} (h : 0 < count) (hi : i < count) (xs : List α) :
    (hand count i xs).length = xs.length / count + if i < xs.length % count then 1 else 0 := by
  induction xs using List.reverseRecOn with
  | nil =>
    rw [List.length_nil, Nat.zero_div, Nat.zero_mod, if_neg (Nat.not_lt_zero i)]
    rfl
  | append_singleton xs x ih =>
    have hmod := Nat.mod_lt xs.length h
    have hsplit := Nat.div_add_mod xs.length count
    rw [hand_concat, List.length_append, ih, List.length_append, List.length_singleton]
    generalize xs.length / count = q at hsplit ⊢
    generalize xs.length % count = r at hsplit hmod ⊢
    by_cases hwrap : r + 1 = count
    · have hround : xs.length + 1 = count * (q + 1) := by
        rw [Nat.mul_succ]
        omega
      rw [hround, Nat.mul_div_cancel_left _ h, Nat.mul_mod_right]
      by_cases hlast : r = i
      · rw [if_pos hlast, if_neg (by omega), if_neg (Nat.not_lt_zero i)]
        rfl
      · rw [if_neg hlast, if_pos (by omega), if_neg (Nat.not_lt_zero i)]
        rfl
    · have hnext : xs.length + 1 = (r + 1) + count * q := by omega
      rw [hnext, Nat.add_mul_div_left _ _ h, Nat.add_mul_mod_self_left,
        Nat.div_eq_of_lt (by omega), Nat.mod_eq_of_lt (by omega)]
      by_cases hturn : r = i
      · rw [if_pos hturn, if_neg (by omega), if_pos (by omega), List.length_singleton]
        omega
      · rw [if_neg hturn, List.length_nil]
        by_cases hearly : i < r
        · rw [if_pos hearly, if_pos (by omega)]
          omega
        · rw [if_neg hearly, if_neg (by omega)]
          omega

end Dealing
