import Mathlib.Data.Nat.Log
import Mathlib.Tactic.Ring

/-!
# Words as bytes, and byte buffers with checked accesses

A word of a given width is laid out in one of the two byte orders of a
machine. A buffer is the list of the bytes it owns; a copy into it or out
of it that would touch a byte beyond its end is a fault of its own, distinct
from a failed assertion, so a program over these operations says which of
the two comes first.
-/

namespace ByteMemory

/-- Order in which a machine stores the bytes of a word. -/
inductive ByteOrder
  /-- Least significant byte first. -/
  | little
  /-- Most significant byte first; the order used on a network. -/
  | big
  deriving DecidableEq, Repr

/-- The low `w` bytes of a natural, least significant first. -/
def lowBytes : ℕ → ℕ → List UInt8
  | 0, _ => []
  | w + 1, n => UInt8.ofNat (n % 256) :: lowBytes w (n / 256)

/-- The natural whose bytes are given, least significant first. -/
def lowValue : List UInt8 → ℕ
  | [] => 0
  | b :: bs => b.toNat + 256 * lowValue bs

@[simp] theorem lowBytes_length (w n : ℕ) : (lowBytes w n).length = w := by
  induction w generalizing n with
  | zero => rfl
  | succ w ih => simp only [lowBytes, List.length_cons, ih]

/-- Laying out a natural keeps it modulo the width. -/
theorem lowValue_lowBytes (w n : ℕ) : lowValue (lowBytes w n) = n % 256 ^ w := by
  induction w generalizing n with
  | zero => simp only [lowBytes, lowValue, pow_zero, Nat.mod_one]
  | succ w ih =>
    have hb : (UInt8.ofNat (n % 256)).toNat = n % 256 := by
      rw [UInt8.toNat_ofNat']
      omega
    rw [lowBytes, lowValue, ih, hb, pow_succ', Nat.mod_mul]

theorem lowBytes_lowValue (bs : List UInt8) : lowBytes bs.length (lowValue bs) = bs := by
  induction bs with
  | nil => rfl
  | cons b bs ih =>
    have hb := b.toNat_lt
    have hq : (b.toNat + 256 * lowValue bs) / 256 = lowValue bs := by omega
    have hr : (b.toNat + 256 * lowValue bs) % 256 = b.toNat := by omega
    rw [List.length_cons, lowValue, lowBytes, hq, hr, ih, UInt8.ofNat_toNat]

theorem lowValue_lt (bs : List UInt8) : lowValue bs < 256 ^ bs.length := by
  induction bs with
  | nil => simp only [lowValue, List.length_nil, pow_zero, Nat.lt_one_iff]
  | cons b bs ih =>
    have hb := b.toNat_lt
    rw [lowValue, List.length_cons, pow_succ]
    omega

/-- A wide word is its low part followed by its high part. -/
theorem lowBytes_add (v w n : ℕ) :
    lowBytes (v + w) n = lowBytes v n ++ lowBytes w (n / 256 ^ v) := by
  induction v generalizing n with
  | zero => simp only [Nat.zero_add, lowBytes, List.nil_append, pow_zero, Nat.div_one]
  | succ v ih =>
    rw [Nat.add_right_comm, lowBytes, lowBytes, ih, List.cons_append, Nat.div_div_eq_div_mul,
      ← pow_succ']

/-- The bytes of a word of width `w` in memory. -/
def ByteOrder.bytes : ByteOrder → ℕ → ℕ → List UInt8
  | .little, w, n => lowBytes w n
  | .big, w, n => (lowBytes w n).reverse

/-- The word that the given bytes of memory hold. -/
def ByteOrder.value : ByteOrder → List UInt8 → ℕ
  | .little, bs => lowValue bs
  | .big, bs => lowValue bs.reverse

variable (order : ByteOrder)

@[simp] theorem ByteOrder.bytes_length (w n : ℕ) : (order.bytes w n).length = w := by
  cases order with
  | little => exact lowBytes_length w n
  | big => rw [bytes, List.length_reverse, lowBytes_length]

theorem ByteOrder.value_bytes (w n : ℕ) : order.value (order.bytes w n) = n % 256 ^ w := by
  cases order with
  | little => exact lowValue_lowBytes w n
  | big => rw [bytes, value, List.reverse_reverse, lowValue_lowBytes]

/-- A word that fits its width is read back unchanged. -/
theorem ByteOrder.value_bytes_of_lt {w n : ℕ} (h : n < 256 ^ w) :
    order.value (order.bytes w n) = n := by
  rw [value_bytes, Nat.mod_eq_of_lt h]

theorem ByteOrder.bytes_value (bs : List UInt8) :
    order.bytes bs.length (order.value bs) = bs := by
  cases order with
  | little => exact lowBytes_lowValue bs
  | big =>
    have h := lowBytes_lowValue bs.reverse
    rw [List.length_reverse] at h
    rw [bytes, value, h, List.reverse_reverse]

theorem ByteOrder.value_lt (bs : List UInt8) : order.value bs < 256 ^ bs.length := by
  cases order with
  | little => exact lowValue_lt bs
  | big =>
    have h := lowValue_lt bs.reverse
    rwa [List.length_reverse] at h

/-- Ways in which a program over byte buffers stops before its result. -/
inductive Fault
  /-- An assertion of the program is false. -/
  | assertion
  /-- A copy touches a byte beyond the end of its buffer. -/
  | outOfBounds
  deriving DecidableEq, Repr

@[simp] theorem ok_bind {ε α β : Type} (a : α) (f : α → Except ε β) :
    (Except.ok a >>= f) = f a := rfl

/-- Go on only when the asserted condition is true. -/
def check (p : Prop) [Decidable p] : Except Fault Unit :=
  if p then .ok () else .error .assertion

theorem check_of {p : Prop} [Decidable p] (h : p) : check p = .ok () := if_pos h

/-- Copy `src` over the bytes of the buffer from an offset on. -/
def store (buffer : List UInt8) (offset : ℕ) (src : List UInt8) : Except Fault (List UInt8) :=
  if offset + src.length ≤ buffer.length then
    .ok (buffer.take offset ++ src ++ buffer.drop (offset + src.length))
  else .error .outOfBounds

/-- A store changes no byte outside its range. -/
theorem store_getElem? {buffer after src : List UInt8} {offset : ℕ}
    (h : store buffer offset src = .ok after) {i : ℕ}
    (hi : i < offset ∨ offset + src.length ≤ i) : after[i]? = buffer[i]? := by
  unfold store at h
  split at h
  · next hfits =>
    cases h
    have htake : (buffer.take offset).length = offset := by
      rw [List.length_take]
      omega
    rcases hi with hbefore | hbehind
    · rw [List.append_assoc, List.getElem?_append_left (by omega), List.getElem?_take_of_lt hbefore]
    · have hlength : (buffer.take offset ++ src).length = offset + src.length := by
        rw [List.length_append, htake]
      rw [List.getElem?_append_right (by omega), hlength, List.getElem?_drop]
      congr 1
      omega
  · cases h

/-- Copy `width` bytes out of the buffer from an offset on. -/
def load (buffer : List UInt8) (offset width : ℕ) : Except Fault (List UInt8) :=
  if offset + width ≤ buffer.length then .ok ((buffer.drop offset).take width)
  else .error .outOfBounds

/-- A buffer whose first bytes have been replaced. -/
def overlay (done buffer : List UInt8) : List UInt8 := done ++ buffer.drop done.length

@[simp] theorem overlay_nil (buffer : List UInt8) : overlay [] buffer = buffer := rfl

theorem overlay_length {done buffer : List UInt8} (h : done.length ≤ buffer.length) :
    (overlay done buffer).length = buffer.length := by
  rw [overlay, List.length_append, List.length_drop]
  omega

/-- Storing right behind the replaced bytes replaces that many more of them. -/
theorem store_overlay {done buffer src : List UInt8} {offset : ℕ} (ho : done.length = offset)
    (hw : offset + src.length ≤ buffer.length) :
    store (overlay done buffer) offset src = .ok (overlay (done ++ src) buffer) := by
  subst ho
  have hb : done.length + src.length ≤ (overlay done buffer).length := by
    rwa [overlay_length (by omega)]
  have hrest : (overlay done buffer).drop (done.length + src.length) =
      buffer.drop (done.length + src.length) := by
    rw [overlay, List.drop_append, List.drop_of_length_le (by omega), Nat.add_sub_cancel_left,
      List.nil_append, List.drop_drop]
  rw [store, if_pos hb, hrest, overlay, List.take_left, overlay, List.length_append]

/-- A store that lies inside the range of the next one leaves no trace. -/
theorem store_absorb {buffer mid inner : List UInt8} {offset shift : ℕ} (outer : List UInt8)
    (hi : store buffer (offset + shift) inner = .ok mid)
    (hin : shift + inner.length ≤ outer.length) :
    store mid offset outer = store buffer offset outer := by
  unfold store at hi
  split at hi
  · next hb =>
    cases hi
    have hlen : (buffer.take (offset + shift) ++ inner ++
        buffer.drop (offset + shift + inner.length)).length = buffer.length := by
      simp only [List.length_append, List.length_take, List.length_drop]
      omega
    unfold store
    rw [hlen]
    split
    · have htake : (buffer.take (offset + shift) ++ inner ++
          buffer.drop (offset + shift + inner.length)).take offset = buffer.take offset := by
        rw [List.append_assoc, List.take_append_of_le_length (by rw [List.length_take]; omega),
          List.take_take, Nat.min_eq_left (Nat.le_add_right _ _)]
      have hdrop : (buffer.take (offset + shift) ++ inner ++
          buffer.drop (offset + shift + inner.length)).drop (offset + outer.length) =
          buffer.drop (offset + outer.length) := by
        have hpre : (buffer.take (offset + shift) ++ inner).length =
            offset + shift + inner.length := by
          rw [List.length_append, List.length_take]
          omega
        rw [List.drop_append, List.drop_of_length_le (by omega), List.nil_append, hpre,
          List.drop_drop]
        congr 1
        omega
      rw [htake, hdrop]
    · rfl
  · cases hi

/-- What an access to a buffer of `n` bytes comes to, when its assertion holds
from `guard` bytes on and it touches the bytes below `extent`. -/
structure Access {α : Type} (n guard extent : ℕ) (P : α → Prop) (result : Except Fault α) :
    Prop where
  /-- The assertion fails before a byte is touched. -/
  asserted : n < guard → result = .error .assertion
  /-- The assertion lets an access past the end through. -/
  outside : guard ≤ n → n < extent → result = .error .outOfBounds
  /-- The access stays within the buffer. -/
  inside : guard ≤ n → extent ≤ n → ∃ a, result = .ok a ∧ P a

/-- Whether a sequence of accesses, each given by its guard and its extent,
leaves a buffer of `n` bytes before an assertion fails. -/
def Escapes (n : ℕ) : List (ℕ × ℕ) → Prop
  | [] => False
  | (guard, extent) :: later => guard ≤ n ∧ (n < extent ∨ Escapes n later)

section Accesses

variable {α β : Type} {n guard extent : ℕ} {P : α → Prop} {result : Except Fault α}

/-- A last access leaves the buffer at the sizes from its guard to its extent. -/
theorem Access.last (h : Access n guard extent P result) :
    result = .error .outOfBounds ↔ Escapes n [(guard, extent)] := by
  simp only [Escapes, or_false]
  by_cases hguard : guard ≤ n
  · by_cases hextent : extent ≤ n
    · obtain ⟨a, ha, _⟩ := h.inside hguard hextent
      rw [ha]
      constructor
      · intro herror
        cases herror
      · omega
    · rw [h.outside hguard (by omega)]
      constructor
      · omega
      · intro _
        rfl
  · rw [h.asserted (by omega)]
    constructor
    · intro herror
      cases herror
    · omega

/-- The later accesses count where the first one has stayed within the buffer. -/
theorem Access.first {f : α → Except Fault β} {later : List (ℕ × ℕ)}
    (h : Access n guard extent P result)
    (hf : ∀ a, P a → (f a = .error .outOfBounds ↔ Escapes n later)) :
    (result >>= f) = .error .outOfBounds ↔ Escapes n ((guard, extent) :: later) := by
  rw [Escapes]
  by_cases hguard : guard ≤ n
  · by_cases hextent : extent ≤ n
    · obtain ⟨a, ha, hP⟩ := h.inside hguard hextent
      rw [ha, ok_bind, hf a hP]
      constructor
      · intro hlater
        exact ⟨hguard, Or.inr hlater⟩
      · rintro ⟨_, hless | hlater⟩
        · omega
        · exact hlater
    · rw [h.outside hguard (by omega)]
      constructor
      · intro _
        exact ⟨hguard, Or.inl (by omega)⟩
      · intro _
        rfl
  · rw [h.asserted (by omega)]
    constructor
    · intro herror
      cases herror
    · omega

/-- A copy out of the whole buffer. -/
theorem load_access (buffer : List UInt8) (offset width : ℕ) :
    Access buffer.length 0 (offset + width) (fun _ => True) (load buffer offset width) where
  asserted h := by omega
  outside _ h := if_neg (by omega)
  inside _ h := ⟨_, if_pos h, trivial⟩

/-- A copy into the buffer keeps its length. -/
theorem store_access (buffer : List UInt8) (offset : ℕ) (src : List UInt8) :
    Access buffer.length 0 (offset + src.length) (fun after => after.length = buffer.length)
      (store buffer offset src) where
  asserted h := by omega
  outside _ h := if_neg (by omega)
  inside _ h := by
    refine ⟨_, if_pos h, ?_⟩
    simp only [List.length_append, List.length_take, List.length_drop]
    omega

/-- An assertion on the size in front of an access. -/
theorem Access.check {size : ℕ} (hsize : size = n) (h : Access n 0 extent P result) :
    Access n guard extent P (do ByteMemory.check (guard ≤ size); result) where
  asserted hless := by
    rw [ByteMemory.check, if_neg (by omega)]
    rfl
  outside hguard hless := by
    rw [check_of (by omega)]
    exact h.outside (Nat.zero_le n) hless
  inside hguard hextent := by
    rw [check_of (by omega)]
    exact h.inside (Nat.zero_le n) hextent

/-- What is computed from the result touches no byte. -/
theorem Access.map {Q : β → Prop} (g : α → β) (h : Access n guard extent P result)
    (hg : ∀ a, P a → Q (g a)) :
    Access n guard extent Q (do return g (← result)) where
  asserted hless := by
    rw [h.asserted hless]
    rfl
  outside hguard hless := by
    rw [h.outside hguard hless]
    rfl
  inside hguard hextent := by
    obtain ⟨a, ha, hP⟩ := h.inside hguard hextent
    rw [ha]
    exact ⟨g a, rfl, hg a hP⟩

end Accesses

end ByteMemory
