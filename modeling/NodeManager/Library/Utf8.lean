import Mathlib.Tactic.Ring
import NodeManager.Library.ProtobufWire

/-!
# UTF-8 by code points

The bytes of a code point, and the strings that the test of the wire format
accepts: exactly those that are made of characters, one behind the other.
-/

namespace Utf8

open ProtobufWire

/-- The code points of characters: those of surrogates are left out. -/
def IsScalar (cp : ℕ) : Prop := cp < 0xD800 ∨ 0xDFFF < cp ∧ cp < 0x110000

/-- The bytes of a code point. -/
def encode (cp : ℕ) : List UInt8 :=
  if cp < 0x80 then [UInt8.ofNat cp]
  else if cp < 0x800 then [UInt8.ofNat (0xC0 + cp / 64), UInt8.ofNat (0x80 + cp % 64)]
  else if cp < 0x10000 then
    [UInt8.ofNat (0xE0 + cp / 4096), UInt8.ofNat (0x80 + cp / 64 % 64),
      UInt8.ofNat (0x80 + cp % 64)]
  else
    [UInt8.ofNat (0xF0 + cp / 262144), UInt8.ofNat (0x80 + cp / 4096 % 64),
      UInt8.ofNat (0x80 + cp / 64 % 64), UInt8.ofNat (0x80 + cp % 64)]

theorem shiftLeft_or_eq {a b : ℕ} (i : ℕ) (h : b < 2 ^ i) : a <<< i ||| b = a * 2 ^ i + b := by
  rw [← Nat.shiftLeft_add_eq_or_of_lt h, Nat.shiftLeft_eq]

theorem and_eq_mod (a i : ℕ) : a &&& (2 ^ i - 1) = a % 2 ^ i := Nat.and_two_pow_sub_one_eq_mod a i

theorem ofNat_toNat_lt {n : ℕ} (h : n < 256) : (UInt8.ofNat n).toNat = n := by
  rw [UInt8.toNat_ofNat']
  exact Nat.mod_eq_of_lt h

theorem encode_ne_nil (cp : ℕ) : encode cp ≠ [] := by
  unfold encode
  split
  · exact List.cons_ne_nil _ _
  · split
    · exact List.cons_ne_nil _ _
    · split <;> exact List.cons_ne_nil _ _

theorem isContinuation_iff (b : UInt8) :
    isContinuation b = true ↔ 0x80 ≤ b.toNat ∧ b.toNat < 0xC0 := by
  simp only [isContinuation, Bool.and_eq_true, decide_eq_true_eq, UInt8.le_iff_toNat_le]
  exact and_congr_right fun _ => Nat.lt_succ_iff.symm

section Test

variable {a b c d : UInt8} {rest : List UInt8}

theorem validUtf8_one (ha : a.toNat < 0x80) : validUtf8 (a :: rest) = validUtf8 rest := by
  have hle : a ≤ 0x7F := UInt8.le_iff_toNat_le.mpr (Nat.lt_succ_iff.mp ha)
  conv_lhs => unfold validUtf8
  exact if_pos hle

theorem not_le_of_lead (ha : 0x80 ≤ a.toNat) : ¬a ≤ 0x7F := by
  rw [UInt8.le_iff_toNat_le]
  exact fun h => absurd (ha.trans h) (by decide)

theorem between_iff (low high : UInt8) : (low ≤ a && a ≤ high) = true ↔
    low.toNat ≤ a.toNat ∧ a.toNat < high.toNat + 1 := by
  simp only [Bool.and_eq_true, decide_eq_true_eq, UInt8.le_iff_toNat_le, Nat.lt_succ_iff]

theorem validUtf8_two (ha : 0xC2 ≤ a.toNat ∧ a.toNat < 0xE0) :
    validUtf8 (a :: b :: rest) = (isContinuation b && validUtf8 rest) := by
  conv_lhs => unfold validUtf8
  rw [if_neg (not_le_of_lead (by omega))]
  exact if_pos ((between_iff 0xC2 0xDF).mpr ha)

theorem validUtf8_three (ha : 0xE0 ≤ a.toNat ∧ a.toNat < 0xF0) :
    validUtf8 (a :: b :: c :: rest) = true ↔ isContinuation b = true ∧ isContinuation c = true ∧
      (a.toNat = 0xE0 → 0xA0 ≤ b.toNat) ∧ (a.toNat = 0xED → b.toNat ≤ 0x9F) ∧
        validUtf8 rest = true := by
  have htwo : ¬(0xC2 ≤ a && a ≤ 0xDF) = true := by
    rw [between_iff 0xC2 0xDF]
    exact fun h => absurd (ha.1.trans_lt h.2) (by decide)
  conv_lhs => unfold validUtf8
  rw [if_neg (not_le_of_lead (by omega))]
  dsimp only
  rw [if_neg htwo, if_pos ((between_iff 0xE0 0xEF).mpr ha)]
  simp only [Bool.and_eq_true, Bool.or_eq_true, bne_iff_ne, decide_eq_true_eq,
    UInt8.le_iff_toNat_le, ne_eq, ← UInt8.toNat_inj, and_assoc, ← imp_iff_not_or]
  exact Iff.rfl

theorem validUtf8_four (ha : 0xF0 ≤ a.toNat ∧ a.toNat < 0xF5) :
    validUtf8 (a :: b :: c :: d :: rest) = true ↔ isContinuation b = true ∧
      isContinuation c = true ∧ isContinuation d = true ∧ (a.toNat = 0xF0 → 0x90 ≤ b.toNat) ∧
        (a.toNat = 0xF4 → b.toNat ≤ 0x8F) ∧ validUtf8 rest = true := by
  have htwo : ¬(0xC2 ≤ a && a ≤ 0xDF) = true := by
    rw [between_iff 0xC2 0xDF]
    exact fun h => absurd (ha.1.trans_lt h.2) (by decide)
  have hthree : ¬(0xE0 ≤ a && a ≤ 0xEF) = true := by
    rw [between_iff 0xE0 0xEF]
    exact fun h => absurd (ha.1.trans_lt h.2) (by decide)
  have hfour := (between_iff 0xF0 0xF4).mpr ha
  conv_lhs => unfold validUtf8
  rw [if_neg (not_le_of_lead (by omega))]
  dsimp only
  rw [if_neg htwo, if_neg hthree, hfour]
  simp only [Bool.true_and, Bool.and_eq_true, Bool.or_eq_true, bne_iff_ne, decide_eq_true_eq,
    UInt8.le_iff_toNat_le, ne_eq, ← UInt8.toNat_inj, and_assoc, ← imp_iff_not_or]
  exact Iff.rfl

/-- A lead byte of a character is followed by the bytes that it asks for. -/
theorem validUtf8_lead (ha : 0x80 ≤ a.toNat) (h : validUtf8 (a :: rest) = true) :
    (0xC2 ≤ a.toNat ∧ a.toNat < 0xE0) ∧ (∃ b rest', rest = b :: rest') ∨
      (0xE0 ≤ a.toNat ∧ a.toNat < 0xF0) ∧ (∃ b c rest', rest = b :: c :: rest') ∨
      (0xF0 ≤ a.toNat ∧ a.toNat < 0xF5) ∧ ∃ b c d rest', rest = b :: c :: d :: rest' := by
  unfold validUtf8 at h
  rw [if_neg (not_le_of_lead ha)] at h
  split at h
  · cases h
  · next b rest' =>
    split at h
    · next htwo => exact Or.inl ⟨(between_iff 0xC2 0xDF).mp htwo, b, rest', rfl⟩
    · split at h
      · cases h
      · next c rest' =>
        split at h
        · next hthree =>
          exact Or.inr (Or.inl ⟨(between_iff 0xE0 0xEF).mp hthree, b, c, rest', rfl⟩)
        · split at h
          · cases h
          · next d rest' =>
            simp only [Bool.and_eq_true, and_assoc] at h
            refine Or.inr (Or.inr ⟨(between_iff 0xF0 0xF4).mp ?_, b, c, d, rest', rfl⟩)
            rw [Bool.and_eq_true]
            exact ⟨h.1, h.2.1⟩

end Test

/-- The test passes over a character. -/
theorem validUtf8_encode_append {cp : ℕ} (h : IsScalar cp) (rest : List UInt8) :
    validUtf8 (encode cp ++ rest) = validUtf8 rest := by
  have hcontinuation : ∀ n, isContinuation (UInt8.ofNat (0x80 + n % 64)) = true := by
    intro n
    rw [isContinuation_iff, ofNat_toNat_lt (by omega)]
    omega
  unfold IsScalar at h
  unfold encode
  split
  · exact validUtf8_one (by rw [ofNat_toNat_lt (by omega)]; omega)
  · split
    · refine (validUtf8_two ?_).trans ?_
      · rw [ofNat_toNat_lt (by omega)]
        omega
      · rw [hcontinuation, Bool.true_and]
        rfl
    · split
      · rw [Bool.eq_iff_iff]
        have hlead := ofNat_toNat_lt (show 0xE0 + cp / 4096 < 256 by omega)
        refine (validUtf8_three (by rw [hlead]; omega)).trans ?_
        rw [hlead, ofNat_toNat_lt (show 0x80 + cp / 64 % 64 < 256 by omega)]
        simp only [hcontinuation, true_and]
        exact ⟨fun h => h.2.2, fun h => ⟨by omega, by omega, h⟩⟩
      · rw [Bool.eq_iff_iff]
        have hlead := ofNat_toNat_lt (show 0xF0 + cp / 262144 < 256 by omega)
        refine (validUtf8_four (by rw [hlead]; omega)).trans ?_
        rw [hlead, ofNat_toNat_lt (show 0x80 + cp / 4096 % 64 < 256 by omega)]
        simp only [hcontinuation, true_and]
        exact ⟨fun h => h.2.2, fun h => ⟨by omega, by omega, h⟩⟩

/-- A string that passes starts with a character, unless it is empty. -/
theorem exists_encode {a : UInt8} {rest : List UInt8} (h : validUtf8 (a :: rest) = true) :
    ∃ cp left, IsScalar cp ∧ a :: rest = encode cp ++ left ∧ validUtf8 left = true := by
  have hbyte : ∀ {x : UInt8} {n : ℕ}, n = x.toNat → UInt8.ofNat n = x := by
    intro x n hn
    rw [hn, UInt8.ofNat_toNat]
  by_cases hone : a.toNat < 0x80
  · refine ⟨a.toNat, rest, Or.inl (by omega), ?_, (validUtf8_one hone) ▸ h⟩
    rw [encode, if_pos hone, UInt8.ofNat_toNat, List.singleton_append]
  · rcases validUtf8_lead (by omega) h with ⟨ha, b, left, rfl⟩ | ⟨ha, b, c, left, rfl⟩ |
      ⟨ha, b, c, d, left, rfl⟩
    · rw [validUtf8_two ha, Bool.and_eq_true, isContinuation_iff] at h
      obtain ⟨hb, hleft⟩ := h
      refine ⟨(a.toNat - 0xC0) * 64 + (b.toNat - 0x80), left, Or.inl (by omega), ?_, hleft⟩
      rw [encode, if_neg (by omega), if_pos (by omega), hbyte (x := a) (by omega),
        hbyte (x := b) (by omega)]
      rfl
    · simp only [validUtf8_three ha, isContinuation_iff] at h
      obtain ⟨hb, hc, hshort, hsurrogate, hleft⟩ := h
      refine ⟨(a.toNat - 0xE0) * 4096 + (b.toNat - 0x80) * 64 + (c.toNat - 0x80), left, ?_, ?_,
        hleft⟩
      · unfold IsScalar
        omega
      · rw [encode, if_neg (by omega), if_neg (by omega), if_pos (by omega),
          hbyte (x := a) (by omega), hbyte (x := b) (by omega), hbyte (x := c) (by omega)]
        rfl
    · simp only [validUtf8_four ha, isContinuation_iff] at h
      obtain ⟨hb, hc, hd, hshort, hlong, hleft⟩ := h
      refine ⟨(a.toNat - 0xF0) * 262144 + (b.toNat - 0x80) * 4096 + (c.toNat - 0x80) * 64 +
        (d.toNat - 0x80), left, Or.inr (by omega), ?_, hleft⟩
      rw [encode, if_neg (by omega), if_neg (by omega), if_neg (by omega),
        hbyte (x := a) (by omega), hbyte (x := b) (by omega), hbyte (x := c) (by omega),
        hbyte (x := d) (by omega)]
      rfl

/-- A string that passes is read character by character. -/
theorem induction {P : List UInt8 → Prop} (nil : P [])
    (append : ∀ cp left, IsScalar cp → validUtf8 left = true → P left → P (encode cp ++ left))
    {bytes : List UInt8} (h : validUtf8 bytes = true) : P bytes := by
  induction hlength : bytes.length using Nat.strong_induction_on generalizing bytes with
  | _ n ih =>
    cases bytes with
    | nil => exact nil
    | cons a rest =>
      obtain ⟨cp, left, hscalar, hsplit, hleft⟩ := exists_encode h
      have hpos := List.length_pos_iff.mpr (encode_ne_nil cp)
      rw [hsplit, List.length_append] at hlength
      rw [hsplit]
      exact append cp left hscalar hleft (ih left.length (by omega) hleft rfl)

end Utf8
