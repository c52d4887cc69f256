import NodeManager.FastWriter
import NodeManager.JsonReader
import NodeManager.Library.Utf8

/-!
# Strings written and read back

What the reader makes of the text that the writer made of a string. A string
comes back as it was exactly when it is valid UTF-8; of any other string every
code point that the writer saw comes back in its own bytes.
-/

namespace NodeManager.Json

open Utf8 (encode IsScalar shiftLeft_or_eq and_eq_mod ofNat_toNat_lt)

/-- The code point of the first of the two escapes that stand for a code point
that needs two. -/
def firstSurrogate (cp : ℕ) : ℕ := ((cp - 0x10000) >>> 10) + 0xD800

/-- The code point of the second one. -/
def secondSurrogate (cp : ℕ) : ℕ := ((cp - 0x10000) &&& 0x3FF) + 0xDC00

/-- The bytes that a code point comes back in. Behind the last code point the
two escapes make no pair, and each is read on its own. -/
def rereadCodePoint (cp : ℕ) : Str :=
  if cp < 0x110000 then encode cp
  else encode (firstSurrogate cp) ++ encode (secondSurrogate cp)

/-- The string that is read back. -/
def rereadString (value : Str) : Str := (codePoints value).flatMap rereadCodePoint

theorem codePointToUTF8_eq {cp : ℕ} (h : cp < 0x110000) : codePointToUTF8 cp = encode cp := by
  have hdiv : ∀ i, cp >>> i = cp / 2 ^ i := fun i => Nat.shiftRight_eq_div_pow cp i
  have hlow : ∀ n, 0x80 ||| (0x3F &&& n) = 0x80 + n % 64 := by
    intro n
    have hmod : 0x3F &&& n = n % 2 ^ 6 := by
      rw [Nat.and_comm]
      exact and_eq_mod n 6
    have hor := shiftLeft_or_eq (a := 2) 6 (Nat.mod_lt n (by decide))
    rw [hmod]
    exact hor
  unfold codePointToUTF8 encode
  by_cases hone : cp < 0x80
  · rw [if_pos (Nat.lt_succ_iff.mp hone), if_pos hone]
  · rw [if_neg (by omega), if_neg hone]
    by_cases htwo : cp < 0x800
    · have hlead : 0xC0 ||| (0x1F &&& cp >>> 6) = 0xC0 + cp / 64 := by
        have hmod : 0x1F &&& cp >>> 6 = cp / 64 := by
          rw [Nat.and_comm, hdiv]
          exact (and_eq_mod _ 5).trans (Nat.mod_eq_of_lt (by omega))
        rw [hmod]
        exact shiftLeft_or_eq (a := 6) 5 (by omega)
      rw [if_pos (by omega), if_pos htwo, hlead, hlow]
    · rw [if_neg (by omega), if_neg htwo]
      by_cases hthree : cp < 0x10000
      · have hlead : 0xE0 ||| (0xF &&& cp >>> 12) = 0xE0 + cp / 4096 := by
          have hmod : 0xF &&& cp >>> 12 = cp / 4096 := by
            rw [Nat.and_comm, hdiv]
            exact (and_eq_mod _ 4).trans (Nat.mod_eq_of_lt (by omega))
          rw [hmod]
          exact shiftLeft_or_eq (a := 14) 4 (by omega)
        rw [if_pos (by omega), if_pos hthree, hlead, hlow, hlow, hdiv]
        rfl
      · have hlead : 0xF0 ||| (0x7 &&& cp >>> 18) = 0xF0 + cp / 262144 := by
          have hmod : 0x7 &&& cp >>> 18 = cp / 262144 := by
            rw [Nat.and_comm, hdiv]
            exact (and_eq_mod _ 3).trans (Nat.mod_eq_of_lt (by omega))
          rw [hmod]
          exact shiftLeft_or_eq (a := 30) 3 (by omega)
        rw [if_neg (by omega), if_pos (by omega), if_neg hthree, hlead, hlow, hlow, hlow, hdiv,
          hdiv]
        rfl

/-- The six bits of a continuation byte. -/
theorem and_mask (b : UInt8) : b.toNat &&& 0x3F = b.toNat % 64 := and_eq_mod b.toNat 6

/-- Two groups of six bits. -/
theorem join_two (n : ℕ) (b : UInt8) :
    n <<< 6 ||| (b.toNat &&& 0x3F) = n * 64 + b.toNat % 64 := by
  rw [and_mask]
  exact shiftLeft_or_eq 6 (Nat.mod_lt _ (by decide))

theorem join_three (n : ℕ) (b c : UInt8) :
    n <<< 12 ||| (b.toNat &&& 0x3F) <<< 6 ||| (c.toNat &&& 0x3F) =
      n * 4096 + b.toNat % 64 * 64 + c.toNat % 64 := by
  have hassoc : n <<< 12 ||| (b.toNat &&& 0x3F) <<< 6 ||| (c.toNat &&& 0x3F) =
      n <<< 12 ||| (b.toNat % 64 * 64 + c.toNat % 64) := by
    rw [Nat.or_assoc, join_two, and_mask]
  rw [hassoc, shiftLeft_or_eq 12 (by omega)]
  omega

theorem join_four (n : ℕ) (b c d : UInt8) :
    n <<< 18 ||| (b.toNat &&& 0x3F) <<< 12 ||| (c.toNat &&& 0x3F) <<< 6 |||
        (d.toNat &&& 0x3F) =
      n * 262144 + b.toNat % 64 * 4096 + c.toNat % 64 * 64 + d.toNat % 64 := by
  have hassoc : n <<< 18 ||| (b.toNat &&& 0x3F) <<< 12 ||| (c.toNat &&& 0x3F) <<< 6 |||
      (d.toNat &&& 0x3F) =
        n <<< 18 ||| (b.toNat % 64 * 4096 + c.toNat % 64 * 64 + d.toNat % 64) := by
    rw [Nat.or_assoc, Nat.or_assoc, ← Nat.or_assoc _ _ (d.toNat &&& 0x3F), join_three, and_mask]
  rw [hassoc, shiftLeft_or_eq 18 (by omega)]
  omega

section CodePoints

variable {c : UInt8}

theorem utf8ToCodepoint_one (hc : c.toNat < 0x80) (rest : Str) :
    utf8ToCodepoint c rest = (c.toNat, 0) := by
  unfold utf8ToCodepoint
  exact if_pos hc

theorem utf8ToCodepoint_two (hc : 0x80 ≤ c.toNat ∧ c.toNat < 0xE0) (s₁ : UInt8) (rest : Str) :
    utf8ToCodepoint c (s₁ :: rest) =
      (if c.toNat % 32 * 64 + s₁.toNat % 64 < 0x80 then replacementCharacter
        else c.toNat % 32 * 64 + s₁.toNat % 64, 1) := by
  have hmask : c.toNat &&& 0x1F = c.toNat % 32 := and_eq_mod _ 5
  unfold utf8ToCodepoint
  dsimp only
  rw [if_neg (by omega), if_pos hc.2, join_two, hmask]

theorem utf8ToCodepoint_three (hc : 0xE0 ≤ c.toNat ∧ c.toNat < 0xF0) (s₁ s₂ : UInt8)
    (rest : Str) : utf8ToCodepoint c (s₁ :: s₂ :: rest) =
      (let calculated := c.toNat % 16 * 4096 + s₁.toNat % 64 * 64 + s₂.toNat % 64
        if 0xD800 ≤ calculated ∧ calculated ≤ 0xDFFF then replacementCharacter
        else if calculated < 0x800 then replacementCharacter else calculated, 2) := by
  have hmask : c.toNat &&& 0x0F = c.toNat % 16 := and_eq_mod _ 4
  unfold utf8ToCodepoint
  dsimp only
  rw [if_neg (by omega), if_neg (by omega), if_pos hc.2, join_three, hmask]

theorem utf8ToCodepoint_four (hc : 0xF0 ≤ c.toNat ∧ c.toNat < 0xF8) (s₁ s₂ s₃ : UInt8)
    (rest : Str) : utf8ToCodepoint c (s₁ :: s₂ :: s₃ :: rest) =
      (let calculated := c.toNat % 8 * 262144 + s₁.toNat % 64 * 4096 + s₂.toNat % 64 * 64 +
          s₃.toNat % 64
        if calculated < 0x10000 then replacementCharacter else calculated, 3) := by
  have hmask : c.toNat &&& 0x07 = c.toNat % 8 := and_eq_mod _ 3
  unfold utf8ToCodepoint
  dsimp only
  rw [if_neg (by omega), if_neg (by omega), if_neg (by omega), if_pos hc.2, join_four, hmask]

end CodePoints

/-- The writer sees a character where there is one. -/
theorem utf8ToCodepoint_encode {cp : ℕ} (h : IsScalar cp) (rest : Str) :
    ∃ c tail, encode cp = c :: tail ∧
      utf8ToCodepoint c (tail ++ rest) = (cp, tail.length) := by
  unfold IsScalar at h
  have hlow : ∀ n, (UInt8.ofNat (0x80 + n % 64)).toNat % 64 = n % 64 := by
    intro n
    rw [ofNat_toNat_lt (by omega)]
    omega
  unfold encode
  split
  · next hone =>
    have hlead := ofNat_toNat_lt (show cp < 256 by omega)
    refine ⟨_, _, rfl, ?_⟩
    rw [utf8ToCodepoint_one (by rw [hlead]; exact hone), hlead]
    rfl
  · split
    · next hone htwo =>
      have hlead := ofNat_toNat_lt (show 0xC0 + cp / 64 < 256 by omega)
      refine ⟨_, _, rfl, (utf8ToCodepoint_two (by rw [hlead]; omega) _ _).trans ?_⟩
      have hback : (0xC0 + cp / 64) % 32 * 64 + cp % 64 = cp := by omega
      rw [hlow, hlead, hback, if_neg hone]
      rfl
    · split
      · next hone htwo hthree =>
        have hlead := ofNat_toNat_lt (show 0xE0 + cp / 4096 < 256 by omega)
        refine ⟨_, _, rfl, (utf8ToCodepoint_three (by rw [hlead]; omega) _ _ _).trans ?_⟩
        have hback : (0xE0 + cp / 4096) % 16 * 4096 + cp / 64 % 64 * 64 + cp % 64 = cp := by omega
        dsimp only
        rw [hlow, hlow, hlead, hback, if_neg (by omega), if_neg htwo]
        rfl
      · next hone htwo hthree =>
        have hlead := ofNat_toNat_lt (show 0xF0 + cp / 262144 < 256 by omega)
        refine ⟨_, _, rfl, (utf8ToCodepoint_four (by rw [hlead]; omega) _ _ _ _).trans ?_⟩
        have hback : (0xF0 + cp / 262144) % 8 * 262144 + cp / 4096 % 64 * 4096 +
            cp / 64 % 64 * 64 + cp % 64 = cp := by omega
        dsimp only
        rw [hlow, hlow, hlow, hlead, hback, if_neg hthree]
        rfl

/-- The writer sees characters, and numbers behind the last code point that
four bytes can hold. -/
theorem utf8ToCodepoint_range (c : UInt8) (rest : Str) :
    IsScalar (utf8ToCodepoint c rest).1 ∨
      0x110000 ≤ (utf8ToCodepoint c rest).1 ∧ (utf8ToCodepoint c rest).1 < 0x200000 := by
  have hreplacement : IsScalar replacementCharacter := Or.inr (by decide)
  by_cases hone : c.toNat < 0x80
  · rw [utf8ToCodepoint_one hone]
    exact Or.inl (Or.inl (by dsimp only; omega))
  · by_cases htwo : c.toNat < 0xE0
    · rcases rest with _ | ⟨s₁, rest⟩
      · unfold utf8ToCodepoint
        rw [if_neg hone, if_pos htwo]
        exact Or.inl hreplacement
      · rw [utf8ToCodepoint_two ⟨by omega, htwo⟩]
        dsimp only
        split
        · exact Or.inl hreplacement
        · exact Or.inl (Or.inl (by omega))
    · by_cases hthree : c.toNat < 0xF0
      · rcases rest with _ | ⟨s₁, _ | ⟨s₂, rest⟩⟩
        iterate 2
          unfold utf8ToCodepoint
          rw [if_neg hone, if_neg htwo, if_pos hthree]
          exact Or.inl hreplacement
        rw [utf8ToCodepoint_three ⟨by omega, hthree⟩]
        dsimp only
        split
        · exact Or.inl hreplacement
        · split
          · exact Or.inl hreplacement
          · unfold IsScalar
            omega
      · by_cases hfour : c.toNat < 0xF8
        · rcases rest with _ | ⟨s₁, _ | ⟨s₂, _ | ⟨s₃, rest⟩⟩⟩
          iterate 3
            unfold utf8ToCodepoint
            rw [if_neg hone, if_neg htwo, if_neg hthree, if_pos hfour]
            exact Or.inl hreplacement
          rw [utf8ToCodepoint_four ⟨by omega, hfour⟩]
          dsimp only
          split
          · exact Or.inl hreplacement
          · unfold IsScalar
            omega
        · unfold utf8ToCodepoint
          rw [if_neg hone, if_neg htwo, if_neg hthree, if_neg hfour]
          exact Or.inl hreplacement

/-- A unit of a string as the writer takes it. -/
def IsUnit (c : UInt8) (cp : ℕ) : Prop :=
  (c.toNat < 0x80 ∧ cp = c.toNat ∨ 0x80 ≤ c.toNat ∧ 0x80 ≤ cp) ∧
    (IsScalar cp ∨ 0x110000 ≤ cp ∧ cp < 0x200000)

theorem isUnit_of_mem {value : Str} {used : ℕ} {unit : UInt8 × ℕ}
    (h : unit ∈ unitsFrom used value) : IsUnit unit.1 unit.2 := by
  induction value generalizing used with
  | nil => cases h
  | cons c rest ih =>
    cases used with
    | succ used => exact ih h
    | zero =>
      rw [unitsFrom] at h
      rcases List.mem_cons.mp h with rfl | hrest
      · refine ⟨?_, utf8ToCodepoint_range c rest⟩
        exact utf8ToCodepoint_cases c rest
      · exact ih hrest

theorem hexValue_hexDigit (n : ℕ) : hexValue (hexDigit n) = some (n % 16) := by
  have hall : ∀ k < 16, hexValue (hexDigit k) = some k := by decide
  have hmod : hexDigit n = hexDigit (n % 16) := by
    rw [hexDigit, hexDigit, Nat.mod_mod]
  rw [hmod]
  exact hall _ (Nat.mod_lt n (by decide))

/-- Four hexadecimal digits are read back. -/
theorem decodeUnicodeEscapeSequence_toHex16Bit {x : ℕ} (hx : x < 0x10000) (rest : Str) :
    decodeUnicodeEscapeSequence (toHex16Bit x ++ rest) = some x := by
  have hdigits : decodeUnicodeEscapeSequence (toHex16Bit x ++ rest) =
      some ((((0 * 16 + (x >>> 12) % 16) * 16 + (x >>> 8) % 16) * 16 + (x >>> 4) % 16) * 16 +
        x % 16) := by
    rw [toHex16Bit]
    dsimp only [List.cons_append, decodeUnicodeEscapeSequence]
    simp only [List.foldlM_cons, List.foldlM_nil, hexValue_hexDigit]
    rfl
  rw [hdigits, Option.some.injEq, Nat.shiftRight_eq_div_pow, Nat.shiftRight_eq_div_pow,
    Nat.shiftRight_eq_div_pow]
  omega

/-- The bytes that a loop has used up already are passed over. -/
theorem decodeStringFrom_used (passed rest : Str) :
    decodeStringFrom passed.length (passed ++ rest) = decodeStringFrom 0 rest := by
  induction passed with
  | nil => rfl
  | cons c passed ih =>
    rw [List.length_cons, List.cons_append, decodeStringFrom]
    exact ih

theorem unitsFrom_used (passed rest : Str) :
    unitsFrom passed.length (passed ++ rest) = unitsFrom 0 rest := by
  induction passed with
  | nil => rfl
  | cons c passed ih =>
    rw [List.length_cons, List.cons_append, unitsFrom]
    exact ih

/-- The text of a unit: an escape of one character, the character itself, its
code point, or two code points. -/
theorem escape_shape {c : UInt8} {cp : ℕ} (h : IsUnit c cp) :
    (∃ letter plain, escape c cp = [92, letter] ∧ letter ≠ 117 ∧
        simpleEscape letter = some plain ∧ rereadCodePoint cp = [plain]) ∨
      (∃ plain, escape c cp = [plain] ∧ plain ≠ 34 ∧ plain ≠ 92 ∧
        rereadCodePoint cp = [plain]) ∨
      (IsScalar cp ∧ cp < 0x10000 ∧ escape c cp = 92 :: 117 :: toHex16Bit cp) ∨
      0x10000 ≤ cp ∧ cp < 0x200000 ∧ escape c cp = 92 :: 117 :: (toHex16Bit (firstSurrogate cp) ++
        92 :: 117 :: toHex16Bit (secondSurrogate cp)) := by
  obtain ⟨hunit, hrange⟩ := h
  by_cases hspecial : c ∈ [34, 92, 8, 12, 10, 13, 9]
  · left
    have hself : cp = c.toNat := by
      rcases hunit with ⟨_, hself⟩ | ⟨hlarge, _⟩
      · exact hself
      · simp only [List.mem_cons, List.not_mem_nil, or_false] at hspecial
        rcases hspecial with rfl | rfl | rfl | rfl | rfl | rfl | rfl
        all_goals exact absurd hlarge (by decide)
    subst hself
    simp only [List.mem_cons, List.not_mem_nil, or_false] at hspecial
    rcases hspecial with rfl | rfl | rfl | rfl | rfl | rfl | rfl
    all_goals exact ⟨_, _, rfl, by decide, rfl, rfl⟩
  · right
    simp only [List.mem_cons, List.not_mem_nil, or_false, not_or] at hspecial
    obtain ⟨h34, h92, h8, h12, h10, h13, h9⟩ := hspecial
    unfold escape
    rw [if_neg h34, if_neg h92, if_neg h8, if_neg h12, if_neg h10, if_neg h13, if_neg h9]
    by_cases hplain : cp < 0x80 ∧ 0x20 ≤ cp
    · left
      have hself : UInt8.ofNat cp = c := by
        rcases hunit with ⟨_, rfl⟩ | ⟨_, hlarge⟩
        · exact UInt8.ofNat_toNat
        · omega
      rw [if_pos hplain, rereadCodePoint, if_pos (by omega), encode, if_pos hplain.1, hself]
      exact ⟨c, rfl, h34, h92, rfl⟩
    · right
      rw [if_neg hplain]
      by_cases hbasic : cp < 0x10000
      · rw [if_pos hbasic]
        exact Or.inl ⟨hrange.resolve_right (by omega), hbasic, rfl⟩
      · unfold IsScalar at hrange
        rw [if_neg hbasic]
        exact Or.inr ⟨by omega, by omega, by simp only [List.append_assoc]; rfl⟩

theorem readString_plain {c : UInt8} (h34 : c ≠ 34) (h92 : c ≠ 92) (rest : Str) :
    readString (c :: rest) = readString rest := by
  rw [readString]
  · exact fun _ _ heq _ => h92 heq
  · exact h34

theorem hexDigit_ne (n : ℕ) : hexDigit n ≠ 34 ∧ hexDigit n ≠ 92 := by
  have hall : ∀ k < 16, hexDigit k ≠ 34 ∧ hexDigit k ≠ 92 := by decide
  have hmod : hexDigit n = hexDigit (n % 16) := by
    rw [hexDigit, hexDigit, Nat.mod_mod]
  rw [hmod]
  exact hall _ (Nat.mod_lt n (by decide))

theorem readString_toHex16Bit (x : ℕ) (rest : Str) :
    readString (toHex16Bit x ++ rest) = readString rest := by
  have hdigit : ∀ (n : ℕ) (rest : Str), readString (hexDigit n :: rest) = readString rest :=
    fun n => readString_plain (hexDigit_ne n).1 (hexDigit_ne n).2
  rw [toHex16Bit]
  simp only [List.cons_append, List.nil_append, hdigit]

/-- The scan for the closing quote passes over a unit. -/
theorem readString_escape {c : UInt8} {cp : ℕ} (h : IsUnit c cp) (rest : Str) :
    readString (escape c cp ++ rest) = readString rest := by
  rcases escape_shape h with ⟨letter, plain, hescape, _⟩ | ⟨plain, hescape, h34, h92, _⟩ |
    ⟨_, _, hescape⟩ | ⟨_, _, hescape⟩
  · rw [hescape]
    rfl
  · rw [hescape]
    exact readString_plain h34 h92 rest
  · rw [hescape]
    simp only [List.cons_append, readString, readString_toHex16Bit]
  · rw [hescape]
    simp only [List.cons_append, List.append_assoc, readString, readString_toHex16Bit]

theorem decodeStringFrom_plain {c : UInt8} (h34 : c ≠ 34) (h92 : c ≠ 92) (rest : Str) :
    decodeStringFrom 0 (c :: rest) = (decodeStringFrom 0 rest).map (c :: ·) := by
  conv_lhs => unfold decodeStringFrom
  rw [if_neg h34, if_neg h92]

theorem decodeStringFrom_simple {letter plain : UInt8} (hletter : letter ≠ 117)
    (hplain : simpleEscape letter = some plain) (rest : Str) :
    decodeStringFrom 0 (92 :: letter :: rest) = (decodeStringFrom 0 rest).map (plain :: ·) := by
  have hused := decodeStringFrom_used [letter] rest
  rw [decodeStringFrom, if_neg (by decide), if_pos rfl]
  dsimp only
  rw [if_neg hletter, hplain, ← hused, Option.map_eq_bind]
  rfl

/-- The escape of a code point that opens no pair. -/
theorem decodeStringFrom_hex {cp : ℕ} (hcp : cp < 0xD800 ∨ 0xDBFF < cp ∧ cp < 0x10000)
    (rest : Str) : decodeStringFrom 0 (92 :: 117 :: (toHex16Bit cp ++ rest)) =
      (decodeStringFrom 0 rest).map (encode cp ++ ·) := by
  have hused := decodeStringFrom_used (117 :: toHex16Bit cp) rest
  have hpoint : decodeUnicodeCodePoint (toHex16Bit cp ++ rest) = some (cp, 4) := by
    rw [decodeUnicodeCodePoint, decodeUnicodeEscapeSequence_toHex16Bit (by omega)]
    exact if_neg (by omega)
  rw [decodeStringFrom, if_neg (by decide), if_pos rfl]
  dsimp only
  rw [if_pos rfl, hpoint, ← hused, ← codePointToUTF8_eq (by omega), Option.map_eq_bind]
  rfl

/-- Two escapes that make a pair. -/
theorem decodeUnicodeCodePoint_pair {digits second : Str} {high low : ℕ}
    (hfirst : decodeUnicodeEscapeSequence digits = some high)
    (hhigh : 0xD800 ≤ high ∧ high ≤ 0xDBFF) (hdrop : digits.drop 4 = 92 :: 117 :: second)
    (hsecond : decodeUnicodeEscapeSequence second = some low) :
    decodeUnicodeCodePoint digits =
      some (0x10000 + ((high &&& 0x3FF) <<< 10) + (low &&& 0x3FF), 10) := by
  rw [decodeUnicodeCodePoint, hfirst]
  simp only [Option.bind_eq_bind, Option.bind_some]
  rw [if_pos hhigh, hdrop]
  change (decodeUnicodeEscapeSequence second).bind _ = _
  rw [hsecond]
  rfl

/-- The two escapes of a code point that needs a pair. -/
theorem decodeStringFrom_pair {cp : ℕ} (hcp : 0x10000 ≤ cp ∧ cp < 0x110000) (rest : Str) :
    decodeStringFrom 0 (92 :: 117 :: (toHex16Bit (firstSurrogate cp) ++
        92 :: 117 :: (toHex16Bit (secondSurrogate cp) ++ rest))) =
      (decodeStringFrom 0 rest).map (encode cp ++ ·) := by
  have hfirst : firstSurrogate cp = (cp - 0x10000) / 1024 + 0xD800 := by
    rw [firstSurrogate, Nat.shiftRight_eq_div_pow]
  have hlow : ∀ n, n &&& 0x3FF = n % 1024 := fun n => and_eq_mod n 10
  have hsecond : secondSurrogate cp = (cp - 0x10000) % 1024 + 0xDC00 := by
    rw [secondSurrogate, hlow]
  have hjoin : 0x10000 + ((firstSurrogate cp &&& 0x3FF) <<< 10) +
      (secondSurrogate cp &&& 0x3FF) = cp := by
    rw [hlow, hlow, Nat.shiftLeft_eq, hfirst, hsecond]
    omega
  have hpoint : decodeUnicodeCodePoint (toHex16Bit (firstSurrogate cp) ++
      92 :: 117 :: (toHex16Bit (secondSurrogate cp) ++ rest)) = some (cp, 10) := by
    have hfirst := decodeUnicodeEscapeSequence_toHex16Bit (x := firstSurrogate cp) (by omega)
      (92 :: 117 :: (toHex16Bit (secondSurrogate cp) ++ rest))
    have hsecond := decodeUnicodeEscapeSequence_toHex16Bit (x := secondSurrogate cp) (by omega)
      rest
    rw [decodeUnicodeCodePoint_pair hfirst (by omega) rfl hsecond, hjoin]
  have hused := decodeStringFrom_used (117 :: (toHex16Bit (firstSurrogate cp) ++
    92 :: 117 :: toHex16Bit (secondSurrogate cp))) rest
  have hpassed : (117 :: (toHex16Bit (firstSurrogate cp) ++
      92 :: 117 :: toHex16Bit (secondSurrogate cp))).length = 10 + 1 := rfl
  rw [hpassed] at hused
  simp only [List.cons_append, List.append_assoc] at hused
  rw [decodeStringFrom, if_neg (by decide), if_pos rfl]
  dsimp only
  rw [if_pos rfl, hpoint, ← codePointToUTF8_eq hcp.2, Option.map_eq_bind]
  simp only [Option.bind_eq_bind, Option.bind_some, hused]
  rfl

/-- A unit is read back by its code point. -/
theorem decodeStringFrom_escape {c : UInt8} {cp : ℕ} (h : IsUnit c cp) (rest : Str) :
    decodeStringFrom 0 (escape c cp ++ rest) =
      (decodeStringFrom 0 rest).map (rereadCodePoint cp ++ ·) := by
  rcases escape_shape h with ⟨letter, plain, hescape, hletter, hplain, hreread⟩ |
    ⟨plain, hescape, h34, h92, hreread⟩ | ⟨hscalar, hbasic, hescape⟩ | ⟨hlow, hhigh, hescape⟩
  · rw [hescape, hreread]
    exact decodeStringFrom_simple hletter hplain rest
  · rw [hescape, hreread]
    exact decodeStringFrom_plain h34 h92 rest
  · unfold IsScalar at hscalar
    rw [hescape, rereadCodePoint, if_pos (by omega)]
    exact decodeStringFrom_hex (by omega) rest
  · rw [hescape]
    simp only [List.cons_append, List.append_assoc]
    by_cases hpair : cp < 0x110000
    · rw [decodeStringFrom_pair ⟨hlow, hpair⟩, rereadCodePoint, if_pos hpair]
    · have hfirst : firstSurrogate cp = (cp - 0x10000) / 1024 + 0xD800 := by
        rw [firstSurrogate, Nat.shiftRight_eq_div_pow]
      have hsecond : secondSurrogate cp = (cp - 0x10000) % 1024 + 0xDC00 := by
        rw [secondSurrogate]
        exact congrArg (· + 0xDC00) (and_eq_mod _ 10)
      rw [decodeStringFrom_hex (by omega), decodeStringFrom_hex (by omega), rereadCodePoint,
        if_neg hpair, Option.map_map]
      simp only [Function.comp_def, List.append_assoc]

theorem readString_units {units : List (UInt8 × ℕ)} (h : ∀ unit ∈ units, IsUnit unit.1 unit.2)
    (rest : Str) : readString (units.flatMap (fun unit => escape unit.1 unit.2) ++ rest) =
      readString rest := by
  induction units with
  | nil => rfl
  | cons unit units ih =>
    rw [List.flatMap_cons, List.append_assoc, readString_escape (h unit List.mem_cons_self)]
    exact ih fun unit' hunit' => h unit' (List.mem_cons_of_mem _ hunit')

theorem decodeStringFrom_units {units : List (UInt8 × ℕ)}
    (h : ∀ unit ∈ units, IsUnit unit.1 unit.2) :
    decodeStringFrom 0 (units.flatMap (fun unit => escape unit.1 unit.2)) =
      some ((units.map Prod.snd).flatMap rereadCodePoint) := by
  induction units with
  | nil => rfl
  | cons unit units ih =>
    rw [List.flatMap_cons, decodeStringFrom_escape (h unit List.mem_cons_self),
      ih fun unit' hunit' => h unit' (List.mem_cons_of_mem _ hunit'), List.map_cons,
      List.flatMap_cons]
    rfl

/-- What a scan leaves behind a token. -/
theorem readToken_of_scan {c : UInt8} {body left : Str} {type : TokenType}
    (hspace : isSpace c = false) (hscan : scanToken c (body ++ left) = (type, left)) :
    readToken (c :: (body ++ left)) = (⟨type, c :: body⟩, left) := by
  have hskip : skipSpaces (c :: (body ++ left)) = c :: (body ++ left) := by
    rw [skipSpaces, List.dropWhile_cons, hspace, if_neg Bool.false_ne_true]
  have hlength : (body ++ left).length + 1 - left.length = (c :: body).length := by
    rw [List.length_append, List.length_cons]
    omega
  rw [readToken, hskip]
  dsimp only
  rw [hscan]
  dsimp only
  rw [hlength, ← List.cons_append, List.take_left]

/-- A string in quotes is one token of its own. -/
theorem readToken_quoted (value rest : Str) :
    readToken (valueToQuotedStringN value ++ rest) =
      (⟨.string, valueToQuotedStringN value⟩, rest) := by
  have hstring : readString ((unitsFrom 0 value).flatMap
      (fun unit => escape unit.1 unit.2) ++ [34] ++ rest) = (true, rest) := by
    rw [List.append_assoc, readString_units fun unit hunit => isUnit_of_mem hunit]
    rfl
  have hscan : scanToken 34 ((unitsFrom 0 value).flatMap
      (fun unit => escape unit.1 unit.2) ++ [34] ++ rest) = (.string, rest) := by
    change (TokenType.string.unlessBad (readString _).1, (readString _).2) = _
    rw [hstring]
    rfl
  rw [valueToQuotedStringN_eq]
  exact readToken_of_scan rfl hscan

/-- A string is read back by its code points. -/
theorem decodeString_quoted (value : Str) :
    decodeString (valueToQuotedStringN value) = some (rereadString value) := by
  rw [valueToQuotedStringN_eq, decodeString, List.singleton_append, List.cons_append,
    List.drop_one, List.tail_cons, List.dropLast_concat,
    decodeStringFrom_units fun unit hunit => isUnit_of_mem hunit]
  rfl

/-- A character in front of a string comes back in front of it. -/
theorem rereadString_encode_append {cp : ℕ} (h : IsScalar cp) (rest : Str) :
    rereadString (encode cp ++ rest) = encode cp ++ rereadString rest := by
  obtain ⟨c, tail, hencode, hpoint⟩ := utf8ToCodepoint_encode h rest
  have hself : rereadCodePoint cp = encode cp := if_pos (by unfold IsScalar at h; omega)
  rw [rereadString, codePoints, hencode, List.cons_append, unitsFrom, hpoint]
  dsimp only
  rw [unitsFrom_used, List.map_cons, List.flatMap_cons, hself, hencode]
  rfl

/-- Valid UTF-8 comes back as it was. -/
theorem rereadString_of_validUtf8 {value : Str} (h : ProtobufWire.validUtf8 value = true) :
    rereadString value = value := by
  refine Utf8.induction (P := fun value => rereadString value = value) rfl ?_ h
  intro cp left hscalar _ ih
  rw [rereadString_encode_append hscalar, ih]

/-- No character starts like the bytes of the first of two surrogates. -/
theorem utf8ToCodepoint_surrogate {c : UInt8} {rest left : Str} {cp : ℕ}
    (hcp : 0xDC00 ≤ cp ∧ cp < 0xE000) (h : c :: rest = encode cp ++ left) :
    (utf8ToCodepoint c rest).1 < 0x110000 := by
  have hencode : encode cp = [UInt8.ofNat (0xE0 + cp / 4096), UInt8.ofNat (0x80 + cp / 64 % 64),
      UInt8.ofNat (0x80 + cp % 64)] := by
    rw [encode, if_neg (by omega), if_neg (by omega), if_pos (by omega)]
  have hlead : (UInt8.ofNat (0xE0 + cp / 4096)).toNat = 0xE0 + cp / 4096 :=
    ofNat_toNat_lt (by omega)
  rw [hencode] at h
  obtain ⟨rfl, rfl⟩ := List.cons.inj h
  have hthree := utf8ToCodepoint_three (c := UInt8.ofNat (0xE0 + cp / 4096)) (by omega)
    (UInt8.ofNat (0x80 + cp / 64 % 64)) (UInt8.ofNat (0x80 + cp % 64)) left
  rw [List.append_eq, List.cons_append, List.cons_append, List.nil_append, hthree, hlead]
  dsimp only
  split
  · decide
  · split
    · decide
    · omega

/-- Nothing else comes back as it was. -/
theorem validUtf8_of_rereadString {value : Str} (h : rereadString value = value) :
    ProtobufWire.validUtf8 value = true := by
  induction hlength : value.length using Nat.strong_induction_on generalizing value with
  | _ n ih =>
    cases value with
    | nil => rfl
    | cons c rest =>
      have hfirst : rereadString (c :: rest) = rereadCodePoint (utf8ToCodepoint c rest).1 ++
          ((unitsFrom (utf8ToCodepoint c rest).2 rest).map Prod.snd).flatMap
            rereadCodePoint := rfl
      obtain ⟨left, hleft⟩ : ∃ left, c :: rest =
          rereadCodePoint (utf8ToCodepoint c rest).1 ++ left := ⟨_, h.symm.trans hfirst⟩
      rcases utf8ToCodepoint_range c rest with hscalar | ⟨hlow, hhigh⟩
      · have hself : rereadCodePoint (utf8ToCodepoint c rest).1 =
            encode (utf8ToCodepoint c rest).1 := if_pos (by unfold IsScalar at hscalar; omega)
        generalize (utf8ToCodepoint c rest).1 = cp at hscalar hself hleft
        rw [hself] at hleft
        have hpos := List.length_pos_iff.mpr (Utf8.encode_ne_nil cp)
        rw [hleft, rereadString_encode_append hscalar, List.append_cancel_left_eq] at h
        rw [hleft, List.length_append] at hlength
        rw [hleft, Utf8.validUtf8_encode_append hscalar]
        exact ih left.length (by omega) h rfl
      · have hsecond : firstSurrogate (utf8ToCodepoint c rest).1 =
            ((utf8ToCodepoint c rest).1 - 0x10000) / 1024 + 0xD800 := by
          rw [firstSurrogate, Nat.shiftRight_eq_div_pow]
        rw [rereadCodePoint, if_neg (by omega), List.append_assoc] at hleft
        have hsmall := utf8ToCodepoint_surrogate (by rw [hsecond]; omega) hleft
        omega

/-- A string in quotes is one token whatever follows it, and it is read back as
it was exactly when it is valid UTF-8. -/
theorem quoted_readBack_iff (value rest : Str) :
    readToken (valueToQuotedStringN value ++ rest) =
        (⟨.string, valueToQuotedStringN value⟩, rest) ∧
      (decodeString (valueToQuotedStringN value) = some value ↔
        ProtobufWire.validUtf8 value = true) := by
  refine ⟨readToken_quoted value rest, ?_⟩
  rw [decodeString_quoted, Option.some.injEq]
  exact ⟨validUtf8_of_rereadString, rereadString_of_validUtf8⟩

end NodeManager.Json
