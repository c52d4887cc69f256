import Mathlib.Tactic.Ring
import NodeManager.JsonValue
import NodeManager.Library.CString

/-!
# The writer of JSON documents

`FastWriter::write` with `valueToQuotedStringN`. A string is taken for UTF-8,
of which only the lead bytes are looked at: a byte that opens a longer
character swallows the ones that should continue it, whatever they are. What
is written has no NUL, and a percent sign only where a character is one.
-/

namespace NodeManager.Json

open CString

/-- `REPLACEMENT_CHARACTER`. -/
def replacementCharacter : ℕ := 0xFFFD

/-- `utf8ToCodepoint`: the code point that starts with a byte, and how many of
the following bytes belong to it. -/
def utf8ToCodepoint (firstByte : UInt8) (s : Str) : ℕ × ℕ :=
  let first := firstByte.toNat
  if first < 0x80 then (first, 0)
  else if first < 0xE0 then
    match s with
    | [] => (replacementCharacter, 0)
    | s₁ :: _ =>
      let calculated := (first &&& 0x1F) <<< 6 ||| (s₁.toNat &&& 0x3F)
      -- oversized encoded characters are invalid
      (if calculated < 0x80 then replacementCharacter else calculated, 1)
  else if first < 0xF0 then
    match s with
    | s₁ :: s₂ :: _ =>
      let calculated := (first &&& 0x0F) <<< 12 ||| (s₁.toNat &&& 0x3F) <<< 6 |||
        (s₂.toNat &&& 0x3F)
      -- surrogates aren't valid codepoints itself
      (if 0xD800 ≤ calculated ∧ calculated ≤ 0xDFFF then replacementCharacter
        else if calculated < 0x800 then replacementCharacter else calculated, 2)
    | _ => (replacementCharacter, 0)
  else if first < 0xF8 then
    match s with
    | s₁ :: s₂ :: s₃ :: _ =>
      let calculated := (first &&& 0x07) <<< 18 ||| (s₁.toNat &&& 0x3F) <<< 12 |||
        (s₂.toNat &&& 0x3F) <<< 6 ||| (s₃.toNat &&& 0x3F)
      (if calculated < 0x10000 then replacementCharacter else calculated, 3)
    | _ => (replacementCharacter, 0)
  else (replacementCharacter, 0)

/-- The bytes at which the loop of `valueToQuotedStringN` stops, with their code
points, when the given number of bytes has been used up before. -/
def unitsFrom : ℕ → Str → List (UInt8 × ℕ)
  | _, [] => []
  | used + 1, _ :: rest => unitsFrom used rest
  | 0, c :: rest =>
    let (cp, used) := utf8ToCodepoint c rest
    (c, cp) :: unitsFrom used rest

/-- The code points of a string as the writer takes it. -/
def codePoints (value : Str) : List ℕ := (unitsFrom 0 value).map Prod.snd

/-- A digit of `hex2`. -/
def hexDigit (n : ℕ) : UInt8 := if n % 16 < 10 then UInt8.ofNat (48 + n % 16) else
  UInt8.ofNat (87 + n % 16)

/-- `toHex16Bit`. -/
def toHex16Bit (x : ℕ) : Str :=
  [hexDigit (x >>> 12), hexDigit (x >>> 8), hexDigit (x >>> 4), hexDigit x]

/-- What is written for a character. -/
def escape (c : UInt8) (cp : ℕ) : Str :=
  if c = 34 then chars "\\\""
  else if c = 92 then chars "\\\\"
  else if c = 8 then chars "\\b"
  else if c = 12 then chars "\\f"
  else if c = 10 then chars "\\n"
  else if c = 13 then chars "\\r"
  else if c = 9 then chars "\\t"
  else if cp < 0x80 ∧ 0x20 ≤ cp then [UInt8.ofNat cp]
  else if cp < 0x10000 then chars "\\u" ++ toHex16Bit cp
  else
    -- convert to surrogate pair first
    let cp := cp - 0x10000
    chars "\\u" ++ toHex16Bit ((cp >>> 10) + 0xD800) ++ chars "\\u" ++
      toHex16Bit ((cp &&& 0x3FF) + 0xDC00)

/-- The value of a plain `char`, which has a sign. -/
def charValue (c : UInt8) : ℤ := if c.toNat < 128 then c.toNat else c.toNat - 256

/-- The test of `isAnyCharRequiredQuoting` on a character. -/
def requiresQuoting (c : UInt8) : Bool :=
  c = 92 || c = 34 || charValue c < 32 || c.toNat < 0x80

/-- `valueToQuotedStringN`. -/
def valueToQuotedStringN (value : Str) : Str :=
  if value.any requiresQuoting then
    [34] ++ (unitsFrom 0 value).flatMap (fun unit => escape unit.1 unit.2) ++ [34]
  else [34] ++ upToNul value ++ [34]

section Writer

variable (realToString : Double → Str)

mutual

/-- `FastWriter::writeValue`. -/
def writeValue : Value → Str
  | .null => chars "null"
  | .int value => intToString value
  | .uint value => uintToString value
  | .real value => realToString value
  | .string value => valueToQuotedStringN value
  | .bool value => boolToString value
  | .array elements => [91] ++ writeElements true elements ++ [93]
  | .object members => [123] ++ writeMembers true members ++ [125]

/-- The loop over the elements of an array. -/
def writeElements : Bool → List Value → Str
  | _, [] => []
  | first, element :: rest =>
    (if first then [] else [44]) ++ writeValue element ++ writeElements false rest

/-- The loop over the members of an object. -/
def writeMembers : Bool → List (Str × Value) → Str
  | _, [] => []
  | first, (name, value) :: rest =>
    (if first then [] else [44]) ++ valueToQuotedStringN name ++ [58] ++ writeValue value ++
      writeMembers false rest

end

/-- `FastWriter::write`. -/
def write (root : Value) : Str := writeValue realToString root ++ [10]

end Writer

/-- With a signed `char` every character asks for quoting. -/
theorem requiresQuoting_eq (c : UInt8) : requiresQuoting c = true := by
  have hsign : charValue c < 32 ∨ c.toNat < 0x80 := by
    unfold charValue
    split
    · right
      omega
    · left
      have hc := c.toNat_lt
      omega
  rcases hsign with hsign | hsign
  · simp only [requiresQuoting, hsign, decide_true, Bool.or_true, Bool.true_or]
  · simp only [requiresQuoting, hsign, decide_true, Bool.or_true]

theorem valueToQuotedStringN_eq (value : Str) : valueToQuotedStringN value =
    [34] ++ (unitsFrom 0 value).flatMap (fun unit => escape unit.1 unit.2) ++ [34] := by
  cases value with
  | nil => rfl
  | cons c rest =>
    have hany : (c :: rest).any requiresQuoting = true := by
      rw [List.any_cons, requiresQuoting_eq, Bool.true_or]
    rw [valueToQuotedStringN, if_pos hany]

/-- A byte below 0x80 is its own code point, and no other byte starts a code
point below 0x80. -/
theorem utf8ToCodepoint_cases (c : UInt8) (rest : Str) :
    c.toNat < 0x80 ∧ (utf8ToCodepoint c rest).1 = c.toNat ∨
      0x80 ≤ c.toNat ∧ 0x80 ≤ (utf8ToCodepoint c rest).1 := by
  by_cases hone : c.toNat < 0x80
  · left
    refine ⟨hone, ?_⟩
    unfold utf8ToCodepoint
    rw [if_pos hone]
  · right
    refine ⟨by omega, ?_⟩
    have hreplacement : 0x80 ≤ replacementCharacter := by decide
    unfold utf8ToCodepoint
    rw [if_neg hone]
    by_cases htwo : c.toNat < 0xE0
    · rw [if_pos htwo]
      cases rest with
      | nil => exact hreplacement
      | cons s₁ rest =>
        dsimp only
        split
        · exact hreplacement
        · omega
    · rw [if_neg htwo]
      by_cases hthree : c.toNat < 0xF0
      · rw [if_pos hthree]
        split
        · dsimp only
          split
          · exact hreplacement
          · split
            · exact hreplacement
            · omega
        · exact hreplacement
      · rw [if_neg hthree]
        split
        · split
          · dsimp only
            split
            · exact hreplacement
            · omega
          · exact hreplacement
        · exact hreplacement

theorem mem_unitsFrom {value : Str} {used : ℕ} {unit : UInt8 × ℕ}
    (h : unit ∈ unitsFrom used value) :
    unit.1.toNat < 0x80 ∧ unit.2 = unit.1.toNat ∨ 0x80 ≤ unit.1.toNat ∧ 0x80 ≤ unit.2 := by
  induction value generalizing used with
  | nil => cases h
  | cons c rest ih =>
    cases used with
    | succ used => exact ih h
    | zero =>
      rw [unitsFrom] at h
      rcases List.mem_cons.mp h with rfl | hrest
      · exact utf8ToCodepoint_cases c rest
      · exact ih hrest

/-- Hexadecimal digits lie behind the percent sign. -/
theorem hexDigit_toNat (n : ℕ) : 48 ≤ (hexDigit n).toNat := by
  unfold hexDigit
  split
  · rw [UInt8.toNat_ofNat']
    omega
  · rw [UInt8.toNat_ofNat']
    omega

theorem ne_of_mem_toHex16Bit {x : ℕ} {b : UInt8} (h : b ∈ toHex16Bit x) : b ≠ 0 ∧ b ≠ 37 := by
  have hlarge : 48 ≤ b.toNat := by
    simp only [toHex16Bit, List.mem_cons, List.not_mem_nil, or_false] at h
    rcases h with rfl | rfl | rfl | rfl <;> exact hexDigit_toNat _
  constructor
  · rintro rfl
    exact absurd hlarge (by decide)
  · rintro rfl
    exact absurd hlarge (by decide)

theorem ne_of_mem_literal {literal : Str} (hall : literal.all (fun b => b != 0 && b != 37) = true)
    {b : UInt8} (h : b ∈ literal) : b ≠ 0 ∧ b ≠ 37 := by
  have hclean := List.all_eq_true.mp hall b h
  rwa [Bool.and_eq_true, bne_iff_ne, bne_iff_ne] at hclean

/-- A character is written as it is, or by bytes that are neither a NUL nor a
percent sign. -/
theorem escape_cases (c : UInt8) (cp : ℕ) :
    0x20 ≤ cp ∧ cp < 0x80 ∧ escape c cp = [UInt8.ofNat cp] ∨
      ∀ b ∈ escape c cp, b ≠ 0 ∧ b ≠ 37 := by
  have hprefix : ∀ {b : UInt8}, b ∈ chars "\\u" → b ≠ 0 ∧ b ≠ 37 := ne_of_mem_literal rfl
  unfold escape
  by_cases hspecial : c ∈ [34, 92, 8, 12, 10, 13, 9]
  · right
    simp only [List.mem_cons, List.not_mem_nil, or_false] at hspecial
    rcases hspecial with rfl | rfl | rfl | rfl | rfl | rfl | rfl
    all_goals exact fun b hb => ne_of_mem_literal rfl hb
  · simp only [List.mem_cons, List.not_mem_nil, or_false, not_or] at hspecial
    obtain ⟨h34, h92, h8, h12, h10, h13, h9⟩ := hspecial
    rw [if_neg h34, if_neg h92, if_neg h8, if_neg h12, if_neg h10, if_neg h13, if_neg h9]
    by_cases hplain : cp < 0x80 ∧ 0x20 ≤ cp
    · rw [if_pos hplain]
      exact Or.inl ⟨hplain.2, hplain.1, rfl⟩
    · right
      rw [if_neg hplain]
      intro b hb
      by_cases hbasic : cp < 0x10000
      · rw [if_pos hbasic] at hb
        rcases List.mem_append.mp hb with hb | hb
        · exact hprefix hb
        · exact ne_of_mem_toHex16Bit hb
      · rw [if_neg hbasic] at hb
        simp only [List.mem_append] at hb
        rcases hb with ((hb | hb) | hb) | hb
        · exact hprefix hb
        · exact ne_of_mem_toHex16Bit hb
        · exact hprefix hb
        · exact ne_of_mem_toHex16Bit hb

/-- A string is written without a NUL. -/
theorem nul_not_mem_quoted (value : Str) : 0 ∉ valueToQuotedStringN value := by
  rw [valueToQuotedStringN_eq]
  simp only [List.mem_append, List.mem_singleton, List.mem_flatMap]
  rintro ((h | ⟨⟨c, cp⟩, hunit, h⟩) | h)
  · cases h
  · rcases escape_cases c cp with ⟨hlow, hhigh, hescape⟩ | hother
    · dsimp only at h
      rw [hescape, List.mem_singleton] at h
      have hzero := congrArg UInt8.toNat h
      rw [UInt8.toNat_ofNat'] at hzero
      have hnul : (0 : UInt8).toNat = 0 := rfl
      omega
    · exact (hother 0 h).1 rfl
  · cases h

/-- A string is written with a percent sign exactly when one of its code points
is one. -/
theorem percent_mem_quoted_iff (value : Str) :
    37 ∈ valueToQuotedStringN value ↔ 37 ∈ codePoints value := by
  have hpercent : (37 : UInt8).toNat = 37 := rfl
  rw [valueToQuotedStringN_eq, codePoints]
  simp only [List.mem_append, List.mem_singleton, List.mem_flatMap, List.mem_map]
  constructor
  · rintro ((h | ⟨⟨c, cp⟩, hunit, h⟩) | h)
    · cases h
    · rcases escape_cases c cp with ⟨hlow, hhigh, hescape⟩ | hother
      · dsimp only at h
        rw [hescape, List.mem_singleton] at h
        have hcode := congrArg UInt8.toNat h
        rw [UInt8.toNat_ofNat', hpercent] at hcode
        refine ⟨(c, cp), hunit, ?_⟩
        dsimp only
        omega
      · exact absurd rfl (hother 37 h).2
    · cases h
  · rintro ⟨⟨c, cp⟩, hunit, hcp⟩
    dsimp only at hcp
    subst hcp
    have hself : c = 37 := by
      rcases mem_unitsFrom hunit with ⟨_, hself⟩ | ⟨_, hlarge⟩
      · exact UInt8.toNat_inj.mp (hself.symm.trans hpercent.symm)
      · have hless : 0x80 ≤ 37 := hlarge
        omega
    subst hself
    exact Or.inl (Or.inr ⟨(37, 37), hunit, List.mem_singleton.mpr rfl⟩)

section Documents

variable (realToString : Double → Str)

/-- What is written for the members of an object, but for the separators. -/
theorem mem_writeMembers {c : UInt8} (hc : c ≠ 44 ∧ c ≠ 58) (first : Bool)
    (members : List (Str × Value)) : c ∈ writeMembers realToString first members ↔
      ∃ member ∈ members, c ∈ valueToQuotedStringN member.1 ∨
        c ∈ writeValue realToString member.2 := by
  induction members generalizing first with
  | nil => simp only [writeMembers, List.not_mem_nil, false_and, exists_false]
  | cons member rest ih =>
    obtain ⟨name, value⟩ := member
    have hseparator : c ∉ if first then ([] : Str) else [44] := by
      cases first with
      | true => exact List.not_mem_nil
      | false => exact fun h => hc.1 (List.mem_singleton.mp h)
    rw [writeMembers]
    simp only [List.mem_append, hseparator, false_or, List.mem_cons, hc.2, List.not_mem_nil, ih,
      exists_eq_or_imp, or_assoc]

end Documents

end NodeManager.Json
