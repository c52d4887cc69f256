import NodeManager.JsonShape
import NodeManager.JsonStrings

/-!
# Whole numbers written and read back

The reader takes the digits of a number one by one and turns to a `double`
just before the value would leave its type. So a whole number is read exactly
as long as its type can hold it, and what the writer prints of one is read back
as the same number, though not always of the same type.
-/

namespace NodeManager.Json

/-- The number that a row of digits continues. -/
def digitsValue (value : ℕ) (digits : Str) : ℕ :=
  digits.foldl (fun value c => value * 10 + (c.toNat - 48)) value

/-- A row of digits. -/
def Digits (text : Str) : Prop := ∀ c ∈ text, isDigit c = true

/-- The value that a whole number is read as. -/
def rereadNumber (value : ℤ) : Value :=
  if value ≤ 2 ^ 31 - 1 then .int value else .uint value.toNat

theorem digitsValue_cons (value : ℕ) (c : UInt8) (digits : Str) :
    digitsValue value (c :: digits) = digitsValue (value * 10 + (c.toNat - 48)) digits := by
  rw [digitsValue, List.foldl_cons, digitsValue]

theorem digitsValue_append (value : ℕ) (first second : Str) :
    digitsValue value (first ++ second) = digitsValue (digitsValue value first) second :=
  List.foldl_append

/-- Every digit makes ten times of what is there. -/
theorem le_digitsValue (value : ℕ) (digits : Str) :
    value * 10 ^ digits.length ≤ digitsValue value digits := by
  induction digits generalizing value with
  | nil => exact (Nat.mul_one value).le
  | cons c digits ih =>
    have hstep := ih (value * 10 + (c.toNat - 48))
    have hgrow : value * 10 * 10 ^ digits.length ≤
        (value * 10 + (c.toNat - 48)) * 10 ^ digits.length :=
      Nat.mul_le_mul_right _ (Nat.le_add_right _ _)
    rw [digitsValue_cons, List.length_cons, Nat.pow_succ']
    calc value * (10 * 10 ^ digits.length) = value * 10 * 10 ^ digits.length := by
          rw [Nat.mul_assoc]
      _ ≤ digitsValue (value * 10 + (c.toNat - 48)) digits := hgrow.trans hstep

/-- The loop over the digits gives their number unless it exceeds the bound. -/
theorem decodeDigits_eq {maxIntegerValue value : ℕ} {text : Str} (hdigits : Digits text)
    (hmax : 10 ≤ maxIntegerValue) (hvalue : value ≤ maxIntegerValue) :
    decodeDigits maxIntegerValue value text =
      if digitsValue value text ≤ maxIntegerValue then some (digitsValue value text)
      else none := by
  induction text generalizing value with
  | nil => exact (if_pos hvalue).symm
  | cons c rest ih =>
    have hc := hdigits c List.mem_cons_self
    have hrest : Digits rest := fun c' hc' => hdigits c' (List.mem_cons_of_mem _ hc')
    have hrange := (isDigit_iff c).mp hc
    have hgrow := le_digitsValue (value * 10 + (c.toNat - 48)) rest
    rw [decodeDigits, if_neg (not_not.mpr hc), digitsValue_cons]
    by_cases hstop : value ≥ maxIntegerValue / 10 ∧ (value > maxIntegerValue / 10 ∨ rest ≠ [] ∨
        c.toNat - 48 > maxIntegerValue % 10)
    · have hexceeds : maxIntegerValue < digitsValue (value * 10 + (c.toNat - 48)) rest := by
        by_cases hlast : rest = []
        · subst hlast
          rw [List.length_nil, pow_zero] at hgrow
          obtain ⟨hge, hover⟩ := hstop
          simp only [ne_eq, not_true_eq_false, false_or] at hover
          omega
        · have hten : 10 ≤ 10 ^ rest.length :=
            Nat.le_self_pow (fun h => hlast (List.length_eq_zero_iff.mp h)) 10
          have hmore := Nat.mul_le_mul_left (value * 10 + (c.toNat - 48)) hten
          omega
      rw [if_pos hstop, if_neg (Nat.not_le.mpr hexceeds)]
    · rw [if_neg hstop]
      refine ih hrest ?_
      simp only [not_and_or, not_or, ge_iff_le, gt_iff_lt, not_le, not_lt] at hstop
      omega

variable (readDouble : Str → Option Double)

/-- A row of digits is read as its number when 64 bits can hold it. -/
theorem decodeNumber_digits {text : Str} (hdigits : Digits text) :
    decodeNumber readDouble text =
      if digitsValue 0 text < 2 ^ 64 then some (rereadNumber (digitsValue 0 text))
      else (readDouble text).map .real := by
  have hsign : text.head? ≠ some 45 := by
    intro hhead
    obtain ⟨rest, rfl⟩ := List.head?_eq_some_iff.mp hhead
    exact absurd (hdigits 45 List.mem_cons_self) (by decide)
  rw [decodeNumber]
  simp only [if_neg hsign]
  rw [decodeDigits_eq hdigits (by decide) (Nat.zero_le _)]
  by_cases hfits : digitsValue 0 text < 2 ^ 64
  · rw [if_pos (by omega), if_pos hfits, rereadNumber]
    by_cases hsmall : digitsValue 0 text ≤ 2 ^ 31 - 1
    · have hint : (digitsValue 0 text : ℤ) ≤ 2 ^ 31 - 1 := by omega
      rw [if_pos hint]
      exact if_pos hsmall
    · have huint : ¬(digitsValue 0 text : ℤ) ≤ 2 ^ 31 - 1 := by omega
      rw [if_neg huint, Int.toNat_natCast]
      exact if_neg hsmall
  · rw [if_neg (by omega), if_neg hfits]

/-- A negative number likewise. -/
theorem decodeNumber_negative {text : Str} (hdigits : Digits text) :
    decodeNumber readDouble (45 :: text) =
      if digitsValue 0 text ≤ 2 ^ 63 then some (.int (-(digitsValue 0 text)))
      else (readDouble (45 :: text)).map .real := by
  rw [decodeNumber]
  simp only [List.head?_cons, if_true, List.drop_one, List.tail_cons]
  rw [decodeDigits_eq hdigits (by decide) (Nat.zero_le _)]
  by_cases hfits : digitsValue 0 text ≤ 2 ^ 63
  · rw [if_pos hfits, if_pos hfits]
  · rw [if_neg hfits, if_neg hfits]

/-- A row of digits, with a minus sign or without, is read as exactly its number
when 64 bits can hold it, and left to the reader of doubles otherwise. -/
theorem decodeNumber_exact {text : Str} (hdigits : Digits text) :
    decodeNumber readDouble text =
        (if digitsValue 0 text < 2 ^ 64 then some (rereadNumber (digitsValue 0 text))
          else (readDouble text).map .real) ∧
      decodeNumber readDouble (45 :: text) =
        if digitsValue 0 text ≤ 2 ^ 63 then some (.int (-(digitsValue 0 text)))
        else (readDouble (45 :: text)).map .real :=
  ⟨decodeNumber_digits readDouble hdigits, decodeNumber_negative readDouble hdigits⟩

/-- The largest number without a sign has no negative. -/
theorem decodeNumber_largest :
    decodeNumber (fun _ => none) (chars "18446744073709551615") = some (.uint (2 ^ 64 - 1)) ∧
      decodeNumber (fun _ => none) (45 :: chars "18446744073709551615") = none := by
  have hdigits : Digits (chars "18446744073709551615") := List.all_eq_true.mp rfl
  have hvalue : digitsValue 0 (chars "18446744073709551615") = 2 ^ 64 - 1 := by decide
  obtain ⟨hpositive, hnegative⟩ := decodeNumber_exact (fun _ => none) hdigits
  rw [hvalue, if_pos (by decide)] at hpositive
  rw [hvalue, if_neg (by decide)] at hnegative
  exact ⟨hpositive, hnegative⟩

/-- What is printed of a natural number. -/
theorem uintToString_digits (value : ℕ) : Digits (uintToString value) ∧
    uintToString value ≠ [] ∧ digitsValue 0 (uintToString value) = value := by
  have hdigit : ∀ n < 10, isDigit (UInt8.ofNat (Nat.digitChar n).toNat) = true ∧
      (UInt8.ofNat (Nat.digitChar n).toNat).toNat - 48 = n := by decide
  induction value using Nat.strong_induction_on with
  | _ value ih =>
    by_cases hone : value < 10
    · obtain ⟨hisDigit, hback⟩ := hdigit value hone
      rw [uintToString, Nat.toDigits_of_lt_base hone]
      refine ⟨?_, List.cons_ne_nil _ _, ?_⟩
      · intro c hc
        rw [List.mem_singleton.mp hc]
        exact hisDigit
      · rw [List.map_singleton, digitsValue_cons, hback]
        exact Nat.zero_add value
    · obtain ⟨hall, hne, hvalue⟩ := ih (value / 10) (by omega)
      obtain ⟨hisDigit, hback⟩ := hdigit (value % 10) (Nat.mod_lt _ (by decide))
      have hlast : uintToString value = uintToString (value / 10) ++
          [UInt8.ofNat (Nat.digitChar (value % 10)).toNat] := by
        rw [uintToString, Nat.toDigits_of_base_le (by decide) (Nat.not_lt.mp hone),
          List.map_append, List.map_singleton, uintToString]
      rw [hlast]
      refine ⟨?_, List.append_ne_nil_of_left_ne_nil hne _, ?_⟩
      · intro c hc
        rcases List.mem_append.mp hc with hc | hc
        · exact hall c hc
        · rw [List.mem_singleton.mp hc]
          exact hisDigit
      · rw [digitsValue_append, hvalue, digitsValue_cons, hback]
        exact Nat.div_add_mod' value 10

theorem intToString_natCast (value : ℕ) : intToString value = uintToString value := by
  rw [intToString, if_neg (by omega), Int.natAbs_natCast]

/-- A printed number is read as the same number. -/
theorem decodeNumber_intToString {value : ℤ} (hlow : -2 ^ 63 ≤ value) (hhigh : value < 2 ^ 64) :
    decodeNumber readDouble (intToString value) = some (rereadNumber value) := by
  obtain ⟨hdigits, _, hback⟩ := uintToString_digits value.natAbs
  rw [intToString]
  by_cases hnegative : value < 0
  · rw [if_pos hnegative, decodeNumber_negative readDouble hdigits, hback, if_pos (by omega),
      rereadNumber, if_pos (by omega)]
    have hself : -(value.natAbs : ℤ) = value := by omega
    rw [hself]
  · have hself : (value.natAbs : ℤ) = value := by omega
    rw [if_neg hnegative, decodeNumber_digits readDouble hdigits, hback, if_pos (by omega), hself]

/-- What no number continues with. -/
def EndsNumber (rest : Str) : Prop :=
  ∀ c ∈ rest.head?, isDigit c = false ∧ c ≠ 46 ∧ c ≠ 101 ∧ c ≠ 69

theorem dropWhile_digits {text rest : Str} (hdigits : Digits text) (hrest : EndsNumber rest) :
    (text ++ rest).dropWhile isDigit = rest := by
  rw [List.dropWhile_append_of_pos hdigits]
  cases rest with
  | nil => rfl
  | cons c rest =>
    exact List.dropWhile_cons_of_neg (by rw [(hrest c rfl).1]; exact Bool.false_ne_true)

theorem readNumber_digits {text rest : Str} (hdigits : Digits text) (hrest : EndsNumber rest) :
    readNumber (text ++ rest) = rest := by
  rw [readNumber, dropWhile_digits hdigits hrest]
  cases rest with
  | nil => rfl
  | cons c rest =>
    obtain ⟨_, hpoint, hsmall, hlarge⟩ := hrest c rfl
    have hexponent : ¬(c = 101 ∨ c = 69) := not_or.mpr ⟨hsmall, hlarge⟩
    have hintegral : ∀ left, c :: rest ≠ 46 :: left := fun left heq =>
      hpoint (List.cons.inj heq).1
    split
    · next heq =>
      split at heq
      · next h => exact absurd h (hintegral _)
      · cases heq
    · next heq =>
      split at heq
      · next h => exact absurd h (hintegral _)
      · obtain ⟨rfl, rfl⟩ := List.cons.inj heq
        rw [if_neg hexponent]

/-- A printed number is one token of its own. -/
theorem readToken_intToString (value : ℤ) {rest : Str} (hrest : EndsNumber rest) :
    readToken (intToString value ++ rest) = (⟨.number, intToString value⟩, rest) := by
  obtain ⟨hdigits, hne, _⟩ := uintToString_digits value.natAbs
  have hnumber : ∀ c : UInt8, isDigit c = true ∨ c = 45 → ∀ body : Str, Digits body →
      readToken (c :: (body ++ rest)) = (⟨.number, c :: body⟩, rest) := by
    intro c hc body hbody
    have hrange : c.toNat = 45 ∨ 48 ≤ c.toNat ∧ c.toNat ≤ 57 := by
      rcases hc with hdigit | rfl
      · exact Or.inr ((isDigit_iff c).mp hdigit)
      · exact Or.inl rfl
    have hne : ∀ n : UInt8, n.toNat < 45 ∨ n.toNat = 47 ∨ 57 < n.toNat → c ≠ n := by
      rintro n hn rfl
      omega
    refine readToken_of_scan ?_ ?_
    · rw [isSpace]
      simp only [hne 32 (by decide), hne 9 (by decide), hne 13 (by decide), hne 10 (by decide),
        decide_false, Bool.or_self]
    · rw [scanToken, if_neg (hne 123 (by decide)), if_neg (hne 125 (by decide)),
        if_neg (hne 91 (by decide)), if_neg (hne 93 (by decide)), if_neg (hne 34 (by decide)),
        if_neg (hne 47 (by decide)), if_pos hc, readNumber_digits hbody hrest]
  rw [intToString]
  split
  · exact hnumber 45 (Or.inr rfl) _ hdigits
  · obtain ⟨c, body, hbody⟩ := List.exists_cons_of_ne_nil hne
    rw [hbody] at hdigits ⊢
    exact hnumber c (Or.inl (hdigits c List.mem_cons_self)) body fun c' hc' =>
      hdigits c' (List.mem_cons_of_mem _ hc')

end NodeManager.Json
