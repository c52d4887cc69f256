import NodeManager.JsonReader

/-!
# The shape of values

How deep a value is, and what every value has that the reader made: numbers of
the type that the reader gives them, and members in the order of their names.
-/

namespace NodeManager.Json

namespace Value

mutual

/-- How many values lie within one another. -/
def depth : Value → ℕ
  | array elements => depthElements elements + 1
  | object members => depthMembers members + 1
  | _ => 1

/-- The depth of the deepest element. -/
def depthElements : List Value → ℕ
  | [] => 0
  | element :: rest => max (depth element) (depthElements rest)

/-- The depth of the deepest member. -/
def depthMembers : List (Str × Value) → ℕ
  | [] => 0
  | (_, value) :: rest => max (depth value) (depthMembers rest)

end

/-- Whole numbers are small and have a sign, or are large and have none, and no
name is twice in an object. -/
inductive WellFormed : Value → Prop
  | null : WellFormed null
  | int {value : ℤ} : -2 ^ 63 ≤ value → value ≤ 2 ^ 31 - 1 → WellFormed (int value)
  | uint {value : ℕ} : 2 ^ 31 ≤ value → value < 2 ^ 64 → WellFormed (uint value)
  | real (value : Double) : WellFormed (real value)
  | string (value : Str) : WellFormed (string value)
  | bool (value : Bool) : WellFormed (bool value)
  | array {elements : List Value} : (∀ element ∈ elements, WellFormed element) →
      WellFormed (array elements)
  | object {members : List (Str × Value)} : KeyedList.Sorted members →
      (∀ member ∈ members, WellFormed member.2) → WellFormed (object members)

theorem depth_pos (v : Value) : 0 < v.depth := by
  cases v with
  | array elements => exact Nat.succ_pos _
  | object members => exact Nat.succ_pos _
  | _ => exact Nat.one_pos

theorem depthElements_le_iff {elements : List Value} {n : ℕ} :
    depthElements elements ≤ n ↔ ∀ element ∈ elements, element.depth ≤ n := by
  induction elements with
  | nil => exact iff_of_true (Nat.zero_le n) fun element h => absurd h List.not_mem_nil
  | cons element rest ih => rw [depthElements, Nat.max_le, List.forall_mem_cons, ih]

theorem depthMembers_le_iff {members : List (Str × Value)} {n : ℕ} :
    depthMembers members ≤ n ↔ ∀ member ∈ members, member.2.depth ≤ n := by
  induction members with
  | nil => exact iff_of_true (Nat.zero_le n) fun member h => absurd h List.not_mem_nil
  | cons member rest ih => rw [depthMembers, Nat.max_le, List.forall_mem_cons, ih]

/-- A value of the reader at most so deep. -/
def Fits (levels : ℕ) (v : Value) : Prop := v.WellFormed ∧ v.depth ≤ levels

theorem Fits.mono {levels levels' : ℕ} {v : Value} (h : Fits levels v) (hle : levels ≤ levels') :
    Fits levels' v :=
  ⟨h.1, h.2.trans hle⟩

/-- An object of members that fit. -/
theorem Fits.object {levels : ℕ} {members : List (Str × Value)}
    (hsorted : KeyedList.Sorted members) (h : ∀ member ∈ members, Fits levels member.2) :
    Fits (levels + 1) (.object members) := by
  refine ⟨.object hsorted fun member hmember => (h member hmember).1, ?_⟩
  rw [depth]
  exact Nat.succ_le_succ (depthMembers_le_iff.mpr fun member hmember => (h member hmember).2)

/-- An array of elements that fit. -/
theorem Fits.array {levels : ℕ} {elements : List Value}
    (h : ∀ element ∈ elements, Fits levels element) : Fits (levels + 1) (.array elements) := by
  refine ⟨.array fun element helement => (h element helement).1, ?_⟩
  rw [depth]
  exact Nat.succ_le_succ (depthElements_le_iff.mpr fun element helement => (h element helement).2)

end Value

/-- The brackets and braces that open something in a document. -/
def openings (s : Str) : ℕ := s.countP fun c => c = 91 || c = 123

theorem openings_le_of_suffix {s s' : Str} (h : s' <:+ s) : openings s' ≤ openings s :=
  h.sublist.countP_le

theorem isDigit_iff (c : UInt8) : isDigit c = true ↔ 48 ≤ c.toNat ∧ c.toNat ≤ 57 := by
  simp only [isDigit, Bool.and_eq_true, decide_eq_true_eq, UInt8.le_iff_toNat_le]
  exact Iff.rfl

/-- The loop over the digits stays within its bound, whatever the bytes are. -/
theorem decodeDigits_le {maxIntegerValue value number : ℕ} {text : Str}
    (hvalue : value ≤ maxIntegerValue)
    (h : decodeDigits maxIntegerValue value text = some number) : number ≤ maxIntegerValue := by
  induction text generalizing value with
  | nil => exact Option.some.inj h ▸ hvalue
  | cons c rest ih =>
    rw [decodeDigits] at h
    split at h
    · cases h
    · next hdigit =>
      have hrange := (isDigit_iff c).mp (not_not.mp hdigit)
      split at h
      · cases h
      · next hstop =>
        refine ih ?_ h
        simp only [not_and_or, not_or, ge_iff_le, gt_iff_lt, not_le, not_lt] at hstop
        omega

/-- A number that is read is well-formed. -/
theorem decodeNumber_wellFormed {readDouble : Str → Option Double} {text : Str} {v : Value}
    (h : decodeNumber readDouble text = some v) : v.WellFormed ∧ v.depth = 1 := by
  rw [decodeNumber] at h
  split at h
  · obtain ⟨double, _, rfl⟩ := Option.map_eq_some_iff.mp h
    exact ⟨.real double, rfl⟩
  · next value hdigits =>
    have hbound := decodeDigits_le (Nat.zero_le _) hdigits
    split at h
    · next hnegative =>
      rw [if_pos hnegative] at hbound
      obtain rfl := Option.some.inj h
      exact ⟨.int (by omega) (by omega), rfl⟩
    · next hnegative =>
      rw [if_neg hnegative] at hbound
      split at h
      · next hsmall =>
        obtain rfl := Option.some.inj h
        exact ⟨.int (by omega) (by omega), rfl⟩
      · next hlarge =>
        obtain rfl := Option.some.inj h
        exact ⟨.uint (by omega) (by omega), rfl⟩

end NodeManager.Json
