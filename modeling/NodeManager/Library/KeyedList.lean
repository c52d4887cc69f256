import Mathlib.Data.List.Nodup
import Mathlib.Data.Prod.Basic

/-!
# Association lists in the order of their keys

A list of keys with values into which an entry is put in front of the first
greater key, or over the entry of the same key.
-/

namespace KeyedList

variable {κ ν : Type*} [LT κ] [DecidableLT κ] [DecidableEq κ]

/-- Give a key a value. -/
def set (key : κ) (value : ν) : List (κ × ν) → List (κ × ν)
  | [] => [(key, value)]
  | (k, v) :: rest =>
    if key < k then (key, value) :: (k, v) :: rest
    else if k = key then (key, value) :: rest
    else (k, v) :: set key value rest

/-- The value of the first entry with a key. -/
def get? (key : κ) : List (κ × ν) → Option ν
  | [] => none
  | (k, v) :: rest => if k = key then some v else get? key rest

/-- A new key adds an entry. -/
theorem perm_set {key : κ} {value : ν} {entries : List (κ × ν)} (h : key ∉ entries.map Prod.fst) :
    (set key value entries).Perm ((key, value) :: entries) := by
  induction entries with
  | nil => exact List.Perm.refl _
  | cons entry rest ih =>
    obtain ⟨k, v⟩ := entry
    rw [List.map_cons, List.mem_cons, not_or] at h
    obtain ⟨hne, hrest⟩ := h
    rw [set]
    split
    · exact List.Perm.refl _
    · rw [if_neg (Ne.symm hne)]
      exact ((ih hrest).cons (k, v)).trans (List.Perm.swap _ _ _)

/-- Setting different keys one after the other collects the entries. -/
theorem perm_foldl_set {entries new : List (κ × ν)}
    (h : ((entries ++ new).map Prod.fst).Nodup) :
    (new.foldl (fun entries entry => set entry.1 entry.2 entries) entries).Perm
      (entries ++ new) := by
  induction new generalizing entries with
  | nil =>
    rw [List.append_nil]
    exact List.Perm.refl _
  | cons entry new ih =>
    obtain ⟨key, value⟩ := entry
    have hmiddle : (entries ++ (key, value) :: new).Perm ((key, value) :: entries ++ new) :=
      List.perm_middle
    have hnodup := ((hmiddle.map Prod.fst).nodup_iff).mp h
    have hkey : key ∉ entries.map Prod.fst := by
      intro hmem
      rw [List.cons_append, List.map_cons, List.nodup_cons, List.map_append] at hnodup
      exact hnodup.1 (List.mem_append_left _ hmem)
    have hset : (set key value entries ++ new).Perm ((key, value) :: entries ++ new) :=
      (perm_set hkey).append_right new
    refine (ih ?_).trans (hset.trans hmiddle.symm)
    exact ((hset.map Prod.fst).nodup_iff).mpr hnodup

omit [LT κ] [DecidableLT κ] in
/-- What is found is an entry. -/
theorem mem_of_get? {key : κ} {value : ν} {entries : List (κ × ν)}
    (h : get? key entries = some value) : (key, value) ∈ entries := by
  induction entries with
  | nil => cases h
  | cons entry rest ih =>
    obtain ⟨k, v⟩ := entry
    rw [get?] at h
    split at h
    · next heq =>
      rw [← heq, ← Option.some.inj h]
      exact List.mem_cons_self
    · exact List.mem_cons_of_mem _ (ih h)

/-- Setting a key adds no other entry. -/
theorem mem_set {key : κ} {value : ν} {entries : List (κ × ν)} {entry : κ × ν}
    (h : entry ∈ set key value entries) : entry = (key, value) ∨ entry ∈ entries := by
  induction entries with
  | nil => exact Or.inl (List.mem_singleton.mp h)
  | cons first rest ih =>
    obtain ⟨k, v⟩ := first
    rw [set] at h
    split at h
    · exact List.mem_cons.mp h
    · split at h
      · exact (List.mem_cons.mp h).imp_right (List.mem_cons_of_mem _)
      · rcases List.mem_cons.mp h with heq | hrest
        · exact Or.inr (heq ▸ List.mem_cons_self)
        · exact (ih hrest).imp_right (List.mem_cons_of_mem _)

/-- The keys are in order, and so all different. -/
def Sorted (entries : List (κ × ν)) : Prop :=
  entries.Pairwise fun first second => first.1 < second.1

/-- Setting a key keeps the order. -/
theorem Sorted.set [IsTrans κ (· < ·)] [Std.Trichotomous (fun first second : κ => first < second)]
    {entries : List (κ × ν)} (h : Sorted entries) (key : κ) (value : ν) :
    Sorted (KeyedList.set key value entries) := by
  induction entries with
  | nil => exact List.pairwise_singleton _ _
  | cons entry rest ih =>
    obtain ⟨k, v⟩ := entry
    obtain ⟨hfirst, hrest⟩ := List.pairwise_cons.mp h
    rw [KeyedList.set]
    split
    · next hless =>
      refine List.pairwise_cons.mpr ⟨fun other hother => ?_, h⟩
      rcases List.mem_cons.mp hother with rfl | hother
      · exact hless
      · exact IsTrans.trans _ _ _ hless (hfirst other hother)
    · next hnotLess =>
      split
      · next heq =>
        subst heq
        exact List.pairwise_cons.mpr ⟨hfirst, hrest⟩
      · next hne =>
        refine List.pairwise_cons.mpr ⟨fun other hother => ?_, ih hrest⟩
        rcases mem_set hother with rfl | hother
        · by_contra hgreater
          exact hne (Std.Trichotomous.trichotomous k key hgreater hnotLess)
        · exact hfirst other hother

section Asymmetric

variable [Std.Asymm fun first second : κ => first < second]

/-- A key behind all others goes to the end. -/
theorem set_of_forall_lt {entries : List (κ × ν)} {key : κ}
    (h : ∀ entry ∈ entries, entry.1 < key) (value : ν) :
    KeyedList.set key value entries = entries ++ [(key, value)] := by
  induction entries with
  | nil => rfl
  | cons entry rest ih =>
    obtain ⟨k, v⟩ := entry
    have hless : k < key := h (k, v) List.mem_cons_self
    have hirrefl : k ≠ key := by
      rintro rfl
      exact Std.Asymm.asymm k k hless hless
    rw [KeyedList.set, if_neg (Std.Asymm.asymm k key hless), if_neg hirrefl,
      ih fun entry hentry => h entry (List.mem_cons_of_mem _ hentry), List.cons_append]

omit [DecidableLT κ] in
/-- In a sorted list every entry is found. -/
theorem get?_eq_some_iff {entries : List (κ × ν)} (h : Sorted entries) {key : κ} {value : ν} :
    get? key entries = some value ↔ (key, value) ∈ entries := by
  refine ⟨mem_of_get?, fun hmem => ?_⟩
  induction entries with
  | nil => exact absurd hmem List.not_mem_nil
  | cons entry rest ih =>
    obtain ⟨k, v⟩ := entry
    obtain ⟨hfirst, hrest⟩ := List.pairwise_cons.mp h
    rw [get?]
    rcases List.mem_cons.mp hmem with heq | hmem
    · obtain ⟨rfl, rfl⟩ := Prod.mk.inj heq
      exact if_pos rfl
    · have hless : k < key := hfirst (key, value) hmem
      have hne : k ≠ key := by
        rintro rfl
        exact Std.Asymm.asymm k k hless hless
      rw [if_neg hne]
      exact ih hrest hmem

/-- Setting the keys of a sorted list one after the other builds the list. -/
theorem foldl_set_of_sorted {entries new : List (κ × ν)} (h : Sorted (entries ++ new)) :
    new.foldl (fun entries entry => KeyedList.set entry.1 entry.2 entries) entries =
      entries ++ new := by
  induction new generalizing entries with
  | nil => exact (List.append_nil entries).symm
  | cons entry new ih =>
    obtain ⟨_, _, hcross⟩ := List.pairwise_append.mp h
    have hlast : KeyedList.set entry.1 entry.2 entries = entries ++ [entry] :=
      set_of_forall_lt (fun first hfirst => hcross first hfirst entry List.mem_cons_self) _
    have hassoc : entries ++ entry :: new = entries ++ [entry] ++ new := by
      rw [List.append_assoc, List.singleton_append]
    rw [List.foldl_cons, hlast, hassoc]
    exact ih (hassoc ▸ h)

end Asymmetric

end KeyedList
