import NodeManager.Library.ByteMemory

/-!
# Strings that end at the first NUL, and formats

A `char *` is read up to the first NUL of the memory behind it, and past the
end of that memory when there is none. As the format of a `printf` without
arguments a string is copied, but for the conversions in it: `%%` stands for a
percent sign, and any other conversion asks for something that was not passed.
-/

namespace CString

open ByteMemory

/-- What lies in front of the first NUL. -/
def upToNul (bytes : List UInt8) : List UInt8 := bytes.takeWhile (· != 0)

/-- The string that a pointer to the start of a buffer stands for. -/
def loadString (buffer : List UInt8) : Except Fault (List UInt8) :=
  if 0 ∈ buffer then .ok (upToNul buffer) else .error .outOfBounds

/-- What a `printf` without arguments makes of its format, unless it asks for
an argument. -/
def format : List UInt8 → Option (List UInt8)
  | [] => some []
  | 37 :: 37 :: rest => (format rest).map (37 :: ·)
  | 37 :: _ => none
  | c :: rest => (format rest).map (c :: ·)

theorem upToNul_cons {c : UInt8} (hc : c ≠ 0) (bytes : List UInt8) :
    upToNul (c :: bytes) = c :: upToNul bytes :=
  List.takeWhile_cons_of_pos (bne_iff_ne.mpr hc)

/-- Strings without a NUL are read whole, and only they are. -/
theorem upToNul_eq_self_iff {bytes : List UInt8} : upToNul bytes = bytes ↔ 0 ∉ bytes := by
  induction bytes with
  | nil => exact iff_of_true rfl List.not_mem_nil
  | cons c bytes ih =>
    by_cases hc : c = 0
    · subst hc
      exact iff_of_false (fun h => nomatch h) (not_not.mpr List.mem_cons_self)
    · rw [upToNul_cons hc, List.cons.injEq, ih, List.mem_cons, not_or]
      exact and_congr_left fun _ => iff_of_true rfl (Ne.symm hc)

/-- What lies behind a NUL is not read. -/
theorem upToNul_append_nul (bytes rest : List UInt8) :
    upToNul (bytes ++ 0 :: rest) = upToNul bytes := by
  induction bytes with
  | nil => rfl
  | cons c bytes ih =>
    by_cases hc : c = 0
    · subst hc
      rfl
    · rw [List.cons_append, upToNul_cons hc, upToNul_cons hc, ih]

theorem format_cons {c : UInt8} (hc : c ≠ 37) (rest : List UInt8) :
    format (c :: rest) = (format rest).map (c :: ·) := by
  rw [format]
  all_goals
    intros
    contradiction

theorem format_percent {rest out : List UInt8} (h : format (37 :: rest) = some out) :
    ∃ later tail, rest = 37 :: later ∧ format later = some tail ∧ out = 37 :: tail := by
  cases rest with
  | nil => cases h
  | cons c later =>
    by_cases hc : c = 37
    · subst hc
      obtain ⟨tail, htail, hout⟩ := Option.map_eq_some_iff.mp h
      exact ⟨later, tail, rfl, htail, hout.symm⟩
    · rw [format] at h
      · cases h
      · intro later' heq
        exact hc (List.cons.inj heq).1

/-- Nothing is printed that does not stand in the format. -/
theorem format_length_le (bytes : List UInt8) :
    ∀ out, format bytes = some out → out.length ≤ bytes.length := by
  induction bytes using format.induct with
  | case1 =>
    intro out h
    cases h
    exact le_rfl
  | case2 rest ih =>
    intro out h
    obtain ⟨later, tail, hlater, htail, rfl⟩ := format_percent h
    obtain rfl := (List.cons.inj hlater).2
    have hrest := ih tail htail
    simp only [List.length_cons]
    omega
  | case3 rest hother =>
    intro out h
    obtain ⟨later, _, hlater, _⟩ := format_percent h
    exact absurd hlater (hother later)
  | case4 c rest hpair hpercent ih =>
    intro out h
    rw [format_cons hpercent] at h
    obtain ⟨tail, htail, rfl⟩ := Option.map_eq_some_iff.mp h
    have hrest := ih tail htail
    simp only [List.length_cons]
    omega

/-- Formats without a percent sign are copied, and only they are. -/
theorem format_eq_self_iff {bytes : List UInt8} : format bytes = some bytes ↔ 37 ∉ bytes := by
  induction bytes with
  | nil => exact iff_of_true rfl List.not_mem_nil
  | cons c rest ih =>
    by_cases hc : c = 37
    · subst hc
      refine iff_of_false ?_ (not_not.mpr List.mem_cons_self)
      intro h
      obtain ⟨later, tail, rfl, htail, hout⟩ := format_percent h
      have hshort := format_length_le later tail htail
      have hlength := congrArg List.length hout
      simp only [List.length_cons] at hlength
      omega
    · rw [format_cons hc, List.mem_cons, not_or, ← ih]
      constructor
      · intro h
        obtain ⟨tail, htail, hout⟩ := Option.map_eq_some_iff.mp h
        obtain rfl := (List.cons.inj hout).2
        exact ⟨Ne.symm hc, htail⟩
      · rintro ⟨_, h⟩
        rw [h]
        rfl

end CString
