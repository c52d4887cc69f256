import Mathlib.Tactic.Ring
import NodeManager.CommonDef
import NodeManager.Library.CString

/-!
# Reading files

`readTextFile` and `readJson` of `utils.cpp`. A length travels from `size_t`
to `int` and back, and the bytes that have been read are the ones in front of
a pointer that is computed from the `int`. The JSON parser is given a string
that ends at the first NUL, and the byte order mark is looked for at three
positions that need not all be there.
-/

namespace NodeManager.Utils

open ByteMemory CString

/-- How these functions end when they do not return. -/
inductive Stop
  /-- A member function of `std::string` throws `std::out_of_range`. -/
  | outOfRange
  /-- A pointer leaves its block, or a byte is read that was never written. -/
  | undefined
  deriving DecidableEq, Repr

/-- The conversion of a `size_t` of 64 bits to an `int` of 32. -/
def asInt (n : ℕ) : ℤ := (n + 2 ^ 31) % 2 ^ 32 - 2 ^ 31

/-- The conversion of a `size_t` to a `std::streamsize` of 64 bits. -/
def asStreamsize (n : ℕ) : ℤ := (n + 2 ^ 63) % 2 ^ 64 - 2 ^ 63

/-- The conversion of a signed integer to a `size_t` of 64 bits. -/
def asSize (i : ℤ) : ℕ := (i % 2 ^ 64).toNat

/-- `malloc`, where it succeeds: bytes that have no value yet. -/
def malloc (len : ℕ) : List (Option UInt8) := List.replicate len none

/-- `getFileLength`. -/
def getFileLength (file : Str) : ℕ :=
  let start : ℤ := 0
  let finish : ℤ := file.length
  asSize (finish - start)

/-- `std::filebuf::sgetn` from the start of the file. -/
def sgetn (file : Str) (buff : List (Option UInt8)) (n : ℕ) :
    Except Stop (List (Option UInt8)) :=
  let got := file.take (asStreamsize n).toNat
  if got.length ≤ buff.length then .ok (got.map some ++ buff.drop got.length)
  else .error .undefined

/-- `readAll`; the comparison converts `_buff_len` to `size_t`. -/
def readAll (file : Str) (buff : List (Option UInt8)) (buffLen : ℤ) :
    Except Stop (ℕ × List (Option UInt8)) := do
  let size := asSize file.length
  if size > asSize buffLen then
    return (asSize (-1), buff)
  let buff ← sgetn file buff size
  return (size, buff)

/-- The bytes from `cbuf` up to `cbuf + n`. -/
def range (cbuf : List (Option UInt8)) (n : ℤ) : Except Stop Str :=
  if 0 ≤ n ∧ n ≤ cbuf.length then
    (cbuf.take n.toNat).mapM fun byte => byte.elim (.error .undefined) .ok
  else .error .undefined

/-- `readTextFile` on a file that cannot be opened or has the given contents;
the result and what becomes of `buf`. -/
def readTextFile (ifile : Option Str) (buf : Str) : Except Stop (ℕ × Str) :=
  match ifile with
  | none => .ok (0, buf)
  | some file => do
    let len := getFileLength file
    let cbuf := malloc len
    let (size, cbuf) ← readAll file cbuf (asInt len)
    let retLen := asInt size
    let bytes ← range cbuf retLen
    return (asSize retLen, buf ++ bytes)

/-- `std::string::at`. -/
def charAt (buf : Str) (pos : ℕ) : Except Stop UInt8 := buf[pos]?.elim (.error .outOfRange) .ok

/-- `std::string::substr`. -/
def substr (buf : Str) (pos n : ℕ) : Except Stop Str :=
  if pos ≤ buf.length then .ok ((buf.drop pos).take n) else .error .outOfRange

/-- The condition of `readJson` for a byte order mark, evaluated from left to
right as far as needed. -/
def startsWithBom (buf : Str) : Except Stop Bool := do
  if 0xEF = (← charAt buf 0) then
    if 0xBB = (← charAt buf 1) then
      return 0xBF = (← charAt buf 2)
  return false

section ReadJson

variable {Json : Type} (parse : Str → Json → Bool × Json)

/-- `readJson`, with the verdict of the parser on a document and what it makes
of the value that it is given. -/
def readJson (ifile : Option Str) (json : Json) : Except Stop (Bool × Json) := do
  let (len, buf) ← readTextFile ifile []
  if len ≤ 0 then
    return (false, json)
  let buf ← if ← startsWithBom buf then substr buf 3 (buf.length - 3) else pure buf
  if len ≤ 0 then
    return (false, json)
  let (accepted, json) := parse (upToNul buf) json
  if accepted then
    return (true, json)
  return (false, json)

/-- The contents of a file without a byte order mark in front. -/
def withoutBom : Str → Str
  | 0xEF :: 0xBB :: 0xBF :: rest => rest
  | file => file

/-- The whole file is appended and its length returned; nothing happens when it
cannot be opened. -/
def ReturnsFile (ifile : Option Str) (buf : Str) : Prop :=
  readTextFile ifile buf =
    .ok (match ifile with
      | none => (0, buf)
      | some file => (file.length, buf ++ file))

/-- The result is the verdict of the parser on the whole file, and the value is
the one that it parsed. -/
def ParsesFile (file : Str) (json : Json) : Prop :=
  ∃ accepted value, readJson parse (some file) json = .ok (accepted, value) ∧
    (accepted = true ↔ file ≠ [] ∧ (parse (withoutBom file) json).1 = true) ∧
    (accepted = true → value = (parse (withoutBom file) json).2)

end ReadJson

theorem asSize_length {file : Str} (h : file.length < 2 ^ 64) :
    asSize file.length = file.length := by
  unfold asSize
  omega

theorem getFileLength_eq {file : Str} (h : file.length < 2 ^ 64) :
    getFileLength file = file.length := by
  rw [getFileLength, Int.sub_zero, asSize_length h]

/-- The bytes that have been read can be appended. -/
theorem range_map_some (file : Str) : range (file.map some) file.length = .ok file := by
  have hall : ∀ bytes : Str, ((bytes.map some).mapM fun byte : Option UInt8 =>
      byte.elim (Except.error Stop.undefined) .ok) = .ok bytes := by
    intro bytes
    induction bytes with
    | nil => rfl
    | cons byte bytes ih =>
      rw [List.map_cons, List.mapM_cons, ih]
      rfl
  have hlength : (file.map some).length = file.length := List.length_map _
  rw [range, hlength, if_pos ⟨by omega, le_rfl⟩, Int.toNat_natCast,
    List.take_of_length_le hlength.le, hall]

/-- The file is read into a block of its length, or the length does not fit the
`int` and the result is -1. -/
theorem readAll_cases {file : Str} (h : file.length < 2 ^ 64) (buffLen : ℤ) :
    ∃ size cbuf, readAll file (malloc file.length) buffLen = .ok (size, cbuf) ∧
      (size = asSize (-1) ∧ asSize buffLen < file.length ∨
        size = file.length ∧ file.length ≤ asSize buffLen ∧
          sgetn file (malloc file.length) file.length = .ok cbuf) := by
  have hsize : asSize file.length = file.length := asSize_length h
  by_cases hless : asSize buffLen < file.length
  · refine ⟨_, malloc file.length, ?_, Or.inl ⟨rfl, hless⟩⟩
    rw [readAll, hsize, if_pos hless]
    rfl
  · have hfits : (file.take (asStreamsize file.length).toNat).length ≤
        (malloc file.length).length := by
      rw [malloc, List.length_replicate, List.length_take]
      exact Nat.min_le_right _ _
    obtain ⟨cbuf, hcbuf⟩ : ∃ cbuf, sgetn file (malloc file.length) file.length = .ok cbuf := by
      rw [sgetn, if_pos hfits]
      exact ⟨_, rfl⟩
    refine ⟨file.length, cbuf, ?_, Or.inr ⟨rfl, Nat.le_of_not_lt hless, hcbuf⟩⟩
    rw [readAll, hsize, if_neg hless, hcbuf]
    rfl

/-- A file whose length is an `int` is read as it is. -/
theorem readTextFile_short {file : Str} (h : file.length < 2 ^ 31) (buf : Str) :
    readTextFile (some file) buf = .ok (file.length, buf ++ file) := by
  have h64 : file.length < 2 ^ 64 := by omega
  have hint : asInt file.length = file.length := by
    unfold asInt
    omega
  have hsize : asSize file.length = file.length := asSize_length h64
  have hgot : file.take (asStreamsize file.length).toNat = file := by
    refine List.take_of_length_le ?_
    unfold asStreamsize
    omega
  have hsgetn : sgetn file (malloc file.length) file.length = .ok (file.map some) := by
    have hfits : file.length ≤ (malloc file.length).length := by
      rw [malloc, List.length_replicate]
    rw [sgetn, hgot, if_pos hfits, malloc, List.drop_replicate, Nat.sub_self,
      List.replicate_zero, List.append_nil]
  obtain ⟨size, cbuf, hread, hcases⟩ := readAll_cases h64 (asInt file.length)
  rw [hint, hsize, hsgetn, Except.ok.injEq] at hcases
  obtain ⟨_, hless⟩ | ⟨rfl, _, rfl⟩ := hcases
  · exact absurd hless (lt_irrefl _)
  · rw [readTextFile, getFileLength_eq h64, hread, ok_bind]
    dsimp only
    rw [hint, range_map_some, ok_bind, hsize]
    rfl

/-- A longer file is stored in an `int` as a negative length. -/
theorem readTextFile_long {file : Str} (h : 2 ^ 31 ≤ file.length) (h64 : file.length < 2 ^ 64)
    (buf : Str) : readTextFile (some file) buf = .error .undefined := by
  obtain ⟨size, cbuf, hread, hcases⟩ := readAll_cases h64 (asInt file.length)
  have hnegative : ¬(0 ≤ asInt size ∧ asInt size ≤ cbuf.length) := by
    obtain ⟨rfl, _⟩ | ⟨rfl, hle, _⟩ := hcases
    · rintro ⟨hnonneg, _⟩
      exact absurd hnonneg (by decide)
    · unfold asSize asInt at hle
      unfold asInt
      omega
  rw [readTextFile, getFileLength_eq h64, hread, ok_bind]
  dsimp only
  rw [range, if_neg hnegative]
  rfl

/-- Exactly the files of less than 2^31 bytes, and those that cannot be opened,
are returned as they are. -/
theorem readTextFile_iff {ifile : Option Str} (h : ∀ file ∈ ifile, file.length < 2 ^ 64)
    (buf : Str) : ReturnsFile ifile buf ↔ ∀ file ∈ ifile, file.length < 2 ^ 31 := by
  cases ifile with
  | none => exact iff_of_true rfl fun file hfile => nomatch hfile
  | some file =>
    have h64 := h file rfl
    constructor
    · intro hreturns file' hfile
      obtain rfl := Option.some.inj hfile
      by_contra hlong
      rw [ReturnsFile, readTextFile_long (by omega) h64] at hreturns
      cases hreturns
    · intro hshort
      exact readTextFile_short (hshort file rfl) buf

/-- A file of two bytes, appended to a buffer of one. -/
theorem readTextFile_two :
    ReturnsFile (some [123, 125]) [32] ↔
      ∀ file ∈ (some [123, 125] : Option Str), file.length < 2 ^ 31 :=
  readTextFile_iff (by decide) [32]

/-- A file of 2^31 bytes is not returned. -/
theorem readTextFile_lost :
    ¬∀ (ifile : Option Str) (buf : Str), (∀ file ∈ ifile, file.length < 2 ^ 64) →
      ReturnsFile ifile buf := by
  intro h
  have hlength : (List.replicate (2 ^ 31) (0 : UInt8)).length = 2 ^ 31 := List.length_replicate
  have hreturns : ReturnsFile (some (List.replicate (2 ^ 31) 0)) [] := by
    refine h _ _ fun file hfile => ?_
    rw [← Option.some.inj hfile, hlength]
    decide
  rw [ReturnsFile, readTextFile_long hlength.ge (by rw [hlength]; decide)] at hreturns
  cases hreturns

/-- A file that ends within a byte order mark. -/
def TruncatedBom (file : Str) : Prop := file = [0xEF] ∨ file = [0xEF, 0xBB]

/-- Every position that is looked at is there, unless the file ends within a
byte order mark. -/
theorem startsWithBom_cases {file : Str} (hfile : file ≠ []) (hbom : ¬TruncatedBom file) :
    ∃ bom, startsWithBom file = .ok bom ∧
      (if bom then substr file 3 (file.length - 3) else .ok file) = .ok (withoutBom file) := by
  obtain ⟨hone, htwo⟩ := not_or.mp hbom
  match file with
  | [] => exact absurd rfl hfile
  | a :: rest =>
    by_cases ha : 0xEF = a
    · subst ha
      match rest with
      | [] => exact absurd rfl hone
      | b :: rest =>
        by_cases hb : 0xBB = b
        · subst hb
          match rest with
          | [] => exact absurd rfl htwo
          | c :: rest =>
            by_cases hc : 0xBF = c
            · subst hc
              refine ⟨true, rfl, ?_⟩
              have hlength : rest.length = (0xEF :: 0xBB :: 0xBF :: rest : Str).length - 3 := rfl
              have hthree : 3 ≤ (0xEF :: 0xBB :: 0xBF :: rest : Str).length := by
                simp only [List.length_cons]
                omega
              rw [if_pos rfl, substr, if_pos hthree, ← hlength]
              exact congrArg Except.ok (List.take_length)
            · refine ⟨false, ?_, ?_⟩
              · change Except.ok (decide (0xBF = c)) = _
                rw [decide_eq_false hc]
              · rw [if_neg Bool.false_ne_true, withoutBom]
                intro rest' heq
                exact hc (List.cons.inj (List.cons.inj (List.cons.inj heq).2).2).1.symm
        · refine ⟨false, ?_, ?_⟩
          · change (if 0xBB = b then _ else Except.ok false) = _
            rw [if_neg hb]
          · rw [if_neg Bool.false_ne_true, withoutBom]
            intro rest' heq
            exact hb (List.cons.inj (List.cons.inj heq).2).1.symm
    · refine ⟨false, ?_, ?_⟩
      · change (if 0xEF = a then _ else Except.ok false) = _
        rw [if_neg ha]
      · rw [if_neg Bool.false_ne_true, withoutBom]
        intro rest' heq
        exact ha (List.cons.inj heq).1.symm

section ReadJson

variable {Json : Type} (parse : Str → Json → Bool × Json) {file : Str}

theorem readJson_empty (json : Json) : readJson parse (some []) json = .ok (false, json) := rfl

/-- `std::string::at` throws on a truncated byte order mark. -/
theorem readJson_truncated (h : TruncatedBom file) (json : Json) :
    readJson parse (some file) json = .error .outOfRange := by
  rcases h with rfl | rfl <;> rfl

/-- Any other file reaches the parser up to its first NUL. -/
theorem readJson_eq (hfile : file ≠ []) (hbom : ¬TruncatedBom file)
    (hlength : file.length < 2 ^ 31) (json : Json) :
    readJson parse (some file) json = .ok (parse (upToNul (withoutBom file)) json) := by
  obtain ⟨bom, hstarts, hcontents⟩ := startsWithBom_cases hfile hbom
  have hpos : ¬file.length ≤ 0 := Nat.not_le_of_gt (List.length_pos_iff.mpr hfile)
  have hverdict : ∀ result : Bool × Json,
      (if result.1 = true then pure (true, result.2) else pure (false, result.2)) =
        (Except.ok result : Except Stop (Bool × Json)) := by
    rintro ⟨accepted, value⟩
    cases accepted <;> rfl
  rw [readJson, readTextFile_short hlength, ok_bind, List.nil_append]
  dsimp only
  rw [if_neg hpos, hstarts, ok_bind]
  cases bom with
  | true =>
    rw [if_pos rfl] at hcontents ⊢
    rw [hcontents, ok_bind, if_neg hpos]
    exact hverdict _
  | false =>
    rw [if_neg Bool.false_ne_true] at hcontents ⊢
    rw [← Except.ok.inj hcontents, pure_bind, if_neg hpos]
    exact hverdict _

/-- The file is parsed as it is exactly when it does not end within a byte order
mark and the parser makes the same of it up to its first NUL. -/
theorem parsesFile_iff (hlength : file.length < 2 ^ 31) (json : Json) :
    ParsesFile parse file json ↔ ¬TruncatedBom file ∧
      (parse (upToNul (withoutBom file)) json).1 = (parse (withoutBom file) json).1 ∧
      ((parse (withoutBom file) json).1 = true →
        (parse (upToNul (withoutBom file)) json).2 = (parse (withoutBom file) json).2) := by
  by_cases hfile : file = []
  · subst hfile
    refine iff_of_true ⟨false, json, readJson_empty parse json, ?_, ?_⟩ ⟨?_, rfl, fun _ => rfl⟩
    · exact iff_of_false Bool.false_ne_true fun h => h.1 rfl
    · intro h
      cases h
    · rintro (h | h) <;> cases h
  · by_cases hbom : TruncatedBom file
    · refine iff_of_false ?_ fun h => h.1 hbom
      rintro ⟨accepted, value, hread, _⟩
      rw [readJson_truncated parse hbom] at hread
      cases hread
    · have hread := readJson_eq parse hfile hbom hlength json
      constructor
      · rintro ⟨accepted, value, hread', haccepted, hvalue⟩
        rw [hread, Except.ok.injEq] at hread'
        rw [hread']
        have hsame : accepted = (parse (withoutBom file) json).1 := by
          rw [Bool.eq_iff_iff, haccepted]
          exact and_iff_right hfile
        exact ⟨hbom, hsame, fun h => hvalue (hsame.trans h)⟩
      · rintro ⟨_, hsame, hvalue⟩
        refine ⟨_, _, hread, ?_, fun h => hvalue (hsame ▸ h)⟩
        rw [hsame]
        exact (and_iff_right hfile).symm

end ReadJson

/-- A file with a byte order mark, given to a parser that takes every document
and keeps it. -/
theorem parsesFile_marked :
    let parse : Str → Str → Bool × Str := fun document _ => (true, document)
    ParsesFile parse [0xEF, 0xBB, 0xBF, 123, 125] [] ↔
      ¬TruncatedBom [0xEF, 0xBB, 0xBF, 123, 125] ∧
      (parse (upToNul [123, 125]) []).1 = (parse [123, 125] []).1 ∧
      ((parse [123, 125] []).1 = true →
        (parse (upToNul [123, 125]) []).2 = (parse [123, 125] []).2) := by
  have hlength : ([0xEF, 0xBB, 0xBF, 123, 125] : Str).length < 2 ^ 31 := by decide
  exact parsesFile_iff (fun document _ => (true, document)) hlength []

/-- A file of the single byte EF, which no parser gets to see. -/
theorem parsesFile_thrown :
    ¬∀ (parse : Str → Str → Bool × Str) (file json : Str), file.length < 2 ^ 31 →
      ParsesFile parse file json := by
  intro h
  obtain ⟨accepted, value, hread, _⟩ := h (fun document _ => (true, document)) [0xEF] [] (by decide)
  rw [readJson_truncated _ (Or.inl rfl)] at hread
  cases hread

end NodeManager.Utils
