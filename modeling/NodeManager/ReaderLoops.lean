import NodeManager.JsonShape
import NodeManager.Library.ByteMemory
import NodeManager.Library.FuelledLoop

/-!
# What the loops of the reader come to

Every token but the end of the document takes up bytes of what is left of it.
So the number of bytes left bounds the rounds of each loop of the reader, and
any fuel that is at least as large gives the same value. The values that the
loops return are well-formed, also where the document is wrong, and they throw
only behind as many opening brackets as there are levels.
-/

namespace NodeManager.Json

open ByteMemory (ok_bind)
open FuelledLoop

theorem matchPattern_suffix (pattern s : Str) : (matchPattern pattern s).2 <:+ s := by
  rw [matchPattern]
  split
  · exact List.drop_suffix _ _
  · exact List.suffix_rfl

theorem readString_suffix (s : Str) : (readString s).2 <:+ s := by
  fun_induction readString s with
  | case1 => exact List.suffix_rfl
  | case2 c rest ih => exact ih.trans ((List.suffix_cons c rest).trans (List.suffix_cons 92 _))
  | case3 rest => exact List.suffix_cons 34 rest
  | case4 c rest _ _ ih => exact ih.trans (List.suffix_cons c rest)

theorem readCStyleComment_suffix (s : Str) : (readCStyleComment s).2 <:+ s := by
  fun_induction readCStyleComment s with
  | case1 => exact List.suffix_rfl
  | case2 c => exact List.nil_suffix
  | case3 c d rest h => exact (List.suffix_cons d rest).trans (List.suffix_cons c _)
  | case4 c d rest h ih => exact ih.trans (List.suffix_cons c _)

theorem readCppStyleComment_suffix (s : Str) : readCppStyleComment s <:+ s := by
  fun_induction readCppStyleComment s with
  | case1 => exact List.suffix_rfl
  | case2 rest => exact List.suffix_cons 10 rest
  | case3 rest => exact (List.suffix_cons 10 rest).trans (List.suffix_cons 13 _)
  | case4 rest _ => exact List.suffix_cons 13 rest
  | case5 c rest _ _ _ ih => exact ih.trans (List.suffix_cons c rest)

theorem readComment_suffix (s : Str) : (readComment s).2 <:+ s := by
  unfold readComment
  split
  · next rest => exact (readCStyleComment_suffix rest).trans (List.suffix_cons 42 rest)
  · next rest => exact (readCppStyleComment_suffix rest).trans (List.suffix_cons 47 rest)
  · next c rest _ _ => exact List.suffix_cons c rest
  · exact List.suffix_rfl

theorem readNumber_suffix (s : Str) : readNumber s <:+ s := by
  have hdigits : ∀ bytes : Str, bytes.dropWhile isDigit <:+ bytes := fun bytes =>
    List.dropWhile_suffix _
  have hintegral := hdigits s
  unfold readNumber
  extract_lets integral fractional
  have hfractional : fractional <:+ integral := by
    unfold fractional
    clear_value integral
    split
    · next rest => exact (hdigits rest).trans (List.suffix_cons 46 rest)
    · exact List.suffix_rfl
  have hbound : fractional <:+ s := hfractional.trans hintegral
  clear_value fractional
  refine List.IsSuffix.trans ?_ hbound
  split
  · exact List.suffix_rfl
  · next c rest =>
    split
    · split
      · exact List.nil_suffix
      · next sign digits =>
        have htail := List.suffix_cons c (sign :: digits)
        split
        · exact ((hdigits digits).trans (List.suffix_cons sign digits)).trans htail
        · exact (hdigits (sign :: digits)).trans htail
    · exact List.suffix_rfl

theorem scanToken_suffix (c : UInt8) (rest : Str) : (scanToken c rest).2 <:+ rest := by
  let Shorter := fun read : TokenType × Str => read.2 <:+ rest
  have hword : ∀ (type : TokenType) (pattern : Str),
      Shorter (type.unlessBad (matchPattern pattern rest).1, (matchPattern pattern rest).2) :=
    fun _ pattern => matchPattern_suffix pattern rest
  unfold scanToken
  change Shorter _
  -- in the order of the switch: brackets, strings, comments, numbers, words
  iterate 4 refine iteInduction (fun _ => List.suffix_rfl) fun _ => ?_
  refine iteInduction (fun _ => readString_suffix rest) fun _ => ?_
  refine iteInduction (fun _ => readComment_suffix rest) fun _ => ?_
  refine iteInduction (fun _ => readNumber_suffix rest) fun _ => ?_
  iterate 3 refine iteInduction (fun _ => hword _ _) fun _ => ?_
  iterate 3 refine iteInduction (fun _ => List.suffix_rfl) fun _ => ?_
  exact List.suffix_rfl

/-- What is left behind a token is an end of what was left in front of it, and
a shorter one but at the end of the document. -/
theorem readToken_suffix (s : Str) : (readToken s).2 <:+ s ∧
    ((readToken s).1.type ≠ .endOfStream → (readToken s).2.length < s.length) := by
  have hspaces : skipSpaces s <:+ s := List.dropWhile_suffix _
  unfold readToken
  split
  · exact ⟨List.nil_suffix, fun h => absurd rfl h⟩
  · next c rest hskipped =>
    rw [hskipped] at hspaces
    have hscan := (scanToken_suffix c rest).trans (List.suffix_cons c rest)
    refine ⟨hscan.trans hspaces, fun _ => ?_⟩
    have hlength := (scanToken_suffix c rest).length_le
    have hspacesLength := hspaces.length_le
    rw [List.length_cons] at hspacesLength
    dsimp only
    omega

theorem readToken_length_lt {s : Str} (h : (readToken s).1.type ≠ .endOfStream) :
    (readToken s).2.length < s.length :=
  (readToken_suffix s).2 h

/-- The rounds that a token and the comments behind it can take. -/
def commentRounds (read : Token × Str) : ℕ :=
  if read.1.type = .comment then read.2.length + 1 else 0

theorem commentRounds_readToken (s : Str) : commentRounds (readToken s) ≤ s.length := by
  rw [commentRounds]
  split
  · next hcomment =>
    exact readToken_length_lt (by rw [hcomment]; decide)
  · exact Nat.zero_le _

theorem commentRounds_le (read : Token × Str) : commentRounds read ≤ read.2.length + 1 := by
  rw [commentRounds]
  split
  · exact le_rfl
  · exact Nat.zero_le _

theorem skipComments_decreasing : Decreasing skipComments commentRounds fun read result =>
    result.1.type ≠ .comment ∧ result.2 <:+ read.2 := by
  rintro ⟨token, s⟩
  by_cases hcomment : token.type = .comment
  · refine Or.inr ⟨readToken s, ?_, fun result hgood => ?_, fun fuel => ?_⟩
    · have hrounds := commentRounds_readToken s
      rw [commentRounds.eq_def (token, s), if_pos hcomment]
      exact Nat.lt_succ_of_le hrounds
    · exact ⟨hgood.1, hgood.2.trans (readToken_suffix s).1⟩
    · rw [skipComments, if_pos hcomment]
  · refine Or.inl ⟨(token, s), ⟨hcomment, List.suffix_rfl⟩, fun fuel _ => ?_⟩
    cases fuel with
    | zero => rfl
    | succ fuel => rw [skipComments, if_neg hcomment]

theorem readTokenPastComments_suffix (s : Str) : (readTokenPastComments s).2 <:+ s :=
  (skipComments_decreasing.good (commentRounds_readToken s)).2.trans (readToken_suffix s).1

theorem readTokenPastComments_length_lt {s : Str}
    (h : (readTokenPastComments s).1.type ≠ .endOfStream) :
    (readTokenPastComments s).2.length < s.length := by
  have hskipped := (skipComments_decreasing.good (commentRounds_readToken s)).2.length_le
  refine lt_of_le_of_lt hskipped (readToken_length_lt fun hend => h ?_)
  have hrounds : commentRounds (readToken s) = 0 := by
    rw [commentRounds, if_neg (by rw [hend]; decide)]
  have hsame : readTokenPastComments s = readToken s :=
    skipComments_decreasing.congr (commentRounds_readToken s) hrounds.le
  rw [hsame, hend]

theorem recoverLoop_decreasing (skipUntilToken : TokenType) :
    Decreasing (recoverLoop skipUntilToken) (fun s => s.length + 1) fun s left => left <:+ s := by
  refine .of_rounds (fun _ => Nat.succ_pos _) fun s => ?_
  have hsuffix := (readToken_suffix s).1
  refine Round.ite (fun _ => .ends hsuffix) fun hgoes => ?_
  obtain ⟨_, hmore⟩ := not_or.mp hgoes
  exact .goesOn (Nat.succ_lt_succ (readToken_length_lt hmore)) fun left hleft =>
    hleft.trans hsuffix

theorem recoverFromError_suffix (skipUntilToken : TokenType) (s : Str) :
    recoverFromError skipUntilToken s <:+ s :=
  (recoverLoop_decreasing skipUntilToken).good le_rfl

/-- What a reader at some depth makes of a document: it returns an end of the
document and a value that is well-formed and not too deep, given that the
values are that were there, or it throws because as many values as it had room
for have been opened. -/
structure Reads (given : Prop) (levels room : ℕ) (s : Str)
    (result : Except Error (Bool × Value × Str)) : Prop where
  fits : ∀ ok value left, result = .ok (ok, value, left) → given → value.Fits levels
  suffix : ∀ ok value left, result = .ok (ok, value, left) → left <:+ s
  thrown : ∀ error, result = .error error → error = .runtimeError ∧ room ≤ openings s

namespace Reads

variable {given given' : Prop} {levels room : ℕ} {s s' : Str}

theorem ok {ok : Bool} {value : Value} {left : Str} (hvalue : given → value.Fits levels)
    (hleft : left <:+ s) : Reads given levels room s (.ok (ok, value, left)) := by
  refine ⟨?_, ?_, ?_⟩
  all_goals
    intros
    simp_all

theorem error (hroom : room ≤ openings s) :
    Reads given levels room s (.error .runtimeError) := by
  refine ⟨?_, ?_, ?_⟩
  all_goals
    intros
    simp_all

theorem mono {result : Except Error (Bool × Value × Str)} (h : Reads given' levels room s' result)
    (hgiven : given → given') (hsuffix : s' <:+ s) : Reads given levels room s result where
  fits := fun ok value left heq hall => h.fits ok value left heq (hgiven hall)
  suffix := fun ok value left heq => (h.suffix ok value left heq).trans hsuffix
  thrown := fun error heq => ⟨(h.thrown error heq).1,
    (h.thrown error heq).2.trans (openings_le_of_suffix hsuffix)⟩

end Reads

/-- A reader of values with room for some levels. -/
def ReadsValues (levels : ℕ) (readValue : ValueReader) : Prop :=
  ∀ value s, Reads (value.Fits (max levels 1)) levels levels s (readValue value s)

theorem fits_null (levels : ℕ) : Value.null.Fits (max levels 1) := ⟨.null, Nat.le_max_right _ _⟩

/-- The members that an object has been given so far. -/
def MembersFit (levels : ℕ) (members : List (Str × Value)) : Prop :=
  KeyedList.Sorted members ∧ ∀ member ∈ members, member.2.Fits levels

theorem MembersFit.set {levels : ℕ} {members : List (Str × Value)} (h : MembersFit levels members)
    {value : Value} (hvalue : value.Fits levels) (name : Str) :
    MembersFit levels (KeyedList.set name value members) := by
  refine ⟨h.1.set name value, fun member hmember => ?_⟩
  rcases KeyedList.mem_set hmember with rfl | hmember
  · exact hvalue
  · exact h.2 member hmember

/-- The value that a member is read into. -/
theorem MembersFit.get {levels : ℕ} {members : List (Str × Value)} (h : MembersFit levels members)
    (name : Str) : ((KeyedList.get? name members).getD .null).Fits (max levels 1) := by
  cases hget : KeyedList.get? name members with
  | none => exact fits_null levels
  | some value => exact (h.2 (name, value) (KeyedList.mem_of_get? hget)).mono (Nat.le_max_left _ _)

section Containers

variable {levels : ℕ} {readValue : ValueReader} (hvalue : ReadsValues levels readValue)
include hvalue

theorem readElements_decreasing :
    Decreasing (fun fuel (x : List Value × Str) => readElements readValue fuel x.1 x.2)
      (fun x => x.2.length + 1) fun x =>
        Reads (∀ element ∈ x.1, element.Fits levels) (levels + 1) levels x.2 := by
  refine .of_rounds (fun _ => Nat.succ_pos _) ?_
  rintro ⟨elements, s⟩
  simp only [readElements]
  have hreads := hvalue .null s
  cases hread : readValue .null s with
  | error error =>
    obtain ⟨rfl, hroom⟩ := hreads.thrown error hread
    exact .ends (.error hroom)
  | ok result =>
    obtain ⟨ok, value, s₁⟩ := result
    have hs₁ := hreads.suffix ok value s₁ hread
    have hs₂ := (readTokenPastComments_suffix s₁).trans hs₁
    have hrecover := fun s' => recoverFromError_suffix .arrayEnd s'
    have helements : (∀ element ∈ elements, element.Fits levels) →
        ∀ element ∈ elements ++ [value], element.Fits levels := by
      intro hall element helement
      rcases List.mem_append.mp helement with helement | helement
      · exact hall element helement
      · rw [List.mem_singleton.mp helement]
        exact hreads.fits ok value s₁ hread (fits_null levels)
    have harray : (∀ element ∈ elements, element.Fits levels) →
        (Value.array (elements ++ [value])).Fits (levels + 1) := fun hall =>
      .array (helements hall)
    simp only [ok_bind]
    refine Round.ite (fun _ => .ends (.ok harray ((hrecover s₁).trans hs₁))) fun _ => ?_
    refine Round.ite (fun _ => .ends (.ok harray ((hrecover _).trans hs₂))) fun hgood => ?_
    refine Round.ite (fun _ => .ends (.ok harray hs₂)) fun hmore => ?_
    have hseparator : (readTokenPastComments s₁).1.type = .arraySeparator := by
      tauto
    have hshorter := readTokenPastComments_length_lt (s := s₁) (by rw [hseparator]; decide)
    exact Round.goesOn (y := (elements ++ [value], (readTokenPastComments s₁).2))
      (Nat.succ_lt_succ (hshorter.trans_le hs₁.length_le)) fun _ hgood => hgood.mono helements hs₂

theorem readMembers_decreasing :
    Decreasing (fun fuel (x : Str × List (Str × Value) × Str) =>
        readMembers readValue fuel x.1 x.2.1 x.2.2)
      (fun x => x.2.2.length + 1) fun x =>
        Reads (MembersFit levels x.2.1) (levels + 1) levels x.2.2 := by
  refine .of_rounds (fun _ => Nat.succ_pos _) ?_
  rintro ⟨name, members, s⟩
  have hrecover : ∀ {members' : List (Str × Value)} {s' : Str}, s' <:+ s →
      (MembersFit levels members → MembersFit levels members') →
        Reads (MembersFit levels members) (levels + 1) levels s
          (.ok (false, .object members', recoverFromError .objectEnd s')) :=
    fun hsuffix hmembers => .ok (fun hall => .object (hmembers hall).1 (hmembers hall).2)
      ((recoverFromError_suffix .objectEnd _).trans hsuffix)
  simp only [readMembers]
  have hs₁ := readTokenPastComments_suffix s
  refine Round.ite (fun _ => .ends (.ok (fun hall => .object hall.1 hall.2) hs₁)) fun _ => ?_
  refine Round.ite (fun _ => .ends (hrecover hs₁ id)) fun hname => ?_
  have hshorter := readTokenPastComments_length_lt (s := s) (by rw [not_not.mp hname]; decide)
  cases decodeString (readTokenPastComments s).1.text with
  | none => exact .ends (hrecover hs₁ id)
  | some name =>
    have hcolon := (readToken_suffix (readTokenPastComments s).2).1
    have hs₂ := hcolon.trans hs₁
    have hless := hcolon.length_le.trans_lt hshorter
    refine Round.ite (fun _ => .ends (hrecover hs₂ id)) fun _ => ?_
    generalize (readToken (readTokenPastComments s).2).2 = s₂ at hs₂ hless ⊢
    have hreads := hvalue ((KeyedList.get? name members).getD .null) s₂
    cases hread : readValue ((KeyedList.get? name members).getD .null) s₂ with
    | error error =>
      obtain ⟨rfl, hroom⟩ := hreads.thrown error hread
      exact .ends (.error (hroom.trans (openings_le_of_suffix hs₂)))
    | ok result =>
      obtain ⟨ok, value, s₃⟩ := result
      have hset : MembersFit levels members →
          MembersFit levels (KeyedList.set name value members) := fun hall =>
        hall.set (hreads.fits ok value s₃ hread (hall.get name)) name
      have hvalueLeft := hreads.suffix ok value s₃ hread
      have hcommaLeft := (readToken_suffix s₃).1.trans hvalueLeft
      have hlast := (skipComments_decreasing.good (commentRounds_le (readToken s₃))).2.trans
        hcommaLeft
      simp only [ok_bind]
      refine Round.ite (fun _ => .ends (hrecover (hvalueLeft.trans hs₂) hset)) fun _ => ?_
      refine Round.ite (fun _ => .ends (hrecover (hcommaLeft.trans hs₂) hset)) fun _ => ?_
      refine Round.ite (fun _ => .ends (.ok (fun hall => .object (hset hall).1 (hset hall).2)
        (hlast.trans hs₂))) fun _ => ?_
      generalize (skipComments ((readToken s₃).2.length + 1) (readToken s₃)).2 = s₅ at hlast ⊢
      exact Round.goesOn (y := (name, KeyedList.set name value members, s₅))
        (Nat.succ_lt_succ (hlast.length_le.trans_lt hless)) fun _ hgood =>
          hgood.mono hset (hlast.trans hs₂)

theorem readObject_reads (s : Str) : Reads True (levels + 1) levels s (readObject readValue s) :=
  ((readMembers_decreasing hvalue).good (x := ([], [], s)) le_rfl).mono
    (fun _ => ⟨List.Pairwise.nil, fun _ h => absurd h List.not_mem_nil⟩) List.suffix_rfl

theorem readArray_reads (s : Str) : Reads True (levels + 1) levels s (readArray readValue s) := by
  have hspaces : skipSpaces s <:+ s := List.dropWhile_suffix _
  have hnone : ∀ element ∈ ([] : List Value), element.Fits levels := fun element h =>
    absurd h List.not_mem_nil
  unfold readArray
  split
  · next rest hempty =>
    rw [hempty] at hspaces
    exact .ok (fun _ => .array hnone) ((List.suffix_cons 93 rest).trans hspaces)
  · exact ((readElements_decreasing hvalue).good (x := ([], skipSpaces s)) le_rfl).mono
      (fun _ => hnone) hspaces

end Containers

variable (readDouble : Str → Option Double)

/-- Only a bracket or a brace opens a container. -/
theorem scanToken_opens {c : UInt8} {rest : Str}
    (h : (scanToken c rest).1 = .objectBegin ∨ (scanToken c rest).1 = .arrayBegin) :
    c = 91 ∨ c = 123 := by
  let Opens := fun read : TokenType × Str => read.1 = .objectBegin ∨ read.1 = .arrayBegin →
    c = 91 ∨ c = 123
  have hother : ∀ (type : TokenType) (left : Str), type ≠ .objectBegin → type ≠ .arrayBegin →
      Opens (type, left) := by
    intro type left hobject harray htype
    rcases htype with htype | htype
    · exact absurd htype hobject
    · exact absurd htype harray
  have hverdict : ∀ (type : TokenType) (ok : Bool) (left : Str), type ≠ .objectBegin →
      type ≠ .arrayBegin → Opens (type.unlessBad ok, left) := by
    intro type ok left hobject harray
    cases ok with
    | true => exact hother type left hobject harray
    | false => exact hother .error left (by decide) (by decide)
  have hall : Opens (scanToken c rest) := by
    unfold scanToken
    refine iteInduction (fun hc _ => Or.inr hc) fun _ => ?_
    refine iteInduction (fun _ => hother _ _ (by decide) (by decide)) fun _ => ?_
    refine iteInduction (fun hc _ => Or.inl hc) fun _ => ?_
    refine iteInduction (fun _ => hother _ _ (by decide) (by decide)) fun _ => ?_
    iterate 2 refine iteInduction (fun _ => hverdict _ _ _ (by decide) (by decide)) fun _ => ?_
    refine iteInduction (fun _ => hother _ _ (by decide) (by decide)) fun _ => ?_
    iterate 3 refine iteInduction (fun _ => hverdict _ _ _ (by decide) (by decide)) fun _ => ?_
    iterate 3 refine iteInduction (fun _ => hother _ _ (by decide) (by decide)) fun _ => ?_
    exact hother _ _ (by decide) (by decide)
  exact hall h

theorem openings_readToken {s : Str}
    (h : (readToken s).1.type = .objectBegin ∨ (readToken s).1.type = .arrayBegin) :
    openings (readToken s).2 + 1 ≤ openings s := by
  have hspaces : skipSpaces s <:+ s := List.dropWhile_suffix _
  unfold readToken at h ⊢
  split
  · next hskipped =>
    rw [hskipped] at h
    rcases h with h | h <;> cases h
  · next c rest hskipped =>
    rw [hskipped] at h hspaces
    have hopen : (decide (c = 91) || decide (c = 123)) = true := by
      rw [Bool.or_eq_true, decide_eq_true_iff, decide_eq_true_iff]
      exact scanToken_opens h
    have hfirst : openings (c :: rest) = openings rest + 1 := List.countP_cons_of_pos hopen
    have hleft := openings_le_of_suffix (scanToken_suffix c rest)
    have hmore := openings_le_of_suffix hspaces
    dsimp only
    omega

/-- What reading a value makes of a document. -/
theorem readValue_reads (levels : ℕ) : ReadsValues levels (readValue readDouble levels) := by
  induction levels with
  | zero => exact fun value s => .error (Nat.zero_le _)
  | succ levels ih =>
    intro value s
    have hleft := (readToken_suffix s).1
    have hopens := openings_readToken (s := s)
    rw [readValue]
    generalize readToken s = read at hleft hopens ⊢
    obtain ⟨⟨type, text⟩, left⟩ := read
    have hone : max (levels + 1) 1 = levels + 1 := Nat.max_eq_left (Nat.succ_le_succ levels.zero_le)
    have hsame : ∀ ok, Reads (value.Fits (max (levels + 1) 1)) (levels + 1) (levels + 1) s
        (.ok (ok, value, left)) := by
      intro ok
      rw [hone]
      exact .ok id hleft
    have hscalar : ∀ ok {v : Value}, v.WellFormed → v.depth = 1 →
        Reads (value.Fits (max (levels + 1) 1)) (levels + 1) (levels + 1) s (.ok (ok, v, left)) :=
      fun ok v hwell hdepth => .ok (fun _ => ⟨hwell, by omega⟩) hleft
    have hcontainer : ∀ {result}, openings left + 1 ≤ openings s →
        Reads True (levels + 1) levels left result →
          Reads (value.Fits (max (levels + 1) 1)) (levels + 1) (levels + 1) s result := by
      intro result hopen hreads
      refine ⟨fun ok v left' heq _ => hreads.fits ok v left' heq trivial,
        fun ok v left' heq => (hreads.suffix ok v left' heq).trans hleft, fun error heq => ?_⟩
      obtain ⟨herror, hroom⟩ := hreads.thrown error heq
      exact ⟨herror, by omega⟩
    cases type with
    | objectBegin => exact hcontainer (hopens (Or.inl rfl)) (readObject_reads ih left)
    | arrayBegin => exact hcontainer (hopens (Or.inr rfl)) (readArray_reads ih left)
    | number =>
      dsimp only
      cases hnumber : decodeNumber readDouble text with
      | none => exact hsame false
      | some decoded =>
        obtain ⟨hwell, hdepth⟩ := decodeNumber_wellFormed hnumber
        exact hscalar true hwell hdepth
    | string =>
      dsimp only
      cases decodeString text with
      | none => exact hsame false
      | some decoded => exact hscalar true (.string decoded) rfl
    | true => exact hscalar _ (.bool true) rfl
    | false => exact hscalar _ (.bool false) rfl
    | null => exact hscalar _ .null rfl
    | _ => exact hsame false

end NodeManager.Json
