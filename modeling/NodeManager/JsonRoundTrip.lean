import NodeManager.JsonNumbers
import NodeManager.Library.ByteMemory

/-!
# Documents written and read back

What the strict reader makes of a document that the writer wrote, for every
value without doubles: the value itself with its strings and numbers read
again, as long as no value lies deeper than the stack limit of the reader, and
an exception otherwise.
-/

namespace NodeManager.Json

open ByteMemory (ok_bind)

namespace Value

mutual

/-- The value that is read back. -/
def reread : Value → Value
  | int value => rereadNumber value
  | uint value => rereadNumber value
  | string value => string (rereadString value)
  | array elements => array (rereadElements elements)
  | object members => object (rereadMembers [] members)
  | other => other

/-- The elements that are read back. -/
def rereadElements : List Value → List Value
  | [] => []
  | element :: rest => reread element :: rereadElements rest

/-- The members that are read back into the ones that are there. -/
def rereadMembers : List (Str × Value) → List (Str × Value) → List (Str × Value)
  | read, [] => read
  | read, (name, value) :: rest =>
    rereadMembers (KeyedList.set (rereadString name) (reread value) read) rest

end

/-- A value without doubles whose numbers fit in 64 bits. -/
inductive Integral : Value → Prop
  | null : Integral null
  | int {value : ℤ} : -2 ^ 63 ≤ value → value < 2 ^ 63 → Integral (int value)
  | uint {value : ℕ} : value < 2 ^ 64 → Integral (uint value)
  | string (value : Str) : Integral (string value)
  | bool (value : Bool) : Integral (bool value)
  | array {elements : List Value} : (∀ element ∈ elements, Integral element) →
      Integral (array elements)
  | object {members : List (Str × Value)} : (∀ member ∈ members, Integral member.2) →
      Integral (object members)

end Value

/-- A character that is a token of its own. -/
theorem readToken_single {c : UInt8} {type : TokenType} {rest : Str} (hspace : isSpace c = false)
    (hscan : scanToken c rest = (type, rest)) : readToken (c :: rest) = (⟨type, [c]⟩, rest) :=
  readToken_of_scan hspace (show scanToken c ([] ++ rest) = (type, rest) from hscan)

/-- Nothing is skipped behind a token that is no comment. -/
theorem skipComments_of_ne {token : Token} (h : token.type ≠ .comment) (fuel : ℕ) (s : Str) :
    skipComments fuel (token, s) = (token, s) := by
  cases fuel with
  | zero => rfl
  | succ fuel => rw [skipComments, if_neg h]

theorem readTokenPastComments_of {s left : Str} {token : Token}
    (hread : readToken s = (token, left)) (h : token.type ≠ .comment) :
    readTokenPastComments s = (token, left) := by
  rw [readTokenPastComments, hread, skipComments_of_ne h]

theorem endsNumber_of {c : UInt8} {rest : Str}
    (h : isDigit c = false ∧ c ≠ 46 ∧ c ≠ 101 ∧ c ≠ 69) : EndsNumber (c :: rest) := by
  intro c' hc'
  rw [← Option.some.inj hc']
  exact h

variable (realToString : Double → Str) (readDouble : Str → Option Double)

/-- No written value starts with a blank or with a closing bracket. -/
theorem Value.Integral.writeValue_head {v : Value} (h : v.Integral) :
    ∃ c tail, writeValue realToString v = c :: tail ∧ isSpace c = false ∧ c ≠ 93 := by
  have hnumber : ∀ value : ℤ, ∃ c tail, intToString value = c :: tail ∧ isSpace c = false ∧
      c ≠ 93 := by
    intro value
    obtain ⟨hdigits, hne, _⟩ := uintToString_digits value.natAbs
    rw [intToString]
    split
    · exact ⟨45, _, rfl, rfl, by decide⟩
    · obtain ⟨c, tail, htail⟩ := List.exists_cons_of_ne_nil hne
      refine ⟨c, tail, htail, ?_⟩
      have hc := (isDigit_iff c).mp (hdigits c (by rw [htail]; exact List.mem_cons_self))
      have hother : ∀ n : UInt8, n.toNat < 48 ∨ 57 < n.toNat → c ≠ n := by
        rintro n hn rfl
        omega
      refine ⟨?_, hother 93 (by decide)⟩
      rw [isSpace]
      simp only [hother 32 (by decide), hother 9 (by decide), hother 13 (by decide),
        hother 10 (by decide), decide_false, Bool.or_self]
  cases h with
  | null => exact ⟨110, _, rfl, rfl, by decide⟩
  | int hlow hhigh => exact hnumber _
  | uint hhigh =>
    rw [writeValue, ← intToString_natCast]
    exact hnumber _
  | string value =>
    rw [writeValue, valueToQuotedStringN_eq]
    exact ⟨34, _, rfl, rfl, by decide⟩
  | bool value => cases value <;> exact ⟨_, _, rfl, rfl, by decide⟩
  | array helements => exact ⟨91, _, rfl, rfl, by decide⟩
  | object hmembers => exact ⟨123, _, rfl, rfl, by decide⟩

section Rounds

variable {readValue : ValueReader} {value : Value} {s s₁ s₂ s₃ s₄ : Str} {token : Token}

theorem readElements_error {error : Error} (hvalue : readValue .null s = .error error)
    (fuel : ℕ) (elements : List Value) :
    readElements readValue (fuel + 1) elements s = .error error := by
  rw [readElements, hvalue]
  rfl

theorem readElements_last (hvalue : readValue .null s = .ok (true, value, s₁))
    (hnext : readTokenPastComments s₁ = (token, s₂)) (htype : token.type = .arrayEnd) (fuel : ℕ)
    (elements : List Value) : readElements readValue (fuel + 1) elements s =
      .ok (true, .array (elements ++ [value]), s₂) := by
  rw [readElements, hvalue, ok_bind]
  dsimp only
  rw [if_neg (not_not.mpr rfl), hnext]
  dsimp only
  rw [if_neg (fun h => h.2 htype), if_pos htype]
  rfl

theorem readElements_next (hvalue : readValue .null s = .ok (true, value, s₁))
    (hnext : readTokenPastComments s₁ = (token, s₂)) (htype : token.type = .arraySeparator)
    (fuel : ℕ) (elements : List Value) : readElements readValue (fuel + 1) elements s =
      readElements readValue fuel (elements ++ [value]) s₂ := by
  rw [readElements, hvalue, ok_bind]
  dsimp only
  rw [if_neg (not_not.mpr rfl), hnext]
  dsimp only
  rw [if_neg (fun h => h.1 htype), if_neg (by rw [htype]; decide)]

/-- The name and the colon that a member starts with. -/
structure StartsMember (s : Str) (name : Str) (s₂ : Str) : Prop where
  /-- The token of the name, and the colon behind it. -/
  tokens : ∃ tokenName colon s₁, readTokenPastComments s = (tokenName, s₁) ∧
    tokenName.type = .string ∧ decodeString tokenName.text = some name ∧
    readToken s₁ = (colon, s₂) ∧ colon.type = .memberSeparator

variable {name : Str} {members : List (Str × Value)}

theorem readMembers_start (h : StartsMember s name s₂) (fuel : ℕ) (last : Str) :
    readMembers readValue (fuel + 1) last members s = (do
      let (ok, value, s) ← readValue ((KeyedList.get? name members).getD .null) s₂
      let members := KeyedList.set name value members
      if ¬ok then
        return (false, .object members, recoverFromError .objectEnd s)
      let (comma, s) := readToken s
      if comma.type ≠ .objectEnd ∧ comma.type ≠ .arraySeparator ∧ comma.type ≠ .comment then
        return (false, .object members, recoverFromError .objectEnd s)
      let (comma, s) := skipComments (s.length + 1) (comma, s)
      if comma.type = .objectEnd then
        return (true, .object members, s)
      readMembers readValue fuel name members s) := by
  obtain ⟨tokenName, colon, s₁, hname, hstring, hdecode, hcolon, hmember⟩ := h.tokens
  rw [readMembers, hname]
  dsimp only
  rw [if_neg (fun h => absurd (hstring.symm.trans h.1) (by decide)),
    if_neg (not_not.mpr hstring), hdecode]
  dsimp only
  rw [hcolon]
  dsimp only
  rw [if_neg (not_not.mpr hmember)]

theorem readMembers_error (h : StartsMember s name s₂) {error : Error}
    (hvalue : readValue ((KeyedList.get? name members).getD .null) s₂ = .error error) (fuel : ℕ)
    (last : Str) : readMembers readValue (fuel + 1) last members s = .error error := by
  rw [readMembers_start h, hvalue]
  rfl

theorem readMembers_last (h : StartsMember s name s₂)
    (hvalue : readValue ((KeyedList.get? name members).getD .null) s₂ = .ok (true, value, s₃))
    (hnext : readToken s₃ = (token, s₄)) (htype : token.type = .objectEnd) (fuel : ℕ)
    (last : Str) : readMembers readValue (fuel + 1) last members s =
      .ok (true, .object (KeyedList.set name value members), s₄) := by
  rw [readMembers_start h, hvalue, ok_bind]
  dsimp only
  rw [if_neg (not_not.mpr rfl), hnext]
  dsimp only
  rw [if_neg (fun h => h.1 htype), skipComments_of_ne (by rw [htype]; decide)]
  exact if_pos htype

theorem readMembers_next (h : StartsMember s name s₂)
    (hvalue : readValue ((KeyedList.get? name members).getD .null) s₂ = .ok (true, value, s₃))
    (hnext : readToken s₃ = (token, s₄)) (htype : token.type = .arraySeparator) (fuel : ℕ)
    (last : Str) : readMembers readValue (fuel + 1) last members s =
      readMembers readValue fuel name (KeyedList.set name value members) s₄ := by
  rw [readMembers_start h, hvalue, ok_bind]
  dsimp only
  rw [if_neg (not_not.mpr rfl), hnext]
  dsimp only
  rw [if_neg (fun h => h.2.1 htype), skipComments_of_ne (by rw [htype]; decide)]
  exact if_neg (by rw [htype]; decide)

end Rounds

/-- A reader that makes of a written value what is read back of it, unless it
lies too deep. -/
def ReadsBack (levels : ℕ) (v : Value) : Prop :=
  ∀ old rest, EndsNumber rest →
    readValue readDouble levels old (writeValue realToString v ++ rest) =
      if v.depth ≤ levels then .ok (true, v.reread, rest) else .error .runtimeError

section Loops

variable {realToString readDouble} {levels : ℕ} {left : Str}

theorem ReadsBack.ok {v : Value} (h : ReadsBack realToString readDouble levels v)
    (hdeep : v.depth ≤ levels) (old : Value) {rest : Str} (hrest : EndsNumber rest) :
    readValue readDouble levels old (writeValue realToString v ++ rest) =
      .ok (true, v.reread, rest) :=
  (h old rest hrest).trans (if_pos hdeep)

theorem ReadsBack.error {v : Value} (h : ReadsBack realToString readDouble levels v)
    (hdeep : ¬v.depth ≤ levels) (old : Value) {rest : Str} (hrest : EndsNumber rest) :
    readValue readDouble levels old (writeValue realToString v ++ rest) = .error .runtimeError :=
  (h old rest hrest).trans (if_neg hdeep)

theorem readElements_writeElements {elements : List Value} (hne : elements ≠ [])
    (hback : ∀ element ∈ elements, ReadsBack realToString readDouble levels element) {fuel : ℕ}
    (read : List Value)
    (hfuel : (writeElements realToString true elements ++ 93 :: left).length < fuel) :
    readElements (readValue readDouble levels) fuel read
        (writeElements realToString true elements ++ 93 :: left) =
      if Value.depthElements elements ≤ levels then
        .ok (true, .array (read ++ Value.rereadElements elements), left)
      else .error .runtimeError := by
  induction elements generalizing fuel read with
  | nil => exact absurd rfl hne
  | cons element elements ih =>
    have hfirst := hback element List.mem_cons_self
    have hwritten : writeElements realToString true (element :: elements) ++ 93 :: left =
        writeValue realToString element ++
          (writeElements realToString false elements ++ 93 :: left) := by
      rw [writeElements, if_pos rfl, List.nil_append, List.append_assoc]
    obtain ⟨fuel, rfl⟩ := Nat.exists_eq_add_one_of_ne_zero (show fuel ≠ 0 by omega)
    rw [hwritten] at hfuel ⊢
    rw [Value.depthElements]
    by_cases hdeep : element.depth ≤ levels
    · cases elements with
      | nil =>
        have hend : readToken (93 :: left) = (⟨.arrayEnd, [93]⟩, left) :=
          readToken_single rfl rfl
        rw [if_pos (by rw [Value.depthElements]; omega)]
        exact readElements_last (hfirst.ok hdeep _ (endsNumber_of (by decide)))
          (readTokenPastComments_of hend (by decide)) rfl fuel read
      | cons next more =>
        have hnext : writeElements realToString false (next :: more) ++ 93 :: left =
            44 :: (writeElements realToString true (next :: more) ++ 93 :: left) := rfl
        have hcomma : ∀ s, readToken (44 :: s) = (⟨.arraySeparator, [44]⟩, s) :=
          fun s => readToken_single rfl rfl
        have hlength : (writeElements realToString true (next :: more) ++ 93 :: left).length <
            fuel := by
          rw [hnext, List.length_append, List.length_cons] at hfuel
          omega
        have hrest := ih (List.cons_ne_nil _ _)
          (fun element helement => hback element (List.mem_cons_of_mem _ helement))
          (read ++ [element.reread]) hlength
        rw [hnext, readElements_next (hfirst.ok hdeep _ (endsNumber_of (by decide)))
          (readTokenPastComments_of (hcomma _) (by decide)) rfl, hrest, List.append_assoc]
        simp only [Nat.max_le, hdeep, true_and]
        rfl
    · rw [if_neg (by omega)]
      refine readElements_error (hfirst.error hdeep _ ?_) fuel read
      cases elements with
      | nil => exact endsNumber_of (by decide)
      | cons next more => exact endsNumber_of (by decide)

/-- The name of a member that was written. -/
theorem startsMember_quoted (name rest : Str) :
    StartsMember (valueToQuotedStringN name ++ 58 :: rest) (rereadString name) rest := by
  have htype : TokenType.string ≠ .comment := by decide
  exact ⟨_, _, _, readTokenPastComments_of (readToken_quoted name _) htype, rfl,
    decodeString_quoted name, readToken_single rfl rfl, rfl⟩

theorem readMembers_writeMembers {members : List (Str × Value)} (hne : members ≠ [])
    (hback : ∀ member ∈ members, ReadsBack realToString readDouble levels member.2) {fuel : ℕ}
    (last : Str) (read : List (Str × Value))
    (hfuel : (writeMembers realToString true members ++ 125 :: left).length < fuel) :
    readMembers (readValue readDouble levels) fuel last read
        (writeMembers realToString true members ++ 125 :: left) =
      if Value.depthMembers members ≤ levels then
        .ok (true, .object (Value.rereadMembers read members), left)
      else .error .runtimeError := by
  induction members generalizing fuel last read with
  | nil => exact absurd rfl hne
  | cons member members ih =>
    obtain ⟨name, value⟩ := member
    have hfirst : ReadsBack realToString readDouble levels value :=
      hback (name, value) List.mem_cons_self
    have hwritten : writeMembers realToString true ((name, value) :: members) ++ 125 :: left =
        valueToQuotedStringN name ++ 58 :: (writeValue realToString value ++
          (writeMembers realToString false members ++ 125 :: left)) := by
      rw [writeMembers, if_pos rfl, List.nil_append]
      simp only [List.append_assoc, List.cons_append, List.nil_append]
    obtain ⟨fuel, rfl⟩ := Nat.exists_eq_add_one_of_ne_zero (show fuel ≠ 0 by omega)
    rw [hwritten] at hfuel ⊢
    have hstart := startsMember_quoted name (writeValue realToString value ++
      (writeMembers realToString false members ++ 125 :: left))
    rw [Value.depthMembers]
    by_cases hdeep : value.depth ≤ levels
    · cases members with
      | nil =>
        have hend : readToken (125 :: left) = (⟨.objectEnd, [125]⟩, left) :=
          readToken_single rfl rfl
        rw [if_pos (by rw [Value.depthMembers]; omega)]
        exact readMembers_last hstart (hfirst.ok hdeep _ (endsNumber_of (by decide))) hend rfl
          fuel last
      | cons next more =>
        have hnext : writeMembers realToString false (next :: more) ++ 125 :: left =
            44 :: (writeMembers realToString true (next :: more) ++ 125 :: left) := rfl
        have hcomma : ∀ s, readToken (44 :: s) = (⟨.arraySeparator, [44]⟩, s) :=
          fun s => readToken_single rfl rfl
        have hlength : (writeMembers realToString true (next :: more) ++ 125 :: left).length <
            fuel := by
          rw [hnext] at hfuel
          simp only [List.length_append, List.length_cons] at hfuel ⊢
          omega
        have hrest := ih (List.cons_ne_nil _ _)
          (fun member hmember => hback member (List.mem_cons_of_mem _ hmember))
          (rereadString name) (KeyedList.set (rereadString name) value.reread read) hlength
        rw [hnext] at hstart ⊢
        rw [readMembers_next hstart (hfirst.ok hdeep _ (endsNumber_of (by decide))) (hcomma _)
          rfl, hrest]
        simp only [Nat.max_le, hdeep, true_and]
        rfl
    · rw [if_neg (by omega)]
      refine readMembers_error hstart (hfirst.error hdeep _ ?_) fuel last
      cases members with
      | nil => exact endsNumber_of (by decide)
      | cons next more => exact endsNumber_of (by decide)

theorem writeArray_append (elements : List Value) (rest : Str) :
    writeValue realToString (.array elements) ++ rest =
      91 :: (writeElements realToString true elements ++ 93 :: rest) := by
  rw [writeValue]
  simp only [List.append_assoc, List.cons_append, List.nil_append]

theorem writeObject_append (members : List (Str × Value)) (rest : Str) :
    writeValue realToString (.object members) ++ rest =
      123 :: (writeMembers realToString true members ++ 125 :: rest) := by
  rw [writeValue]
  simp only [List.append_assoc, List.cons_append, List.nil_append]

theorem readArray_writeElements {elements : List Value}
    (hintegral : ∀ element ∈ elements, element.Integral)
    (hback : ∀ element ∈ elements, ReadsBack realToString readDouble levels element) :
    readArray (readValue readDouble levels)
        (writeElements realToString true elements ++ 93 :: left) =
      if Value.depthElements elements ≤ levels then
        .ok (true, .array (Value.rereadElements elements), left)
      else .error .runtimeError := by
  cases elements with
  | nil => exact (if_pos (Nat.zero_le levels)).symm
  | cons element more =>
    have hloop := readElements_writeElements (List.cons_ne_nil element more) hback []
      (Nat.lt_succ_self (writeElements realToString true (element :: more) ++ 93 :: left).length)
    obtain ⟨c, tail, hhead, hspace, hclose⟩ :=
      (hintegral element List.mem_cons_self).writeValue_head realToString
    obtain ⟨text, htext⟩ : ∃ text, writeElements realToString true (element :: more) ++
        93 :: left = c :: text := by
      rw [writeElements, if_pos rfl, hhead]
      exact ⟨_, rfl⟩
    have hskip : skipSpaces (c :: text) = c :: text := by
      rw [skipSpaces, List.dropWhile_cons, hspace, if_neg Bool.false_ne_true]
    rw [htext] at hloop ⊢
    rw [readArray, hskip]
    split
    · next heq => exact absurd (List.cons.inj heq).1 hclose
    · exact hloop

theorem readObject_writeMembers {members : List (Str × Value)}
    (hback : ∀ member ∈ members, ReadsBack realToString readDouble levels member.2) :
    readObject (readValue readDouble levels)
        (writeMembers realToString true members ++ 125 :: left) =
      if Value.depthMembers members ≤ levels then
        .ok (true, .object (Value.rereadMembers [] members), left)
      else .error .runtimeError := by
  cases members with
  | nil => exact (if_pos (Nat.zero_le levels)).symm
  | cons member more =>
    exact readMembers_writeMembers (List.cons_ne_nil _ _) hback [] [] (Nat.lt_succ_self _)

end Loops

theorem readToken_word {c : UInt8} {type : TokenType} (word : Str) (rest : Str)
    (hspace : isSpace c = false)
    (hscan : scanToken c (word ++ rest) = (type.unlessBad (matchPattern word (word ++ rest)).1,
      (matchPattern word (word ++ rest)).2)) :
    readToken (c :: (word ++ rest)) = (⟨type, c :: word⟩, rest) := by
  have hmatch : matchPattern word (word ++ rest) = (true, rest) := by
    rw [matchPattern, if_pos (List.isPrefixOf_iff_prefix.mpr (List.prefix_append _ _)),
      List.drop_left]
  rw [hmatch] at hscan
  exact readToken_of_scan hspace hscan

/-- A written value is read back, whatever follows it. -/
theorem readsBack (levels : ℕ) {v : Value} (hv : v.Integral) :
    ReadsBack realToString readDouble levels v := by
  induction levels generalizing v with
  | zero =>
    intro old rest hrest
    have hpos := v.depth_pos
    rw [if_neg (by omega), readValue]
  | succ levels ih =>
    intro old rest hrest
    have hscalar : ∀ {v : Value}, v.depth = 1 → readValue readDouble (levels + 1) old
        (writeValue realToString v ++ rest) = .ok (true, v.reread, rest) →
          readValue readDouble (levels + 1) old (writeValue realToString v ++ rest) =
            if v.depth ≤ levels + 1 then .ok (true, v.reread, rest)
            else .error .runtimeError := by
      intro v hdepth hok
      rw [hok, if_pos (by omega)]
    have hnumber : ∀ value : ℤ, -2 ^ 63 ≤ value → value < 2 ^ 64 →
        readValue readDouble (levels + 1) old (intToString value ++ rest) =
          .ok (true, rereadNumber value, rest) := by
      intro value hlow hhigh
      rw [readValue, readToken_intToString value hrest]
      dsimp only
      rw [decodeNumber_intToString readDouble hlow hhigh]
    cases hv with
    | null =>
      have hread : readToken (chars "null" ++ rest) = (⟨.null, chars "null"⟩, rest) :=
        readToken_word (chars "ull") rest rfl rfl
      refine hscalar rfl ?_
      rw [writeValue, readValue, hread]
      rfl
    | int hlow hhigh => exact hscalar rfl (hnumber _ hlow (by omega))
    | uint hhigh =>
      refine hscalar rfl ?_
      rw [writeValue, ← intToString_natCast]
      exact hnumber _ (by omega) (by omega)
    | string value =>
      refine hscalar rfl ?_
      rw [writeValue, readValue, readToken_quoted]
      dsimp only
      rw [decodeString_quoted]
      rfl
    | bool value =>
      refine hscalar rfl ?_
      cases value with
      | true =>
        have hread : readToken (chars "true" ++ rest) = (⟨.true, chars "true"⟩, rest) :=
          readToken_word (chars "rue") rest rfl rfl
        rw [writeValue, boolToString, if_pos rfl, readValue, hread]
        rfl
      | false =>
        have hread : readToken (chars "false" ++ rest) = (⟨.false, chars "false"⟩, rest) :=
          readToken_word (chars "alse") rest rfl rfl
        rw [writeValue, boolToString, if_neg Bool.false_ne_true, readValue, hread]
        rfl
    | array helements =>
      have hopen : ∀ s, readToken (91 :: s) = (⟨.arrayBegin, [91]⟩, s) :=
        fun s => readToken_single rfl rfl
      rw [writeArray_append, readValue, hopen]
      dsimp only
      rw [readArray_writeElements helements fun element helement => ih (helements element helement)]
      simp only [Value.depth, Nat.add_le_add_iff_right]
      rfl
    | object hmembers =>
      have hopen : ∀ s, readToken (123 :: s) = (⟨.objectBegin, [123]⟩, s) :=
        fun s => readToken_single rfl rfl
      rw [writeObject_append, readValue, hopen]
      dsimp only
      rw [readObject_writeMembers fun member hmember => ih (hmembers member hmember)]
      simp only [Value.depth, Nat.add_le_add_iff_right]
      rfl

/-- Whether a document can be a strict root. -/
theorem Value.isContainer_reread (v : Value) : v.reread.isContainer = v.isContainer := by
  cases v with
  | int value =>
    rw [reread, rereadNumber]
    split <;> rfl
  | uint value =>
    rw [reread, rereadNumber]
    split <;> rfl
  | _ => rfl

/-- A root that was read. -/
theorem strictParse_ok {root v : Value} {document left : Str}
    (hread : readValue readDouble stackLimit root document = .ok (true, v, left))
    (hcontainer : v.isContainer = true) : strictParse readDouble root document = .ok (true, v) := by
  rw [strictParse, hread, ok_bind]
  dsimp only
  rw [if_neg (not_not.mpr hcontainer)]
  rfl

/-- An array or an object without doubles that was written is read back with its
strings and numbers read again, or exceeds the stack of the reader. -/
theorem strictParse_write {v : Value} (hv : v.Integral) (hcontainer : v.isContainer = true)
    (root : Value) : strictParse readDouble root (write realToString v) =
      if v.depth ≤ stackLimit then .ok (true, v.reread) else .error .runtimeError := by
  have hback := readsBack realToString readDouble stackLimit hv
  have hend : EndsNumber [10] := endsNumber_of (by decide)
  rw [write]
  by_cases hdeep : v.depth ≤ stackLimit
  · rw [if_pos hdeep]
    exact strictParse_ok readDouble (hback.ok hdeep root hend)
      (v.isContainer_reread.trans hcontainer)
  · rw [if_neg hdeep, strictParse, hback.error hdeep root hend]
    rfl

/-- A byte that no character starts with comes back as the replacement character,
and a small number without a sign as one with a sign. -/
theorem strictParse_write_replaced :
    strictParse (fun _ => none) .null (write (fun _ => []) (.array [.string [0xFF], .uint 7])) =
      .ok (true, .array [.string [0xEF, 0xBF, 0xBD], .int 7]) := by
  have hintegral : (Value.array [.string [0xFF], .uint 7]).Integral :=
    .array (List.forall_mem_cons.mpr ⟨.string _, List.forall_mem_singleton.mpr (.uint (by decide))⟩)
  rw [strictParse_write _ _ hintegral rfl, if_pos (by decide)]
  rfl

end NodeManager.Json
