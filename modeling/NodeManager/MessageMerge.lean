import NodeManager.Message

/-!
# Field by field through a login

The loop of `_InternalParse` cut into reading one field and storing it, over
any reading functions that obey the laws of the wire format. A field takes a
front part of the input only, so accepted inputs can be put one behind the
other, and the second one then acts on the message of the first as
`MergeFrom` does.
-/

namespace NodeManager.ReqNodeLogin

open ProtobufWire

/-- What one round of the loop reads. -/
inductive Field
  | ip (s : Str)
  | port (v : Int32)
  | city (s : Str)
  | name (s : Str)
  /-- A field that the message does not have, or one of another wire type. -/
  | unknown
  deriving DecidableEq

/-- A string field up to the store. -/
def readStringField (r : Reader) (make : Str → Field) (bs : List UInt8) :
    Option (Field × List UInt8) :=
  match r.readString [] bs with
  | (_, none) => none
  | (s, some rest) => if r.verifyUtf8 s then some (make s, rest) else none

/-- One round behind the tag up to the store; the zero tag and end-group tags are
no field. -/
def readBody (r : Reader) (tag : UInt32) (bs : List UInt8) : Option (Field × List UInt8) :=
  if tag = 10 then readStringField r .ip bs
  else if tag = 16 then
    match r.readVarint bs with
    | (_, none) => none
    | (v, some rest) => some (.port v.toInt64.toInt32, rest)
  else if tag = 26 then readStringField r .city bs
  else if tag = 34 then readStringField r .name bs
  else if tag.toNat % 8 = 4 ∨ tag = 0 then none
  else (r.skipField tag bs).map fun rest => (.unknown, rest)

/-- One round up to the store. -/
def readField (r : Reader) (bs : List UInt8) : Option (Field × List UInt8) :=
  (r.readTag bs).bind fun (tag, rest) => readBody r tag rest

/-- The string of a field is valid. -/
def Field.Utf8 : Field → Prop
  | .ip s | .city s | .name s => validUtf8 s = true
  | .port _ | .unknown => True

/-- The store of one round. -/
def Field.set (m : ReqNodeLogin) : Field → ReqNodeLogin
  | .ip s => { m with ip := s }
  | .port v => { m with port := v }
  | .city s => { m with city := s }
  | .name s => { m with name := s }
  | .unknown => m

/-- `MergeFrom`: what `other` has set replaces what is there. -/
def mergeFrom (m other : ReqNodeLogin) : ReqNodeLogin where
  ip := if 0 < other.ip.length then other.ip else m.ip
  city := if 0 < other.city.length then other.city else m.city
  name := if 0 < other.name.length then other.name else m.name
  port := if other.port ≠ 0 then other.port else m.port

section Rounds

variable {r : Reader} (h : r.Lawful) {bs rest : List UInt8} {field : Field}
include h

/-- What was in the string before the read does not matter. -/
theorem parseString_eq (set : Str → ReqNodeLogin) (make : Str → Field) (m : ReqNodeLogin)
    (hset : ∀ s, (make s).set m = set s) (old : Str) (hlen : bs.length < sizeLimit) :
    match readStringField r make bs with
    | none => (parseString r set old bs).2 = none
    | some (field, rest) => parseString r set old bs = (field.set m, some rest) := by
  have hself : (bs ++ []).length < sizeLimit := by rwa [List.append_nil]
  have hany : ∀ old old' s rest, r.readString old bs = (s, some rest) →
      r.readString old' bs = (s, some rest) := by
    intro old old' s rest hread
    have hagain := (h.readString_append hread).2 old' [] hself
    rwa [List.append_nil, List.append_nil] at hagain
  rw [readStringField, parseString]
  cases hread : r.readString old bs with
  | mk s after =>
    cases after with
    | some rest =>
      rw [hany old [] s rest hread]
      dsimp only
      by_cases hutf8 : r.verifyUtf8 s = true
      · rw [if_pos hutf8, if_pos hutf8]
        exact congrArg (·, some rest) (hset s).symm
      · rw [if_neg hutf8, if_neg hutf8]
    | none =>
      cases hfresh : r.readString [] bs with
      | mk s' after' =>
        cases after' with
        | some rest =>
          rw [hany [] old s' rest hfresh] at hread
          cases hread
        | none =>
          dsimp only
          split
          · rfl
          · rfl

/-- A round stores the field that it reads, and without one the loop ends. -/
theorem parseField_eq (m : ReqNodeLogin) (tag : UInt32) (hlen : bs.length < sizeLimit) :
    match readBody r tag bs with
    | none => (parseField r m tag bs).2 = none
    | some (field, rest) => parseField r m tag bs = (field.set m, some rest) := by
  unfold readBody parseField
  by_cases hip : tag = 10
  · rw [if_pos hip, if_pos hip]
    exact parseString_eq h _ .ip m (fun _ => rfl) m.ip hlen
  · rw [if_neg hip, if_neg hip]
    by_cases hport : tag = 16
    · rw [if_pos hport, if_pos hport]
      generalize r.readVarint bs = result
      obtain ⟨v, after⟩ := result
      cases after with
      | none => rfl
      | some rest => rfl
    · rw [if_neg hport, if_neg hport]
      by_cases hcity : tag = 26
      · rw [if_pos hcity, if_pos hcity]
        exact parseString_eq h _ .city m (fun _ => rfl) m.city hlen
      · rw [if_neg hcity, if_neg hcity]
        by_cases hname : tag = 34
        · rw [if_pos hname, if_pos hname]
          exact parseString_eq h _ .name m (fun _ => rfl) m.name hlen
        · rw [if_neg hname, if_neg hname]
          by_cases hend : tag.toNat % 8 = 4 ∨ tag = 0
          · rw [if_pos hend, if_pos hend]
          · rw [if_neg hend, if_neg hend]
            cases r.skipField tag bs with
            | none => rfl
            | some rest => rfl

theorem readStringField_append {make : Str → Field}
    (hread : readStringField r make bs = some (field, rest)) :
    rest.length < bs.length ∧
      ∀ more, (bs ++ more).length < sizeLimit →
        readStringField r make (bs ++ more) = some (field, rest ++ more) := by
  rw [readStringField] at hread
  cases hstring : r.readString [] bs with
  | mk s after =>
    rw [hstring] at hread
    cases after with
    | none => cases hread
    | some rest' =>
      dsimp only at hread
      obtain ⟨hlt, hagain⟩ := h.readString_append hstring
      split at hread
      · next hutf8 =>
        cases hread
        refine ⟨hlt, fun more hlen => ?_⟩
        rw [readStringField, hagain [] more hlen]
        dsimp only
        rw [if_pos hutf8]
      · cases hread

/-- A field that was read is read again whatever follows it. -/
theorem readField_append (hread : readField r bs = some (field, rest)) :
    rest.length < bs.length ∧ ∀ more, (bs ++ more).length < sizeLimit →
      readField r (bs ++ more) = some (field, rest ++ more) := by
  obtain ⟨⟨tag, left⟩, htag, hbody⟩ := Option.bind_eq_some_iff.mp hread
  obtain ⟨hlt, htag'⟩ := h.readTag_append htag
  have hwhole : (rest.length < left.length ∧
      ∀ more, (left ++ more).length < sizeLimit →
        readBody r tag (left ++ more) = some (field, rest ++ more)) →
      rest.length < bs.length ∧ ∀ more, (bs ++ more).length < sizeLimit →
        readField r (bs ++ more) = some (field, rest ++ more) := by
    rintro ⟨hshort, hagain⟩
    refine ⟨hshort.trans hlt, fun more hlen => ?_⟩
    have hleft : (left ++ more).length < sizeLimit := by
      rw [List.length_append] at hlen ⊢
      omega
    rw [readField, htag' more hlen, Option.bind_some]
    exact hagain more hleft
  refine hwhole ?_
  unfold readBody at hbody ⊢
  dsimp only at hbody
  split at hbody
  · next htag =>
    simp only [if_pos htag]
    exact readStringField_append h hbody
  · next hip =>
    simp only [if_neg hip]
    split at hbody
    · next hport =>
      simp only [if_pos hport]
      cases hvarint : r.readVarint left with
      | mk v after =>
        rw [hvarint] at hbody
        cases after with
        | none => cases hbody
        | some rest' =>
          cases hbody
          obtain ⟨hshort, hagain⟩ := h.readVarint_append hvarint
          refine ⟨hshort, fun more hlen => ?_⟩
          rw [hagain more hlen]
    · next hport =>
      simp only [if_neg hport]
      split at hbody
      · next hcity =>
        simp only [if_pos hcity]
        exact readStringField_append h hbody
      · next hcity =>
        simp only [if_neg hcity]
        split at hbody
        · next hname =>
          simp only [if_pos hname]
          exact readStringField_append h hbody
        · next hname =>
          simp only [if_neg hname]
          split at hbody
          · cases hbody
          · next hend =>
            simp only [if_neg hend]
            obtain ⟨rest', hskip, hpair⟩ := Option.map_eq_some_iff.mp hbody
            cases hpair
            obtain ⟨hshort, hagain⟩ := h.skipField_append hskip
            refine ⟨hshort, fun more hlen => ?_⟩
            rw [hagain more hlen]
            rfl

theorem readStringField_utf8 (make : Str → Field)
    (hmake : ∀ s, validUtf8 s = true → (make s).Utf8)
    (hread : readStringField r make bs = some (field, rest)) : field.Utf8 := by
  rw [readStringField] at hread
  split at hread
  · cases hread
  · next s rest' _ =>
    split at hread
    · next hutf8 =>
      cases hread
      rw [h.verifyUtf8_eq] at hutf8
      exact hmake s hutf8
    · cases hread

/-- Only verified strings are stored. -/
theorem readField_utf8 (hread : readField r bs = some (field, rest)) : field.Utf8 := by
  obtain ⟨⟨tag, left⟩, _, hbody⟩ := Option.bind_eq_some_iff.mp hread
  unfold readBody at hbody
  dsimp only at hbody
  split at hbody
  · exact readStringField_utf8 h .ip (fun _ hs => hs) hbody
  · split at hbody
    · split at hbody
      · cases hbody
      · cases hbody
        trivial
    · split at hbody
      · exact readStringField_utf8 h .city (fun _ hs => hs) hbody
      · split at hbody
        · exact readStringField_utf8 h .name (fun _ hs => hs) hbody
        · split at hbody
          · cases hbody
          · obtain ⟨rest', _, hpair⟩ := Option.map_eq_some_iff.mp hbody
            cases hpair
            trivial

/-- A round of the loop in terms of the field that it reads. -/
theorem internalParse_cons (fuel : ℕ) (m : ReqNodeLogin) {b : UInt8} {bs : List UInt8}
    (hlen : (b :: bs).length < sizeLimit) :
    match readField r (b :: bs) with
    | none => (internalParse r (fuel + 1) m (b :: bs)).1 = false
    | some (field, rest) =>
      internalParse r (fuel + 1) m (b :: bs) = internalParse r fuel (field.set m) rest := by
  rw [internalParse, readField]
  cases htag : r.readTag (b :: bs) with
  | none => rfl
  | some result =>
    obtain ⟨tag, left⟩ := result
    have hleft : left.length < sizeLimit := (h.readTag_append htag).1.trans hlen
    have hround := parseField_eq h m tag hleft
    dsimp only [Option.bind_some]
    cases hbody : readBody r tag left with
    | none =>
      rw [hbody] at hround
      cases hparse : parseField r m tag left with
      | mk m' after =>
        rw [hparse] at hround
        obtain rfl : after = none := hround
        rfl
    | some result =>
      obtain ⟨field, rest⟩ := result
      rw [hbody] at hround
      dsimp only at hround ⊢
      rw [hround]

end Rounds

/-- Every string of the message satisfies a predicate. -/
def Strings (P : Str → Prop) (m : ReqNodeLogin) : Prop := P m.ip ∧ P m.city ∧ P m.name

/-- The input is a row of fields with valid strings. -/
inductive Reads (r : Reader) : List UInt8 → List Field → Prop
  | done : Reads r [] []
  | field {bs rest : List UInt8} {f : Field} {fs : List Field}
      (hread : readField r bs = some (f, rest)) (hrest : Reads r rest fs) : Reads r bs (f :: fs)

namespace Reads

variable {r : Reader} (hr : r.Lawful) {bs bs' more : List UInt8} {fs fs' : List Field}
  {m m' : ReqNodeLogin} {fuel : ℕ}
include hr

theorem append (h : Reads r bs fs) (h' : Reads r bs' fs')
    (hlen : (bs ++ bs').length < sizeLimit) : Reads r (bs ++ bs') (fs ++ fs') := by
  induction h with
  | done => exact h'
  | @field bs rest f fs hread _ ih =>
    obtain ⟨hlt, hagain⟩ := readField_append hr hread
    have hrest : (rest ++ bs').length < sizeLimit := by
      rw [List.length_append] at hlen ⊢
      omega
    exact .field (hagain bs' hlen) (ih hrest)

/-- The loop stores the fields in their order and goes on behind them. -/
theorem internalParse (h : Reads r bs fs) (hlen : (bs ++ more).length < sizeLimit)
    (hfuel : (bs ++ more).length < fuel) :
    ∃ fuel', more.length < fuel' ∧ ReqNodeLogin.internalParse r fuel m (bs ++ more) =
      ReqNodeLogin.internalParse r fuel' (fs.foldl Field.set m) more := by
  induction h generalizing fuel m with
  | done => exact ⟨fuel, hfuel, rfl⟩
  | @field bs rest f fs hread _ ih =>
    obtain ⟨hlt, hagain⟩ := readField_append hr hread
    obtain ⟨b, bs, rfl⟩ : ∃ b bs', bs = b :: bs' :=
      List.exists_cons_of_length_pos (Nat.zero_lt_of_lt hlt)
    obtain ⟨k, rfl⟩ : ∃ k, fuel = k + 1 := ⟨fuel - 1, by omega⟩
    have hshorter : (rest ++ more).length < (b :: bs ++ more).length := by
      rw [List.length_append, List.length_append]
      omega
    obtain ⟨fuel', hfuel', hrest⟩ : ∃ fuel', more.length < fuel' ∧
        ReqNodeLogin.internalParse r k (f.set m) (rest ++ more) =
          ReqNodeLogin.internalParse r fuel' (fs.foldl Field.set (f.set m)) more :=
      ih (hshorter.trans hlen) (by omega)
    refine ⟨fuel', hfuel', ?_⟩
    have hwhole : (b :: (bs ++ more)).length < sizeLimit := hlen
    have hround := internalParse_cons hr k m hwhole
    rw [← List.cons_append, hagain more hlen] at hround
    dsimp only at hround
    rw [hround, hrest, List.foldl_cons]

/-- An accepted input is a row of fields. -/
theorem of_internalParse (hlen : bs.length < sizeLimit)
    (h : ReqNodeLogin.internalParse r fuel m bs = (true, m')) :
    ∃ fs, Reads r bs fs ∧ fs.foldl Field.set m = m' := by
  induction fuel generalizing m bs with
  | zero => cases h
  | succ fuel ih =>
    cases bs with
    | nil =>
      cases h
      exact ⟨[], .done, rfl⟩
    | cons b bs =>
      have hround := internalParse_cons hr fuel m hlen
      cases hread : readField r (b :: bs) with
      | none =>
        rw [hread, h] at hround
        cases hround
      | some result =>
        obtain ⟨f, rest⟩ := result
        rw [hread, h] at hround
        obtain ⟨fs, hfs, hfold⟩ := ih ((readField_append hr hread).1.trans hlen) hround.symm
        exact ⟨f :: fs, .field hread hfs, hfold⟩

/-- The strings of the message are verified. -/
theorem utf8 (h : Reads r bs fs) (hm : m.Utf8) : (fs.foldl Field.set m).Utf8 := by
  induction h generalizing m with
  | done => exact hm
  | @field bs rest f fs hread _ ih =>
    have hvalid := readField_utf8 hr hread
    refine ih ?_
    obtain ⟨hip, hcity, hname⟩ := hm
    cases f with
    | ip s => exact ⟨hvalid, hcity, hname⟩
    | port v => exact ⟨hip, hcity, hname⟩
    | city s => exact ⟨hip, hvalid, hname⟩
    | name s => exact ⟨hip, hcity, hvalid⟩
    | unknown => exact ⟨hip, hcity, hname⟩

end Reads

/-- The fields that `_InternalSerialize` writes. -/
def fields (m : ReqNodeLogin) : List Field :=
  (if m.ip = [] then [] else [.ip m.ip]) ++ (if m.port = 0 then [] else [.port m.port]) ++
    (if m.city = [] then [] else [.city m.city]) ++ (if m.name = [] then [] else [.name m.name])

/-- Storing the fields of a message is merging it. -/
theorem foldl_fields (m other : ReqNodeLogin) :
    other.fields.foldl Field.set m = m.mergeFrom other := by
  have hpos : ∀ s : Str, 0 < s.length ↔ s ≠ [] := fun s => List.length_pos_iff
  simp only [fields, mergeFrom, hpos, ite_not, List.foldl_append]
  by_cases hip : other.ip = []
  all_goals by_cases hport : other.port = 0
  all_goals by_cases hcity : other.city = []
  all_goals by_cases hname : other.name = []
  all_goals simp only [hip, hport, hcity, hname, if_true, if_false, List.foldl_nil,
    List.foldl_cons, Field.set]

theorem mergeFrom_default (m : ReqNodeLogin) : ({} : ReqNodeLogin).mergeFrom m = m := by
  have hstring : ∀ s : Str, (if 0 < s.length then s else []) = s := by
    intro s
    split
    · rfl
    · next hs => exact (List.eq_nil_of_length_eq_zero (Nat.eq_zero_of_not_pos hs)).symm
  have hport : (if m.port ≠ 0 then m.port else 0) = m.port := by
    split
    · rfl
    · next hport => exact (not_not.mp hport).symm
  ext1
  · exact hstring m.ip
  · exact hport
  · exact hstring m.city
  · exact hstring m.name

section Serialized

variable {r : Reader} (hr : r.Lawful)
include hr

theorem reads_stringField {s : Str} (tag : UInt8) (make : Str → Field) (htag : tag.toNat < 128)
    (hbody : ∀ bs, readBody r tag.toUInt32 bs = readStringField r make bs)
    (hutf8 : validUtf8 s = true) (hlen : (stringField tag s).length < sizeLimit) :
    Reads r (stringField tag s) (if s = [] then [] else [make s]) := by
  rw [stringField] at hlen ⊢
  by_cases hs : s = []
  · rw [if_pos hs, if_pos hs]
    exact .done
  · rw [if_neg hs] at hlen
    rw [if_neg hs, if_neg hs]
    have hbytes : (encodeBytes s ++ []).length < sizeLimit := by
      rw [List.append_nil]
      exact (Nat.lt_succ_self _).trans hlen
    have hstring := hr.readString_encodeBytes (s := s) [] [] hbytes
    rw [List.append_nil] at hstring
    have hfield : readField r (tag :: encodeBytes s) = some (make s, []) := by
      rw [readField, hr.readTag_cons _ htag, Option.bind_some]
      dsimp only
      rw [hbody, readStringField, hstring]
      dsimp only
      rw [hr.verifyUtf8_eq, hutf8, if_pos rfl]
    exact .field hfield .done

theorem reads_portField (v : Int32) :
    Reads r (int32Field 16 v) (if v = 0 then [] else [.port v]) := by
  rw [int32Field]
  by_cases hv : v = 0
  · rw [if_pos hv, if_pos hv]
    exact .done
  · have hvarint := hr.readVarint_encodeVarint v.toInt64.toUInt64 []
    rw [List.append_nil] at hvarint
    have hback : v.toInt64.toUInt64.toInt64.toInt32 = v := by
      rw [Int64.toInt64_toUInt64, Int32.toInt32_toInt64]
    have htag : (16 : UInt8).toNat < 128 := by decide
    have hbody : ∀ bs, readBody r (16 : UInt8).toUInt32 bs = match r.readVarint bs with
        | (_, none) => none
        | (v, some rest) => some (.port v.toInt64.toInt32, rest) := fun _ => rfl
    have hfield : readField r (16 :: encodeVarint v.toInt64.toUInt64) = some (.port v, []) := by
      rw [readField, hr.readTag_cons _ htag, Option.bind_some]
      dsimp only
      rw [hbody, hvarint]
      dsimp only
      rw [hback]
    rw [if_neg hv, if_neg hv]
    exact .field hfield .done

theorem reads_serialize {m : ReqNodeLogin} (hutf8 : m.Utf8)
    (hlen : m.serialize.length < sizeLimit) : Reads r m.serialize m.fields := by
  obtain ⟨hip, hcity, hname⟩ := hutf8
  have hall := hlen
  simp only [serialize, List.length_append] at hall
  have hshort : ∀ {front back : List UInt8}, (front ++ back).length < sizeLimit →
      front.length < sizeLimit := by
    intro front back hlen
    rw [List.length_append] at hlen
    omega
  have hipField := reads_stringField hr 10 .ip (by decide) (fun _ => rfl) hip (by omega)
  have hcityField :=
    reads_stringField hr 26 .city (by decide) (fun _ => rfl) hcity (by omega)
  have hnameField :=
    reads_stringField hr 34 .name (by decide) (fun _ => rfl) hname (by omega)
  exact ((hipField.append hr (reads_portField hr m.port) (hshort (hshort hlen))).append hr
    hcityField (hshort hlen)).append hr hnameField hlen

/-- What the parser accepts is a row of fields, stored one after the other. -/
theorem parseWith_true_iff {bs : List UInt8} {m : ReqNodeLogin} (hlen : bs.length < sizeLimit) :
    parseWith r bs = (true, m) ↔ ∃ fs, Reads r bs fs ∧ fs.foldl Field.set {} = m := by
  refine ⟨Reads.of_internalParse hr hlen, ?_⟩
  rintro ⟨fs, hfs, rfl⟩
  have hself : (bs ++ []).length = bs.length := by rw [List.append_nil]
  obtain ⟨fuel', hpos, hparse⟩ := hfs.internalParse hr (m := {}) (hself.trans_lt hlen)
    (hself.trans_lt (Nat.lt_succ_self bs.length))
  obtain ⟨k, rfl⟩ : ∃ k, fuel' = k + 1 := ⟨fuel' - 1, by omega⟩
  rw [List.append_nil] at hparse
  exact hparse

/-- Parsing undoes serialization when all strings are valid UTF-8 and the whole
is short enough for the parser. -/
theorem parseWith_of_serialize {m : ReqNodeLogin} (hutf8 : m.Utf8)
    (hlen : m.serialize.length < sizeLimit) : parseWith r m.serialize = (true, m) :=
  (parseWith_true_iff hr hlen).mpr
    ⟨m.fields, reads_serialize hr hutf8 hlen, by rw [foldl_fields, mergeFrom_default]⟩

/-- The strings of an accepted message are valid UTF-8. -/
theorem utf8_of_accepted {bs : List UInt8} {m : ReqNodeLogin} (hlen : bs.length < sizeLimit)
    (haccepted : parseWith r bs = (true, m)) : m.Utf8 := by
  obtain ⟨fs, hfs, rfl⟩ := (parseWith_true_iff hr hlen).mp haccepted
  exact hfs.utf8 hr ⟨rfl, rfl, rfl⟩

/-- A zero byte behind an accepted input ends the loop: the rest is not
read, the verdict is negative and the message stays. -/
theorem parseWith_append_zero {bs : List UInt8} {m : ReqNodeLogin} (more : List UInt8)
    (hlen : (bs ++ 0 :: more).length < sizeLimit) (haccepted : parseWith r bs = (true, m)) :
    parseWith r (bs ++ 0 :: more) = (false, m) := by
  have hfront : bs.length < sizeLimit := by
    rw [List.length_append] at hlen
    omega
  obtain ⟨fs, hfs, rfl⟩ := (parseWith_true_iff hr hfront).mp haccepted
  obtain ⟨fuel', hfuel', hparse⟩ :=
    hfs.internalParse hr (m := {}) hlen (Nat.lt_succ_self (bs ++ 0 :: more).length)
  obtain ⟨k, rfl⟩ : ∃ k, fuel' = k + 1 := ⟨fuel' - 1, by omega⟩
  have hzero : (0 : UInt8).toNat < 128 := by decide
  rw [parseWith, hparse, internalParse, hr.readTag_cons more hzero]
  rfl

end Serialized

/-- A serialized message behind an accepted input is merged into its message. -/
theorem parseWith_append_serialize {r : Reader} (hr : r.Lawful) {bs : List UInt8}
    {m other : ReqNodeLogin} (haccepted : parseWith r bs = (true, m)) (hutf8 : other.Utf8)
    (hlen : (bs ++ other.serialize).length < sizeLimit) :
    parseWith r (bs ++ other.serialize) = (true, m.mergeFrom other) := by
  have hshort : bs.length < sizeLimit ∧ other.serialize.length < sizeLimit := by
    rw [List.length_append] at hlen
    omega
  obtain ⟨fs, hfs, rfl⟩ := (parseWith_true_iff hr hshort.1).mp haccepted
  refine (parseWith_true_iff hr hlen).mpr ⟨fs ++ other.fields,
    hfs.append hr (reads_serialize hr hutf8 hshort.2) hlen, ?_⟩
  rw [List.foldl_append, foldl_fields]

theorem parseWith_append_serialize_twoIps :
    parseWith wireReader ([10, 1, 49, 16, 5] ++ serialize { ip := [50], name := [51] }) =
      (true, { ip := [50], port := 5, name := [51] }) :=
  parseWith_append_serialize wireReader_lawful (m := { ip := [49], port := 5 }) (by decide)
    ⟨by decide, by decide, by decide⟩ (by decide)

/-- Every accepted input has a message with a normal form: what it serializes to
is accepted with the same message. -/
theorem parseWith_normal {r : Reader} (hr : r.Lawful) {bs : List UInt8} {m : ReqNodeLogin}
    (haccepted : parseWith r bs = (true, m)) (hlen : bs.length < sizeLimit)
    (hshort : m.serialize.length < sizeLimit) :
    m.Utf8 ∧ parseWith r m.serialize = (true, m) :=
  ⟨utf8_of_accepted hr hlen haccepted,
    parseWith_of_serialize hr (utf8_of_accepted hr hlen haccepted) hshort⟩

/-- Two ips and an unknown field. -/
theorem parseWith_normal_twoIps :
    parseWith wireReader [10, 1, 49, 10, 1, 50, 40, 7] = (true, { ip := [50] }) ∧
      parseWith wireReader (serialize { ip := [50] }) = (true, { ip := [50] }) := by
  have haccepted : parseWith wireReader [10, 1, 49, 10, 1, 50, 40, 7] =
      (true, { ip := [50] }) := by decide
  exact ⟨haccepted, (parseWith_normal wireReader_lawful haccepted (by decide) (by decide)).2⟩

end NodeManager.ReqNodeLogin
