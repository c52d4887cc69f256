import Mathlib.Data.Nat.Notation
import Mathlib.Algebra.Order.Ring.Nat
import Mathlib.Tactic.Ring

/-!
# The protobuf wire format

Base-128 varints of at most ten groups, length-delimited byte strings and
the skipping of fields that a reader does not know. What a parser may rely on
is a record of the reading functions with their laws: every function consumes a
front part of its input and returns what is left, and reading what a writer
emitted returns the written value whatever bytes follow it. One implementation
keeps the limits of the format on lengths, field numbers and nested groups.
-/

namespace ProtobufWire

/-- Groups of seven bits, least significant first, all but the last of them
marked with the high bit; at most one group more than the given number. -/
def encodeGroups : ℕ → ℕ → List UInt8
  | 0, n => [UInt8.ofNat n]
  | g + 1, n =>
    if n < 128 then [UInt8.ofNat n]
    else UInt8.ofNat (n % 128 + 128) :: encodeGroups g (n / 128)

/-- The varint of a 64-bit word. -/
def encodeVarint (v : UInt64) : List UInt8 := encodeGroups 9 v.toNat

/-- Read groups up to the first unmarked one, at most the given number. -/
def decodeGroups : ℕ → List UInt8 → Option (ℕ × List UInt8)
  | 0, _ => none
  | _ + 1, [] => none
  | g + 1, b :: bs =>
    if b.toNat < 128 then some (b.toNat, bs)
    else
      match decodeGroups g bs with
      | none => none
      | some (n, rest) => some (b.toNat - 128 + 128 * n, rest)

/-- Read a varint of 64 bits; surplus bits of a tenth group are dropped. -/
def readVarint (bs : List UInt8) : Option (UInt64 × List UInt8) :=
  match decodeGroups 10 bs with
  | none => none
  | some (n, rest) => some (UInt64.ofNat n, rest)

/-- Read a tag: a varint of at most five groups. -/
def readTag (bs : List UInt8) : Option (UInt32 × List UInt8) :=
  match decodeGroups 5 bs with
  | none => none
  | some (n, rest) => some (UInt32.ofNat n, rest)

/-- The input of a parser, and with it every length, is shorter than this. -/
def sizeLimit : ℕ := 2 ^ 31 - 16

/-- Read a length: a varint of at most five groups below the limit. -/
def readSize (bs : List UInt8) : Option (ℕ × List UInt8) :=
  match decodeGroups 5 bs with
  | none => none
  | some (n, rest) => if n < sizeLimit then some (n, rest) else none

/-- A byte string behind its length. -/
def encodeBytes (s : List UInt8) : List UInt8 := encodeVarint (UInt64.ofNat s.length) ++ s

/-- Read a length-delimited byte string; the length must not exceed what is left. -/
def readBytes (bs : List UInt8) : Option (List UInt8 × List UInt8) :=
  match readSize bs with
  | none => none
  | some (n, rest) => if n ≤ rest.length then some (rest.take n, rest.drop n) else none

/-- Skip the value of a field of wire type 0, 1, 2 or 5. -/
def skipValue (wireType : ℕ) (bs : List UInt8) : Option (List UInt8) :=
  match wireType with
  | 0 => (readVarint bs).map Prod.snd
  | 1 => if 8 ≤ bs.length then some (bs.drop 8) else none
  | 2 => (readBytes bs).map Prod.snd
  | 5 => if 4 ≤ bs.length then some (bs.drop 4) else none
  | _ => none

/-- Skip fields up to the end tag of the group with the given number, in which
at most `depth` more groups may be nested. No field has the number 0. -/
def skipGroup : ℕ → ℕ → ℕ → List UInt8 → Option (List UInt8)
  | 0, _, _, _ => none
  | fuel + 1, depth, number, bs =>
    match readTag bs with
    | none => none
    | some (tag, rest) =>
      if tag.toNat % 8 = 4 then if tag.toNat / 8 = number then some rest else none
      else if tag.toNat / 8 = 0 then none
      else if tag.toNat % 8 = 3 then
        match depth with
        | 0 => none
        | inner + 1 =>
          (skipGroup fuel inner (tag.toNat / 8) rest).bind (skipGroup fuel depth number)
      else (skipValue (tag.toNat % 8) rest).bind (skipGroup fuel depth number)

/-- Groups may be nested this deep. -/
def recursionLimit : ℕ := 100

/-- Skip the field whose tag has been read. -/
def skipField (tag : UInt32) (bs : List UInt8) : Option (List UInt8) :=
  if tag.toNat / 8 = 0 then none
  else if tag.toNat % 8 = 3 then
    skipGroup bs.length (recursionLimit - 1) (tag.toNat / 8) bs
  else skipValue (tag.toNat % 8) bs

/-- A continuation byte of a UTF-8 sequence. -/
def isContinuation (b : UInt8) : Bool := 0x80 ≤ b && b ≤ 0xBF

/-- Structurally valid UTF-8: no overlong forms, surrogates or values past
the last code point. -/
def validUtf8 : List UInt8 → Bool
  | [] => true
  | a :: rest =>
    if a ≤ 0x7F then validUtf8 rest
    else
      match rest with
      | [] => false
      | b :: rest =>
        if 0xC2 ≤ a && a ≤ 0xDF then isContinuation b && validUtf8 rest
        else
          match rest with
          | [] => false
          | c :: rest =>
            if 0xE0 ≤ a && a ≤ 0xEF then
              isContinuation b && isContinuation c && (a != 0xE0 || 0xA0 ≤ b) &&
                (a != 0xED || b ≤ 0x9F) && validUtf8 rest
            else
              match rest with
              | [] => false
              | d :: rest =>
                0xF0 ≤ a && a ≤ 0xF4 && isContinuation b && isContinuation c &&
                  isContinuation d && (a != 0xF0 || 0x90 ≤ b) && (a != 0xF4 || b ≤ 0x8F) &&
                  validUtf8 rest

/-- Seven-bit characters are valid UTF-8. -/
theorem validUtf8_ascii {bs : List UInt8} (h : bs.all (fun b => b ≤ 0x7F) = true) :
    validUtf8 bs = true := by
  induction bs with
  | nil => rfl
  | cons b bs ih =>
    obtain ⟨hb, hbs⟩ := (Bool.and_eq_true _ _).mp h
    unfold validUtf8
    rw [if_pos (of_decide_eq_true hb)]
    exact ih hbs

/-- A value below 128 is a single group. -/
theorem decodeGroups_single {n : ℕ} (hn : n < 128) (g : ℕ) (rest : List UInt8) :
    decodeGroups (g + 1) (UInt8.ofNat n :: rest) = some (n, rest) := by
  have hbyte : (UInt8.ofNat n).toNat = n := by
    rw [UInt8.toNat_ofNat']
    omega
  rw [decodeGroups, hbyte, if_pos hn]

/-- Groups are read back when the value fits the number that may be read. -/
theorem decodeGroups_encodeGroups {k g : ℕ} (hk : k ≤ g) (n : ℕ) (hn : n < 128 ^ (k + 1))
    (rest : List UInt8) : decodeGroups (k + 1) (encodeGroups g n ++ rest) = some (n, rest) := by
  induction g generalizing k n with
  | zero =>
    obtain rfl := Nat.le_zero.mp hk
    rw [encodeGroups]
    exact decodeGroups_single (by omega) 0 rest
  | succ g ih =>
    rw [encodeGroups]
    by_cases hlast : n < 128
    · rw [if_pos hlast]
      exact decodeGroups_single hlast k rest
    · obtain ⟨k, rfl⟩ : ∃ j, k = j + 1 := by
        cases k with
        | zero => exact absurd hn (by omega)
        | succ j => exact ⟨j, rfl⟩
      have hbyte : (UInt8.ofNat (n % 128 + 128)).toNat = n % 128 + 128 := by
        rw [UInt8.toNat_ofNat']
        omega
      have hquot : n / 128 < 128 ^ (k + 1) := by
        rw [Nat.div_lt_iff_lt_mul (by decide), ← pow_succ]
        exact hn
      have hmore : ¬(UInt8.ofNat (n % 128 + 128)).toNat < 128 := by omega
      have hsum : n % 128 + 128 - 128 + 128 * (n / 128) = n := by omega
      rw [if_neg hlast, List.cons_append, decodeGroups, if_neg hmore,
        ih (Nat.le_of_succ_le_succ hk) _ hquot]
      simp only [hbyte, hsum]

theorem readVarint_encodeVarint (v : UInt64) (rest : List UInt8) :
    readVarint (encodeVarint v ++ rest) = some (v, rest) := by
  have hlt := v.toNat_lt
  have hfit : v.toNat < 128 ^ (9 + 1) := hlt.trans (by decide)
  rw [readVarint, encodeVarint, decodeGroups_encodeGroups (Nat.le_refl 9) _ hfit]
  simp only [UInt64.ofNat_toNat]

/-- A tag below 128 is a single byte. -/
theorem readTag_cons {b : UInt8} (hb : b.toNat < 128) (rest : List UInt8) :
    readTag (b :: rest) = some (b.toUInt32, rest) := by
  have hword : UInt32.ofNat b.toNat = b.toUInt32 := by
    rw [← UInt32.toNat_inj, UInt32.toNat_ofNat', UInt8.toNat_toUInt32]
    omega
  rw [readTag, decodeGroups, if_pos hb]
  simp only [hword]

theorem readBytes_encodeBytes {s : List UInt8} (hs : s.length < sizeLimit) (rest : List UInt8) :
    readBytes (encodeBytes s ++ rest) = some (s, rest) := by
  have hlimit : sizeLimit = 2147483632 := rfl
  have hlen : (UInt64.ofNat s.length).toNat = s.length := by
    rw [UInt64.toNat_ofNat', Nat.mod_eq_of_lt (by omega)]
  have hgroups : decodeGroups 5 (encodeGroups 9 s.length ++ (s ++ rest)) =
      some (s.length, s ++ rest) :=
    decodeGroups_encodeGroups (k := 4) (by omega) _ (by omega) _
  rw [readBytes, encodeBytes, encodeVarint, hlen, List.append_assoc, readSize, hgroups]
  dsimp only
  rw [if_pos hs]
  simp only [List.length_append, Nat.le_add_right, if_true, List.take_left, List.drop_left]

theorem decodeGroups_append {g n : ℕ} {bs rest : List UInt8}
    (h : decodeGroups g bs = some (n, rest)) (more : List UInt8) :
    decodeGroups g (bs ++ more) = some (n, rest ++ more) ∧ rest.length < bs.length := by
  induction g generalizing n bs with
  | zero => cases h
  | succ g ih =>
    cases bs with
    | nil => cases h
    | cons b bs =>
      rw [decodeGroups] at h
      rw [List.cons_append, decodeGroups]
      split at h
      · next hlast =>
        cases h
        rw [if_pos hlast]
        exact ⟨rfl, Nat.lt_succ_self _⟩
      · next hmore =>
        rw [if_neg hmore]
        cases hgroups : decodeGroups g bs with
        | none =>
          rw [hgroups] at h
          cases h
        | some result =>
          obtain ⟨n', rest'⟩ := result
          rw [hgroups] at h
          cases h
          obtain ⟨happend, hlt⟩ := ih hgroups
          rw [happend]
          exact ⟨rfl, hlt.trans (Nat.lt_succ_self _)⟩

theorem readVarint_append {v : UInt64} {bs rest : List UInt8} (h : readVarint bs = some (v, rest))
    (more : List UInt8) :
    readVarint (bs ++ more) = some (v, rest ++ more) ∧ rest.length < bs.length := by
  rw [readVarint] at h
  split at h
  · cases h
  · next n rest' hgroups =>
    cases h
    obtain ⟨happend, hlt⟩ := decodeGroups_append hgroups more
    rw [readVarint, happend]
    exact ⟨rfl, hlt⟩

theorem readTag_append {tag : UInt32} {bs rest : List UInt8} (h : readTag bs = some (tag, rest))
    (more : List UInt8) :
    readTag (bs ++ more) = some (tag, rest ++ more) ∧ rest.length < bs.length := by
  rw [readTag] at h
  split at h
  · cases h
  · next n rest' hgroups =>
    cases h
    obtain ⟨happend, hlt⟩ := decodeGroups_append hgroups more
    rw [readTag, happend]
    exact ⟨rfl, hlt⟩

theorem readSize_append {n : ℕ} {bs rest : List UInt8} (h : readSize bs = some (n, rest))
    (more : List UInt8) :
    readSize (bs ++ more) = some (n, rest ++ more) ∧ rest.length < bs.length := by
  rw [readSize] at h
  split at h
  · cases h
  · next n' rest' hgroups =>
    obtain ⟨happend, hlt⟩ := decodeGroups_append hgroups more
    split at h
    · next hsmall =>
      cases h
      rw [readSize, happend]
      dsimp only
      rw [if_pos hsmall]
      exact ⟨rfl, hlt⟩
    · cases h

theorem readBytes_append {s bs rest : List UInt8} (h : readBytes bs = some (s, rest))
    (more : List UInt8) : readBytes (bs ++ more) = some (s, rest ++ more) ∧
      s.length + rest.length < bs.length := by
  rw [readBytes] at h
  split at h
  · cases h
  · next n left hsize =>
    obtain ⟨happend, hlt⟩ := readSize_append hsize more
    split at h
    · next hfits =>
      cases h
      have hlonger : n ≤ (left ++ more).length := by
        rw [List.length_append]
        omega
      rw [readBytes, happend]
      dsimp only
      rw [if_pos hlonger, List.take_append_of_le_length hfits, List.drop_append_of_le_length hfits,
        List.length_take, List.length_drop]
      exact ⟨rfl, by omega⟩
    · cases h

theorem skipValue_append {wireType : ℕ} {bs rest : List UInt8}
    (h : skipValue wireType bs = some rest) (more : List UInt8) :
    skipValue wireType (bs ++ more) = some (rest ++ more) ∧ rest.length < bs.length := by
  have hfixed : ∀ n, 0 < n → (if n ≤ bs.length then some (bs.drop n) else none) = some rest →
      (if n ≤ (bs ++ more).length then some ((bs ++ more).drop n) else none) =
        some (rest ++ more) ∧ rest.length < bs.length := by
    intro n hn hskip
    split at hskip
    · next hfits =>
      cases hskip
      have hlonger : n ≤ (bs ++ more).length := by
        rw [List.length_append]
        omega
      rw [if_pos hlonger, List.drop_append_of_le_length hfits, List.length_drop]
      exact ⟨rfl, by omega⟩
    · cases hskip
  unfold skipValue at h ⊢
  split at h
  · obtain ⟨⟨v, left⟩, hread, rfl⟩ := Option.map_eq_some_iff.mp h
    obtain ⟨happend, hlt⟩ := readVarint_append hread more
    rw [happend]
    exact ⟨rfl, hlt⟩
  · exact hfixed 8 (by omega) h
  · obtain ⟨⟨s, left⟩, hread, rfl⟩ := Option.map_eq_some_iff.mp h
    obtain ⟨happend, hlt⟩ := readBytes_append hread more
    rw [happend]
    dsimp only at hlt ⊢
    exact ⟨rfl, by omega⟩
  · exact hfixed 4 (by omega) h
  · cases h

/-- More fuel and more bytes behind a group do not change what is skipped. -/
theorem skipGroup_append {fuel fuel' depth number : ℕ} {bs rest : List UInt8}
    (h : skipGroup fuel depth number bs = some rest) (hfuel : fuel ≤ fuel') (more : List UInt8) :
    skipGroup fuel' depth number (bs ++ more) = some (rest ++ more) ∧
      rest.length < bs.length := by
  induction fuel generalizing fuel' depth number bs rest with
  | zero => cases h
  | succ fuel ih =>
    obtain ⟨fuel', rfl⟩ : ∃ k, fuel' = k + 1 := ⟨fuel' - 1, by omega⟩
    have hle : fuel ≤ fuel' := Nat.le_of_succ_le_succ hfuel
    rw [skipGroup] at h ⊢
    split at h
    · cases h
    · next tag left htag =>
      obtain ⟨happend, hlt⟩ := readTag_append htag more
      rw [happend]
      dsimp only
      split at h
      · next hend =>
        rw [if_pos hend]
        split at h
        · next hnumber =>
          cases h
          rw [if_pos hnumber]
          exact ⟨rfl, hlt⟩
        · cases h
      · next hend =>
        rw [if_neg hend]
        split at h
        · cases h
        · next hzero =>
          rw [if_neg hzero]
          split at h
          · next hstart =>
            rw [if_pos hstart]
            cases depth with
            | zero => cases h
            | succ nested =>
              obtain ⟨inner, hinner, houter⟩ := Option.bind_eq_some_iff.mp h
              obtain ⟨hinner', hshort⟩ := ih hinner hle
              obtain ⟨houter', hshorter⟩ := ih houter hle
              dsimp only
              rw [hinner', Option.bind_some, houter']
              exact ⟨rfl, by omega⟩
          · next hstart =>
            obtain ⟨inner, hinner, houter⟩ := Option.bind_eq_some_iff.mp h
            obtain ⟨hinner', hshort⟩ := skipValue_append hinner more
            obtain ⟨houter', hshorter⟩ := ih houter hle
            rw [if_neg hstart, hinner', Option.bind_some, houter']
            exact ⟨rfl, by omega⟩

theorem skipField_append {tag : UInt32} {bs rest : List UInt8} (h : skipField tag bs = some rest)
    (more : List UInt8) :
    skipField tag (bs ++ more) = some (rest ++ more) ∧ rest.length < bs.length := by
  have hle : bs.length ≤ (bs ++ more).length := by
    rw [List.length_append]
    omega
  rw [skipField] at h ⊢
  split at h
  · cases h
  · next hzero =>
    rw [if_neg hzero]
    split at h
    · next hgroup =>
      rw [if_pos hgroup]
      exact skipGroup_append h hle more
    · next hvalue =>
      rw [if_neg hvalue]
      exact skipValue_append h more

/-- The functions that a generated parser calls to read its input. A function
that fails may leave anything behind in what it was to read. -/
structure Reader where
  readTag : List UInt8 → Option (UInt32 × List UInt8)
  readVarint : List UInt8 → UInt64 × Option (List UInt8)
  /-- The string that is read into, the input. -/
  readString : List UInt8 → List UInt8 → List UInt8 × Option (List UInt8)
  verifyUtf8 : List UInt8 → Bool
  /-- Skip the field whose tag has been read. -/
  skipField : UInt32 → List UInt8 → Option (List UInt8)

/-- What the format says of the reading functions. An input as a whole is
shorter than the limit. -/
structure Reader.Lawful (r : Reader) : Prop where
  /-- A single byte without the high bit is a tag. -/
  readTag_cons : ∀ {b : UInt8} (rest : List UInt8), b.toNat < 128 →
    r.readTag (b :: rest) = some (b.toUInt32, rest)
  readVarint_encodeVarint : ∀ (v : UInt64) (rest : List UInt8),
    r.readVarint (encodeVarint v ++ rest) = (v, some rest)
  readString_encodeBytes : ∀ {s : List UInt8} (old rest : List UInt8),
    (encodeBytes s ++ rest).length < sizeLimit →
      r.readString old (encodeBytes s ++ rest) = (s, some rest)
  verifyUtf8_eq : ∀ s : List UInt8, r.verifyUtf8 s = validUtf8 s
  /-- Reading takes a front part of the input, whatever follows it. -/
  readTag_append : ∀ {tag : UInt32} {bs rest : List UInt8}, r.readTag bs = some (tag, rest) →
    rest.length < bs.length ∧ ∀ more, (bs ++ more).length < sizeLimit →
      r.readTag (bs ++ more) = some (tag, rest ++ more)
  readVarint_append : ∀ {v : UInt64} {bs rest : List UInt8}, r.readVarint bs = (v, some rest) →
    rest.length < bs.length ∧ ∀ more, (bs ++ more).length < sizeLimit →
      r.readVarint (bs ++ more) = (v, some (rest ++ more))
  readString_append : ∀ {old s bs rest : List UInt8}, r.readString old bs = (s, some rest) →
    rest.length < bs.length ∧ ∀ old' more, (bs ++ more).length < sizeLimit →
      r.readString old' (bs ++ more) = (s, some (rest ++ more))
  skipField_append : ∀ {tag : UInt32} {bs rest : List UInt8}, r.skipField tag bs = some rest →
    rest.length < bs.length ∧ ∀ more, (bs ++ more).length < sizeLimit →
      r.skipField tag (bs ++ more) = some (rest ++ more)

/-- The reading functions of this file; a failed read leaves its target alone. -/
def wireReader : Reader where
  readTag := readTag
  readVarint := fun bs => match readVarint bs with
    | none => (0, none)
    | some (v, rest) => (v, some rest)
  readString := fun old bs => match readBytes bs with
    | none => (old, none)
    | some (s, rest) => (s, some rest)
  verifyUtf8 := validUtf8
  skipField := skipField

theorem wireReader_lawful : wireReader.Lawful where
  readTag_cons := fun rest hb => readTag_cons hb rest
  readVarint_encodeVarint := by
    intro v rest
    dsimp only [wireReader]
    rw [readVarint_encodeVarint]
  readString_encodeBytes := by
    intro s old rest hlen
    have hs : s.length < sizeLimit := by
      rw [encodeBytes, List.length_append, List.length_append] at hlen
      omega
    dsimp only [wireReader]
    rw [readBytes_encodeBytes hs]
  verifyUtf8_eq := fun _ => rfl
  readTag_append := fun h => ⟨(readTag_append h []).2, fun more _ => (readTag_append h more).1⟩
  readVarint_append := by
    intro v bs rest h
    dsimp only [wireReader] at h ⊢
    cases hread : readVarint bs with
    | none =>
      rw [hread] at h
      cases h
    | some result =>
      obtain ⟨v', rest'⟩ := result
      rw [hread] at h
      cases h
      refine ⟨(readVarint_append hread []).2, fun more _ => ?_⟩
      rw [(readVarint_append hread more).1]
  readString_append := by
    intro old s bs rest h
    dsimp only [wireReader] at h ⊢
    cases hread : readBytes bs with
    | none =>
      rw [hread] at h
      cases h
    | some result =>
      obtain ⟨s', rest'⟩ := result
      rw [hread] at h
      cases h
      refine ⟨(Nat.le_add_left _ _).trans_lt (readBytes_append hread []).2, fun old' more _ => ?_⟩
      rw [(readBytes_append hread more).1]
  skipField_append := fun h =>
    ⟨(skipField_append h []).2, fun more _ => (skipField_append h more).1⟩

end ProtobufWire
