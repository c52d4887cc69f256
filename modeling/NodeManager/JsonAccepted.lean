import NodeManager.JsonRoundTrip
import NodeManager.ReaderLoops

/-!
# What the strict reader accepts

Whatever the document, the value that the reader leaves behind is well-formed
and no deeper than its stack limit, and it throws only for documents with as
many opening brackets. An accepted value without doubles whose strings are
valid UTF-8 can be written and read again as often as one likes.
-/

namespace NodeManager.Json

open ByteMemory (ok_bind)
open ProtobufWire (validUtf8)

namespace Value

/-- A value without doubles whose strings are valid UTF-8. -/
inductive Exact : Value → Prop
  | null : Exact null
  | int (value : ℤ) : Exact (int value)
  | uint (value : ℕ) : Exact (uint value)
  | string {value : Str} : validUtf8 value = true → Exact (string value)
  | bool (value : Bool) : Exact (bool value)
  | array {elements : List Value} : (∀ element ∈ elements, Exact element) →
      Exact (array elements)
  | object {members : List (Str × Value)} : (∀ member ∈ members, validUtf8 member.1 = true) →
      (∀ member ∈ members, Exact member.2) → Exact (object members)

theorem rereadElements_eq_self {elements : List Value}
    (h : ∀ element ∈ elements, element.reread = element) : rereadElements elements = elements := by
  induction elements with
  | nil => rfl
  | cons element rest ih =>
    rw [rereadElements, h element List.mem_cons_self,
      ih fun element helement => h element (List.mem_cons_of_mem _ helement)]

theorem rereadMembers_eq_foldl {members : List (Str × Value)}
    (h : ∀ member ∈ members, rereadString member.1 = member.1 ∧ member.2.reread = member.2)
    (read : List (Str × Value)) : rereadMembers read members =
      members.foldl (fun entries entry => KeyedList.set entry.1 entry.2 entries) read := by
  induction members generalizing read with
  | nil => rfl
  | cons member rest ih =>
    obtain ⟨name, value⟩ := member
    obtain ⟨hname, hvalue⟩ := h (name, value) List.mem_cons_self
    rw [rereadMembers, hname, hvalue, List.foldl_cons]
    exact ih (fun member hmember => h member (List.mem_cons_of_mem _ hmember)) _

/-- A well-formed value with exact contents is written in whole numbers, and
reading changes nothing of it. -/
theorem WellFormed.reread_eq_self {v : Value} (hv : v.WellFormed) (hexact : v.Exact) :
    v.Integral ∧ v.reread = v := by
  -- by the depth, which bounds how far the values lie within one another
  induction hdepth : v.depth using Nat.strong_induction_on generalizing v with
  | _ n ih =>
    cases hexact with
    | null => exact ⟨.null, rfl⟩
    | int value =>
      cases hv with
      | int hlow hhigh => exact ⟨.int hlow (by omega), if_pos hhigh⟩
    | uint value =>
      cases hv with
      | uint hlow hhigh =>
        refine ⟨.uint hhigh, ?_⟩
        rw [reread, rereadNumber, if_neg (by omega), Int.toNat_natCast]
    | string hvalid => exact ⟨.string _, by rw [reread, rereadString_of_validUtf8 hvalid]⟩
    | bool value => exact ⟨.bool value, rfl⟩
    | @array elements helements =>
      cases hv with
      | array hwell =>
        have hall : ∀ element ∈ elements, element.Integral ∧ element.reread = element := by
          intro element helement
          have hle := depthElements_le_iff.mp le_rfl element helement
          rw [depth] at hdepth
          exact ih element.depth (by omega) (hwell element helement)
            (helements element helement) rfl
        refine ⟨.array fun element helement => (hall element helement).1, ?_⟩
        rw [reread, rereadElements_eq_self fun element helement => (hall element helement).2]
    | @object members hnames hvalues =>
      cases hv with
      | object hsorted hwell =>
        have hall : ∀ member ∈ members, member.2.Integral ∧ member.2.reread = member.2 := by
          intro member hmember
          have hle := depthMembers_le_iff.mp le_rfl member hmember
          rw [depth] at hdepth
          exact ih member.2.depth (by omega) (hwell member hmember) (hvalues member hmember) rfl
        refine ⟨.object fun member hmember => (hall member hmember).1, ?_⟩
        have hbuilt : KeyedList.Sorted ([] ++ members) := hsorted
        rw [reread, rereadMembers_eq_foldl (fun member hmember =>
          ⟨rereadString_of_validUtf8 (hnames member hmember), (hall member hmember).2⟩) [],
          KeyedList.foldl_set_of_sorted hbuilt]
        rfl

end Value

variable (realToString : Double → Str) (readDouble : Str → Option Double)

/-- A well-formed root with exact contents is read back as it was. -/
theorem strictParse_write_self {v : Value} (hv : v.Fits stackLimit)
    (hcontainer : v.isContainer = true) (hexact : v.Exact) (root : Value) :
    strictParse readDouble root (write realToString v) = .ok (true, v) := by
  obtain ⟨hintegral, hself⟩ := hv.1.reread_eq_self hexact
  have hend : EndsNumber [10] := endsNumber_of (by decide)
  have hback := (readsBack realToString readDouble stackLimit hintegral).ok hv.2 root hend
  rw [hself] at hback
  exact strictParse_ok readDouble hback hcontainer

/-- Whatever was parsed into a well-formed root, the root is well-formed
afterwards and within the stack limit, and it is a container where the verdict
is good. -/
theorem strictParse_fits {root v : Value} {document : Str} {successful : Bool}
    (hroot : root.Fits stackLimit)
    (hparse : strictParse readDouble root document = .ok (successful, v)) :
    v.Fits stackLimit ∧ (successful = true → v.isContainer = true) := by
  have hreads := readValue_reads readDouble stackLimit root document
  rw [strictParse] at hparse
  cases hread : readValue readDouble stackLimit root document with
  | error error =>
    rw [hread] at hparse
    cases hparse
  | ok result =>
    obtain ⟨ok, value, left⟩ := result
    have hfits := hreads.fits ok value left hread hroot
    rw [hread, ok_bind] at hparse
    dsimp only at hparse
    split at hparse
    · cases hparse
      exact ⟨hfits, fun h => absurd h Bool.false_ne_true⟩
    · next hcontainer =>
      cases hparse
      exact ⟨hfits, fun _ => not_not.mp hcontainer⟩

/-- The reader throws nothing but the exception of its stack limit, and for no
document with fewer opening brackets and braces. -/
theorem strictParse_throws {root : Value} {document : Str} {error : Error}
    (hparse : strictParse readDouble root document = .error error) :
    error = .runtimeError ∧ stackLimit ≤ openings document := by
  have hreads := readValue_reads readDouble stackLimit root document
  rw [strictParse] at hparse
  cases hread : readValue readDouble stackLimit root document with
  | error error' =>
    rw [hread] at hparse
    cases hparse
    exact hreads.thrown error hread
  | ok result =>
    obtain ⟨ok, value, left⟩ := result
    rw [hread, ok_bind] at hparse
    dsimp only at hparse
    split at hparse
    · cases hparse
    · cases hparse

/-- Every document is read into a value that is well-formed and within the stack
limit, whether it is accepted or not, or it exceeds the stack of the reader with
its opening brackets and braces. -/
theorem strictParse_outcome (document : Str) :
    (∃ successful v, strictParse readDouble .null document = .ok (successful, v) ∧
        v.WellFormed ∧ v.depth ≤ stackLimit ∧ (successful = true → v.isContainer = true)) ∨
      strictParse readDouble .null document = .error .runtimeError ∧
        stackLimit ≤ openings document := by
  cases hparse : strictParse readDouble .null document with
  | error error =>
    obtain ⟨rfl, hopenings⟩ := strictParse_throws readDouble hparse
    exact Or.inr ⟨rfl, hopenings⟩
  | ok result =>
    obtain ⟨successful, v⟩ := result
    have hnull : Value.null.Fits stackLimit := ⟨.null, by decide⟩
    obtain ⟨hfits, hcontainer⟩ := strictParse_fits readDouble hnull hparse
    exact Or.inl ⟨successful, v, rfl, hfits.1, hfits.2, hcontainer⟩

/-- What was accepted can be written, and what was written is accepted as the
same value. -/
theorem strictParse_write_strictParse {v : Value} {document : Str}
    (hparse : strictParse readDouble .null document = .ok (true, v)) (hexact : v.Exact)
    (root : Value) : strictParse readDouble root (write realToString v) = .ok (true, v) := by
  have hnull : Value.null.Fits stackLimit := ⟨.null, by decide⟩
  obtain ⟨hfits, hcontainer⟩ := strictParse_fits readDouble hnull hparse
  exact strictParse_write_self realToString readDouble hfits (hcontainer rfl) hexact root

/-- A name that stands twice is in the value once, with the later one of the
values. -/
theorem strictParse_write_twice :
    strictParse (fun _ => none) .null (write (fun _ => []) (.object [(chars "a", .int 2)])) =
      .ok (true, .object [(chars "a", .int 2)]) := by
  have hparse : strictParse (fun _ => none) .null (chars "\x7b\"a\":1, \"a\":2\x7d") =
      .ok (true, .object [(chars "a", .int 2)]) := rfl
  have hexact : (Value.object [(chars "a", .int 2)]).Exact :=
    .object (List.forall_mem_singleton.mpr (ProtobufWire.validUtf8_ascii rfl))
      (List.forall_mem_singleton.mpr (.int 2))
  exact strictParse_write_strictParse (fun _ => []) (fun _ => none) hparse hexact .null

end NodeManager.Json
