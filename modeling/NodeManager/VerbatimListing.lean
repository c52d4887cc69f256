import NodeManager.HttpReq

/-!
# When the listing is replied as it was written

The document of `HttpReqGetAllNodesCb` lists the ips and names as they came
from the network. It goes through a format on its way out, so it arrives as it
was written exactly when none of them has a percent sign where the writer sees
a character.
-/

namespace NodeManager.HttpReq

open ByteMemory CString Json
open Server (State)

variable (realToString : Double → Str)

/-- The value of `node`: null until there is a member. -/
def nodesOf (members : List (Str × Value)) : Value :=
  if members.isEmpty then .null else .object members

/-- The document for a registry with these ips and names. -/
def registryJson (listing : List (Str × Str)) : Value :=
  .object [(chars "node", nodesOf (listing.foldl
      (fun members kv => KeyedList.set kv.1 (.string kv.2) members) [])),
    (chars "res", .object successMembers)]

/-- The registry is replied byte for byte as the writer writes it. -/
def RepliesVerbatim (s : State) : Prop :=
  ∃ listing, s.getAllNode = some listing ∧ httpReqGetAllNodesCb realToString s =
    .ok ⟨registryJson listing, write realToString (registryJson listing)⟩

theorem set_isEmpty (key : Str) (value : Value) (members : List (Str × Value)) :
    (KeyedList.set key value members).isEmpty = false := by
  cases members with
  | nil => rfl
  | cons member rest =>
    rw [KeyedList.set]
    split
    · rfl
    · split <;> rfl

/-- One entry of the registry. -/
theorem assign_node (members : List (Str × Value)) (ip : Str) (value res : Value) :
    (Value.object [(chars "node", nodesOf members), (chars "res", res)]).assign
        [chars "node", ip] value =
      .ok (.object [(chars "node", nodesOf (KeyedList.set ip value members)),
        (chars "res", res)]) := by
  have hmembers : (nodesOf members).members = .ok members := by
    cases members <;> rfl
  have hset : nodesOf (KeyedList.set ip value members) =
      .object (KeyedList.set ip value members) := by
    rw [nodesOf, set_isEmpty]
    rfl
  have hchild : (nodesOf members).assign [ip] value =
      .ok (.object (KeyedList.set ip value members)) := by
    rw [Value.assign, hmembers]
    rfl
  have hparent : (Value.object [(chars "node", nodesOf members), (chars "res", res)]).assign
      [chars "node", ip] value = (do
        let member ← (nodesOf members).assign [ip] value
        return .object [(chars "node", member), (chars "res", res)]) := rfl
  rw [hparent, hchild, hset]
  rfl

/-- The document lists the registry. -/
theorem getAllNode_eq (listing : List (Str × Str)) :
    getAllNode listing (.object [(chars "res", .object successMembers)]) =
      .ok (registryJson listing) := by
  have hfold : ∀ members : List (Str × Value), listing.foldlM
      (fun jsonData kv => Value.assign jsonData [chars "node", kv.1] (.string kv.2))
      (.object [(chars "node", nodesOf members), (chars "res", .object successMembers)]) =
        .ok (.object [(chars "node", nodesOf (listing.foldl
            (fun members kv => KeyedList.set kv.1 (.string kv.2) members) members)),
          (chars "res", .object successMembers)]) := by
    induction listing with
    | nil => exact fun members => rfl
    | cons kv listing ih =>
      intro members
      rw [List.foldlM_cons, assign_node, List.foldl_cons]
      exact ih _
  exact hfold []

/-- The members for a listing without repetitions are its entries. -/
theorem mem_members {listing : List (Str × Str)} (hkeys : (listing.map Prod.fst).Nodup)
    (member : Str × Value) :
    member ∈ listing.foldl (fun members kv => KeyedList.set kv.1 (.string kv.2) members) [] ↔
      ∃ kv ∈ listing, (kv.1, Value.string kv.2) = member := by
  let entry : Str × Str → Str × Value := fun kv => (kv.1, .string kv.2)
  have hnodup : (([] ++ listing.map entry).map Prod.fst).Nodup := by
    rw [List.nil_append, List.map_map]
    exact hkeys
  have hperm := KeyedList.perm_foldl_set hnodup
  rw [List.foldl_map] at hperm
  rw [hperm.mem_iff, List.nil_append, List.mem_map]

/-- The bytes of the nodes, but for the separators. -/
theorem mem_nodesOf {c : UInt8} (hc : c = 0 ∨ c = 37) (members : List (Str × Value)) :
    c ∈ writeValue realToString (nodesOf members) ↔ ∃ member ∈ members,
      c ∈ valueToQuotedStringN member.1 ∨ c ∈ writeValue realToString member.2 := by
  have hseparator : c ≠ 44 ∧ c ≠ 58 := by
    rcases hc with rfl | rfl <;> decide
  have hbraces : c ∉ ([123] : Str) ∧ c ∉ ([125] : Str) := by
    rcases hc with rfl | rfl <;> decide
  cases members with
  | nil =>
    refine iff_of_false ?_ fun ⟨_, hmem, _⟩ => nomatch hmem
    rcases hc with rfl | rfl
    · exact (by decide : (0 : UInt8) ∉ chars "null")
    · exact (by decide : (37 : UInt8) ∉ chars "null")
  | cons member rest =>
    have hobject : writeValue realToString (nodesOf (member :: rest)) =
        [123] ++ writeMembers realToString true (member :: rest) ++ [125] := rfl
    rw [hobject, List.mem_append, List.mem_append, mem_writeMembers realToString hseparator]
    simp only [hbraces, false_or, or_false]

/-- The document has a NUL or a percent sign only from an ip or a name. -/
theorem mem_registryJson {c : UInt8} (hc : c = 0 ∨ c = 37) {listing : List (Str × Str)}
    (hkeys : (listing.map Prod.fst).Nodup) :
    c ∈ write realToString (registryJson listing) ↔ ∃ kv ∈ listing,
      c ∈ valueToQuotedStringN kv.1 ∨ c ∈ valueToQuotedStringN kv.2 := by
  obtain ⟨nodes, hnodes⟩ : ∃ nodes : List (Str × Value), listing.foldl
      (fun members kv => KeyedList.set kv.1 (.string kv.2) members) [] = nodes := ⟨_, rfl⟩
  have hmembers := mem_members hkeys
  have hnode : valueToQuotedStringN (chars "node") = chars "\"node\"" := by decide
  have hframe : write realToString (registryJson listing) =
      chars "\x7b\"node\":" ++ (writeValue realToString (nodesOf nodes) ++
        chars ",\"res\":\x7b\"err_code\":0,\"err_msg\":\"success\"\x7d\x7d\n") := by
    rw [write, registryJson, hnodes, writeValue, writeMembers, hnode]
    simp only [if_true, List.append_assoc, List.nil_append]
    rfl
  have hconstant : c ∉ chars "\x7b\"node\":" ∧
      c ∉ chars ",\"res\":\x7b\"err_code\":0,\"err_msg\":\"success\"\x7d\x7d\n" := by
    rcases hc with rfl | rfl <;> decide
  rw [hnodes] at hmembers
  rw [hframe, List.mem_append, List.mem_append, mem_nodesOf realToString hc]
  simp only [hconstant, false_or, or_false]
  constructor
  · rintro ⟨member, hmember, hbyte⟩
    obtain ⟨kv, hkv, rfl⟩ := (hmembers member).mp hmember
    exact ⟨kv, hkv, hbyte⟩
  · rintro ⟨kv, hkv, hbyte⟩
    exact ⟨(kv.1, .string kv.2), (hmembers _).mpr ⟨kv, hkv, rfl⟩, hbyte⟩

section Registry

variable {s : State} {listing : List (Str × Str)}

/-- The ips and names of entries whose objects are all live. -/
theorem of_mapM_entries {heap : Addr → Option NodeConnect}
    {entries : List (Sigma fun _ : Str => Addr)} {listing : List (Str × Str)}
    (h : (entries.mapM fun kv => (heap kv.2).map fun x => (kv.1, x.strNodeName)) = some listing) :
    listing.map Prod.fst = entries.map Sigma.fst ∧ ∀ kv ∈ entries, ∃ x, heap kv.2 = some x := by
  induction entries generalizing listing with
  | nil =>
    cases h
    exact ⟨rfl, fun kv hkv => nomatch hkv⟩
  | cons kv entries ih =>
    rw [List.mapM_cons, Option.bind_eq_bind, Option.bind_eq_some_iff] at h
    obtain ⟨first, hfirst, h⟩ := h
    rw [Option.bind_eq_bind, Option.bind_eq_some_iff] at h
    obtain ⟨rest, hrest, h⟩ := h
    obtain ⟨x, hx, rfl⟩ := Option.map_eq_some_iff.mp hfirst
    obtain rfl := Option.some.inj h
    obtain ⟨hkeys, hlive⟩ := ih hrest
    refine ⟨?_, fun kv' hkv' => ?_⟩
    · rw [List.map_cons, List.map_cons, hkeys]
    · rcases List.mem_cons.mp hkv' with rfl | hkv'
      · exact ⟨x, hx⟩
      · exact hlive kv' hkv'

/-- A listing that was made has the ips of the map, and read live objects only. -/
theorem of_getAllNode (h : s.getAllNode = some listing) :
    (listing.map Prod.fst).Nodup ∧
      ∀ ip a, s.mapNode.lookup ip = some a → ∃ x, s.heap a = some x := by
  obtain ⟨hkeys, hlive⟩ := of_mapM_entries h
  refine ⟨?_, fun ip a hlookup => hlive ⟨ip, a⟩ (AList.mem_lookup_iff.mp hlookup)⟩
  rw [hkeys]
  exact s.mapNode.nodupKeys

/-- The callback replies what becomes of the document. -/
theorem httpReqGetAllNodesCb_eq (h : s.getAllNode = some listing) :
    httpReqGetAllNodesCb realToString s = sendReply realToString (registryJson listing) := by
  have hres : successJson.mapError Stop.thrown =
      .ok (.object [(chars "res", .object successMembers)]) := by
    rw [successJson_eq]
    rfl
  rw [httpReqGetAllNodesCb, hres, ok_bind, h]
  dsimp only
  rw [getAllNode_eq]
  rfl

/-- The registry is replied verbatim exactly when its document has no percent
sign. -/
theorem repliesVerbatim_iff_percent (h : s.getAllNode = some listing) :
    RepliesVerbatim realToString s ↔ 37 ∉ write realToString (registryJson listing) := by
  have hnul : 0 ∉ write realToString (registryJson listing) := by
    rw [mem_registryJson realToString (Or.inl rfl) (of_getAllNode h).1]
    rintro ⟨kv, _, hip | hname⟩
    · exact nul_not_mem_quoted _ hip
    · exact nul_not_mem_quoted _ hname
  rw [← sendReply_eq_iff realToString hnul, ← httpReqGetAllNodesCb_eq realToString h]
  constructor
  · rintro ⟨listing', hsome, hreply⟩
    obtain rfl := Option.some.inj (h.symm.trans hsome)
    exact hreply
  · intro hreply
    exact ⟨listing, h, hreply⟩

end Registry

/-- The registry is replied verbatim exactly when the mapped objects are live and
none of the ips and names has a percent sign among its code points. -/
theorem repliesVerbatim_iff (s : State) : RepliesVerbatim realToString s ↔
    ∀ ip a, s.mapNode.lookup ip = some a →
      ∃ x, s.heap a = some x ∧ 37 ∉ codePoints ip ∧ 37 ∉ codePoints x.strNodeName := by
  cases hlisting : s.getAllNode with
  | none =>
    constructor
    · rintro ⟨listing, hsome, _⟩
      rw [hlisting] at hsome
      cases hsome
    · intro h
      refine absurd hlisting (State.getAllNode_ne_none fun ip a hlookup => ?_)
      obtain ⟨x, hx, _⟩ := h ip a hlookup
      exact ⟨x, hx⟩
  | some listing =>
    obtain ⟨hkeys, hlive⟩ := of_getAllNode hlisting
    obtain ⟨listing', hlisting', hmem⟩ := State.getAllNode_eq hlive
    obtain rfl := Option.some.inj (hlisting.symm.trans hlisting')
    rw [repliesVerbatim_iff_percent realToString hlisting,
      mem_registryJson realToString (Or.inr rfl) hkeys]
    simp only [percent_mem_quoted_iff]
    constructor
    · intro hnone ip a hlookup
      obtain ⟨x, hx⟩ := hlive ip a hlookup
      have hkv := (hmem ip x.strNodeName).mpr ⟨a, x, hlookup, hx, rfl⟩
      exact ⟨x, hx, fun hip => hnone ⟨_, hkv, Or.inl hip⟩,
        fun hname => hnone ⟨_, hkv, Or.inr hname⟩⟩
    · rintro hclean ⟨⟨ip, name⟩, hkv, hpercent⟩
      obtain ⟨a, x, hlookup, hx, rfl⟩ := (hmem ip name).mp hkv
      obtain ⟨x', hx', hip, hname⟩ := hclean ip a hlookup
      obtain rfl := Option.some.inj (hx.symm.trans hx')
      rcases hpercent with h | h
      · exact hip h
      · exact hname h

/-- A registry with one node of the name "%s". -/
def percentState : State :=
  { State.init with
    heap := fun a =>
      if a = 0 then some { sock := 0, base := 0, strNodeName := chars "%s" } else none
    mapNode := AList.singleton (chars "10.0.0.1") 0 }

/-- The format asks for an argument that was not passed. -/
theorem listing_formatted : ¬∀ (realToString : Double → Str) (s : State),
    RepliesVerbatim realToString s := by
  intro h
  obtain ⟨listing, _, hreply⟩ := h (fun _ => []) percentState
  have hformat : httpReqGetAllNodesCb (fun _ => []) percentState = .error .format := by
    rfl
  rw [hformat] at hreply
  cases hreply

end NodeManager.HttpReq
