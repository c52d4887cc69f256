import NodeManager.JsonAccepted
import NodeManager.StopNode
import NodeManager.VerbatimListing

/-!
# The documents of the HTTP server and their readers

What a client reads in the reply to a listing, what the server makes of a stop
request that a client wrote, and which exceptions a stop request can raise,
with the strict reader and the writer of the library on both sides.
-/

namespace NodeManager.HttpReq

open ByteMemory CString Json
open ProtobufWire (validUtf8)
open Server (State)

variable (host : ByteOrder) (realToString : Double → Str) (readDouble : Str → Option Double)

/-- The members of `node` for a listing. -/
def membersOf (listing : List (Str × Str)) : List (Str × Value) :=
  listing.foldl (fun members kv => KeyedList.set kv.1 (.string kv.2) members) []

theorem registryJson_eq (listing : List (Str × Str)) : registryJson listing =
    .object [(chars "node", nodesOf (membersOf listing)),
      (chars "res", .object successMembers)] := rfl

/-- The members are in order. -/
theorem membersOf_sorted (listing : List (Str × Str)) : KeyedList.Sorted (membersOf listing) := by
  have hfold : ∀ members : List (Str × Value), KeyedList.Sorted members →
      KeyedList.Sorted (listing.foldl
        (fun members kv => KeyedList.set kv.1 (.string kv.2) members) members) := by
    induction listing with
    | nil => exact fun members h => h
    | cons kv listing ih => exact fun members h => ih _ (h.set kv.1 (.string kv.2))
  exact hfold [] List.Pairwise.nil

/-- An object of two members. -/
theorem pair_fits {levels : ℕ} {first second : Str} {v w : Value} (hless : first < second)
    (hv : v.Fits levels ∧ v.Exact) (hw : w.Fits levels ∧ w.Exact)
    (hfirst : validUtf8 first = true) (hsecond : validUtf8 second = true) :
    (Value.object [(first, v), (second, w)]).Fits (levels + 1) ∧
      (Value.object [(first, v), (second, w)]).Exact := by
  refine ⟨.object (List.pairwise_pair.mpr hless) ?_, .object ?_ ?_⟩
  · exact List.forall_mem_cons.mpr ⟨hv.1, List.forall_mem_singleton.mpr hw.1⟩
  · exact List.forall_mem_cons.mpr ⟨hfirst, List.forall_mem_singleton.mpr hsecond⟩
  · exact List.forall_mem_cons.mpr ⟨hv.2, List.forall_mem_singleton.mpr hw.2⟩

/-- The document of a registry is well-formed, and its strings are those of the
registry. -/
theorem registryJson_fits {listing : List (Str × Str)} (hkeys : (listing.map Prod.fst).Nodup)
    (hutf8 : ∀ kv ∈ listing, validUtf8 kv.1 = true ∧ validUtf8 kv.2 = true) :
    (registryJson listing).Fits stackLimit ∧ (registryJson listing).Exact := by
  have hsorted := membersOf_sorted listing
  have hmembers : ∀ member, member ∈ membersOf listing ↔
      ∃ kv ∈ listing, (kv.1, Value.string kv.2) = member := mem_members hkeys
  rw [registryJson_eq]
  generalize membersOf listing = members at hsorted hmembers ⊢
  have hstring : ∀ member ∈ members, validUtf8 member.1 = true ∧ member.2.Fits 1 ∧
      member.2.Exact := by
    intro member hmember
    obtain ⟨kv, hkv, rfl⟩ := (hmembers member).mp hmember
    obtain ⟨hip, hname⟩ := hutf8 kv hkv
    exact ⟨hip, ⟨.string _, le_rfl⟩, .string hname⟩
  have hnodes : (nodesOf members).Fits 2 ∧ (nodesOf members).Exact := by
    rw [nodesOf]
    split
    · exact ⟨⟨.null, by decide⟩, .null⟩
    · exact ⟨.object hsorted fun member hmember => (hstring member hmember).2.1,
        .object (fun member hmember => (hstring member hmember).1)
          fun member hmember => (hstring member hmember).2.2⟩
  have hascii : ∀ text : Str, text.all (fun b => b ≤ 0x7F) = true → validUtf8 text = true :=
    fun text => ProtobufWire.validUtf8_ascii
  have hcode : (Value.int 0).Fits 1 ∧ (Value.int 0).Exact :=
    ⟨⟨.int (by decide) (by decide), le_rfl⟩, .int 0⟩
  have hmessage : (Value.string (chars "success")).Fits 1 ∧
      (Value.string (chars "success")).Exact :=
    ⟨⟨.string _, le_rfl⟩, .string (hascii _ rfl)⟩
  have hres := pair_fits (show chars "err_code" < chars "err_msg" by decide) hcode hmessage
    (hascii _ rfl) (hascii _ rfl)
  obtain ⟨hfits, hexact⟩ := pair_fits (show chars "node" < chars "res" by decide) hnodes hres
    (hascii _ rfl) (hascii _ rfl)
  exact ⟨hfits.mono (by decide), hexact⟩

/-- The writer sees a percent sign only where there is one. -/
theorem percent_of_codePoints {value : Str} (h : 37 ∈ codePoints value) : 37 ∈ value := by
  have hbyte : ∀ (used : ℕ) (value : Str) (unit : UInt8 × ℕ), unit ∈ unitsFrom used value →
      unit.1 ∈ value := by
    intro used value unit hunit
    induction value generalizing used with
    | nil => cases hunit
    | cons c rest ih =>
      cases used with
      | succ used => exact List.mem_cons_of_mem _ (ih used hunit)
      | zero =>
        rw [unitsFrom] at hunit
        rcases List.mem_cons.mp hunit with rfl | hunit
        · exact List.mem_cons_self
        · exact List.mem_cons_of_mem _ (ih _ hunit)
  obtain ⟨unit, hunit, hcp⟩ := List.mem_map.mp h
  rcases mem_unitsFrom hunit with ⟨_, hself⟩ | ⟨_, hlarge⟩
  · have hpercent : unit.1 = 37 := UInt8.toNat_inj.mp (hself.symm.trans hcp)
    exact hpercent ▸ hbyte 0 value unit hunit
  · omega

/-- An ip or a name that arrives as it was sent: valid UTF-8 without a percent
sign. -/
def Plain (text : Str) : Prop := validUtf8 text = true ∧ 37 ∉ text

/-- The registry of live objects is replied as it is written, if no ip and no name
has a percent sign. -/
theorem replied_of_clean {s : State} (hclean : ∀ ip a, s.mapNode.lookup ip = some a →
      ∃ x, s.heap a = some x ∧ 37 ∉ codePoints ip ∧ 37 ∉ codePoints x.strNodeName) :
    ∃ listing, s.getAllNode = some listing ∧
      (∀ ip name, (ip, name) ∈ listing ↔ ∃ a x, s.mapNode.lookup ip = some a ∧
        s.heap a = some x ∧ x.strNodeName = name) ∧
      httpReqGetAllNodesCb realToString s =
        .ok ⟨registryJson listing, write realToString (registryJson listing)⟩ := by
  have hlive : ∀ ip a, s.mapNode.lookup ip = some a → ∃ x, s.heap a = some x := by
    intro ip a hlookup
    obtain ⟨x, hx, _⟩ := hclean ip a hlookup
    exact ⟨x, hx⟩
  obtain ⟨listing, hlisting, hentries⟩ := State.getAllNode_eq hlive
  obtain ⟨hkeys, _⟩ := of_getAllNode hlisting
  have hall : ∀ kv ∈ listing, 37 ∉ codePoints kv.1 ∧ 37 ∉ codePoints kv.2 := by
    intro kv hkv
    obtain ⟨a, x, hlookup, hx, hname⟩ := (hentries kv.1 kv.2).mp hkv
    obtain ⟨x', hx', hip, hcleanName⟩ := hclean kv.1 a hlookup
    rw [hx] at hx'
    obtain rfl := Option.some.inj hx'
    exact ⟨hip, hname ▸ hcleanName⟩
  have hpercent : 37 ∉ write realToString (registryJson listing) := by
    rw [mem_registryJson realToString (Or.inr rfl) hkeys]
    rintro ⟨kv, hkv, hip | hname⟩
    · exact (hall kv hkv).1 ((percent_mem_quoted_iff _).mp hip)
    · exact (hall kv hkv).2 ((percent_mem_quoted_iff _).mp hname)
  obtain ⟨listing', hlisting', hreply⟩ :=
    (repliesVerbatim_iff_percent realToString hlisting).mpr hpercent
  rw [hlisting] at hlisting'
  obtain rfl := Option.some.inj hlisting'
  exact ⟨listing, hlisting, hentries, hreply⟩

/-- The reply is accepted, and its members are the names of the objects that the
ips are mapped to. -/
theorem reply_members {s : State} (hplain : ∀ ip a, s.mapNode.lookup ip = some a →
      ∃ x, s.heap a = some x ∧ Plain ip ∧ Plain x.strNodeName) (root : Value) :
    ∃ reply members, httpReqGetAllNodesCb realToString s = .ok reply ∧
      strictParse readDouble root reply.body =
        .ok (true, .object [(chars "node", nodesOf members),
          (chars "res", .object successMembers)]) ∧
      ∀ ip value, KeyedList.get? ip members = some value ↔
        ∃ a x, s.mapNode.lookup ip = some a ∧ s.heap a = some x ∧
          value = .string x.strNodeName := by
  have hcleanAll : ∀ ip a, s.mapNode.lookup ip = some a →
      ∃ x, s.heap a = some x ∧ 37 ∉ codePoints ip ∧ 37 ∉ codePoints x.strNodeName := by
    intro ip a hlookup
    obtain ⟨x, hx, hip, hname⟩ := hplain ip a hlookup
    exact ⟨x, hx, fun h => hip.2 (percent_of_codePoints h),
      fun h => hname.2 (percent_of_codePoints h)⟩
  obtain ⟨listing, hlisting, hentries, hreply⟩ := replied_of_clean realToString hcleanAll
  obtain ⟨hkeys, _⟩ := of_getAllNode hlisting
  have hutf8 : ∀ kv ∈ listing, validUtf8 kv.1 = true ∧ validUtf8 kv.2 = true := by
    intro kv hkv
    obtain ⟨a, x, hlookup, hx, hname⟩ := (hentries kv.1 kv.2).mp hkv
    obtain ⟨x', hx', hip, hplainName⟩ := hplain kv.1 a hlookup
    rw [hx] at hx'
    obtain rfl := Option.some.inj hx'
    exact ⟨hip.1, hname ▸ hplainName.1⟩
  obtain ⟨hfits, hexact⟩ := registryJson_fits hkeys hutf8
  refine ⟨_, membersOf listing, hreply,
    strictParse_write_self realToString readDouble hfits rfl hexact root, fun ip value => ?_⟩
  have hfound : KeyedList.get? ip (membersOf listing) = some value ↔
      ∃ kv ∈ listing, (kv.1, Value.string kv.2) = (ip, value) :=
    (KeyedList.get?_eq_some_iff (membersOf_sorted listing)).trans (mem_members hkeys _)
  rw [hfound]
  constructor
  · rintro ⟨kv, hkv, heq⟩
    obtain ⟨rfl, rfl⟩ := Prod.mk.inj heq
    obtain ⟨a, x, hlookup, hx, hname⟩ := (hentries kv.1 kv.2).mp hkv
    exact ⟨a, x, hlookup, hx, by rw [hname]⟩
  · rintro ⟨a, x, hlookup, hx, rfl⟩
    exact ⟨(ip, x.strNodeName), (hentries _ _).mpr ⟨a, x, hlookup, hx, rfl⟩, rfl⟩

/-- A client that reads the reply finds for every ip the name of the object that
it is mapped to, and nothing else. -/
theorem listing_readBack {s : State} (hplain : ∀ ip a, s.mapNode.lookup ip = some a →
      ∃ x, s.heap a = some x ∧ Plain ip ∧ Plain x.strNodeName) (root : Value) :
    ∃ reply members, httpReqGetAllNodesCb realToString s = .ok reply ∧
      strictParse readDouble root reply.body =
        .ok (true, .object [(chars "node", nodesOf members),
          (chars "res", .object successMembers)]) ∧
      ∀ ip, KeyedList.get? ip members =
        ((s.mapNode.lookup ip).bind s.heap).map fun x => .string x.strNodeName := by
  obtain ⟨reply, members, hreply, hparse, hmembers⟩ :=
    reply_members realToString readDouble hplain root
  refine ⟨reply, members, hreply, hparse, fun ip => ?_⟩
  rw [Option.ext_iff]
  intro value
  rw [hmembers, Option.map_eq_some_iff]
  constructor
  · rintro ⟨a, x, hlookup, hx, rfl⟩
    exact ⟨x, by rw [hlookup, Option.bind_some, hx], rfl⟩
  · rintro ⟨x, hx, rfl⟩
    obtain ⟨a, hlookup, hx⟩ := Option.bind_eq_some_iff.mp hx
    exact ⟨a, x, hlookup, hx, rfl⟩

/-- A registry with one connected node of the name "node-1". -/
def oneNode : State :=
  { State.init with
    heap := fun a =>
      if a = 0 then some { sock := 0, base := 0, bev := some 0, strNodeName := chars "node-1" }
      else none
    bevs := [{ fd := 0, base := 0, arg := 0 }]
    mapNode := AList.singleton (chars "10.0.0.1") 0
    accepted := 1 }

theorem listing_readBack_oneNode : ∃ reply members,
    httpReqGetAllNodesCb (fun _ => []) oneNode = .ok reply ∧
      strictParse (fun _ => none) .null reply.body =
        .ok (true, .object [(chars "node", nodesOf members),
          (chars "res", .object successMembers)]) ∧
      ∀ ip, KeyedList.get? ip members =
        ((oneNode.mapNode.lookup ip).bind oneNode.heap).map fun x => .string x.strNodeName := by
  refine listing_readBack (fun _ => []) (fun _ => none) (fun ip a hlookup => ?_) .null
  have hentry := List.mem_singleton.mp (AList.mem_lookup_iff.mp hlookup)
  cases hentry
  exact ⟨_, rfl, ⟨ProtobufWire.validUtf8_ascii rfl, by decide⟩,
    ⟨ProtobufWire.validUtf8_ascii rfl, by decide⟩⟩

/-- The document that asks to stop the node of an ip. -/
def stopRequest (ip : Str) : Str := write realToString (.object [(chars "ip", .string ip)])

theorem stopRequest_eq (ip : Str) : stopRequest realToString ip =
    chars "\x7b\"ip\":" ++ (valueToQuotedStringN ip ++ chars "\x7d\n") := by
  have hname : valueToQuotedStringN (chars "ip") = chars "\"ip\"" := by decide
  rw [stopRequest, write, writeValue, writeMembers, writeMembers, writeValue, hname]
  simp only [if_true, List.append_assoc, List.nil_append]
  rfl

/-- A request that leaves room for the NUL acts as `DelNode` on the ip that was
written into it. -/
theorem httpReqStopNodeCb_stopRequest (stack : Stack) (s : State) {ip : Str}
    (hip : validUtf8 ip = true) (hshort : (stopRequest realToString ip).length < bufSize) :
    httpReqStopNodeCb host (strictParse readDouble .null) realToString stack s
        (stopRequest realToString ip) =
      match (s.delNode host stack ip).fault with
      | some fault => .error (.server fault)
      | none => .ok (s.delNode host stack ip, [successReply]) := by
  have hnul : 0 ∉ stopRequest realToString ip := by
    rw [stopRequest_eq, List.mem_append, List.mem_append]
    rintro (h | h | h)
    · exact absurd h (by decide)
    · exact nul_not_mem_quoted ip h
    · exact absurd h (by decide)
  have hself := (handedToParser_self_iff _).mpr ⟨hshort, hnul⟩
  have hexact : (Value.object [(chars "ip", .string ip)]).Exact :=
    .object (List.forall_mem_singleton.mpr (ProtobufWire.validUtf8_ascii rfl))
      (List.forall_mem_singleton.mpr (.string hip))
  have hfits : (Value.object [(chars "ip", .string ip)]).Fits 2 :=
    .object (List.pairwise_singleton _ _) (List.forall_mem_singleton.mpr ⟨.string ip, le_rfl⟩)
  have hparse := strictParse_write_self realToString readDouble (hfits.mono (by decide)) rfl
    hexact .null
  rw [httpReqStopNodeCb_of_parse host _ realToString hself hparse]
  rfl

/-- The node that is registered is sent one frame. -/
theorem httpReqStopNodeCb_stopRequest_oneNode : ∃ s frame,
    httpReqStopNodeCb .little (strictParse (fun _ => none) .null) (fun _ => []) .zeros oneNode
        (stopRequest (fun _ => []) (chars "10.0.0.1")) = .ok (s, [successReply]) ∧
      NodeConnect.closeFrame .little .zeros = .ok frame ∧ s.written 0 = [frame] := by
  rw [httpReqStopNodeCb_stopRequest .little (fun _ => []) (fun _ => none) .zeros oneNode
    (ProtobufWire.validUtf8_ascii rfl) (by decide)]
  have hlookup : oneNode.mapNode.lookup (chars "10.0.0.1") = some 0 := rfl
  obtain ⟨frame, hframe, hdel⟩ : ∃ frame, NodeConnect.closeFrame .little .zeros = .ok frame ∧
      oneNode.delNode .little .zeros (chars "10.0.0.1") = oneNode.buffereventWrite 0 frame :=
    Server.State.delNode_of_bev .zeros hlookup rfl rfl
  rw [hdel]
  exact ⟨_, frame, rfl, hframe, rfl⟩

/-- An access of the wrong kind is all that `jsonPost["ip"].asString()` throws. -/
theorem ipOf_error {jsonPost : Value} {error : Json.Error}
    (h : ipOf realToString jsonPost = .error error) :
    error = .logicError ∧ ¬HasReadableIp jsonPost := by
  refine ⟨?_, fun hreadable => ?_⟩
  · have hasString : ∀ v : Value, v.asString realToString = .error error →
        error = .logicError := by
      intro v hv
      cases v <;> cases hv <;> rfl
    cases jsonPost with
    | null => exact hasString .null h
    | object members => exact hasString _ h
    | _ =>
      cases h
      rfl
  · obtain ⟨ip, hip⟩ := (ipOf_ok_iff realToString jsonPost).mpr hreadable
    rw [hip] at h
    cases h

/-- The exceptions that leave the callback: the one of the stack limit, behind as
many opening brackets, and the one of the accesses, where the root that the
reader leaves has no ip to read. -/
theorem httpReqStopNodeCb_thrown {stack : Stack} {s : State} {body : Str} {error : Json.Error}
    (h : httpReqStopNodeCb host (strictParse readDouble .null) realToString stack s body =
      .error (.thrown error)) :
    error = .runtimeError ∧ stackLimit ≤ openings body ∨
      error = .logicError ∧ ∃ document accepted jsonPost, handedToParser body = .ok document ∧
        strictParse readDouble .null document = .ok (accepted, jsonPost) ∧
          ¬HasReadableIp jsonPost := by
  cases hdocument : handedToParser body with
  | error fault =>
    rw [httpReqStopNodeCb, hdocument] at h
    cases h
  | ok document =>
    cases hparse : strictParse readDouble .null document with
    | error error' =>
      have hthrown : httpReqStopNodeCb host (strictParse readDouble .null) realToString stack s
          body = .error (.thrown error') := by
        rw [httpReqStopNodeCb, hdocument]
        change ((strictParse readDouble .null document).mapError Stop.thrown >>= _) = _
        rw [hparse]
        rfl
      rw [hthrown] at h
      cases h
      obtain ⟨herror, hopenings⟩ := strictParse_throws readDouble hparse
      have hpart : openings document ≤ openings body := by
        rw [handedToParser_eq] at hdocument
        split at hdocument
        · cases hdocument
          exact (List.takeWhile_sublist _).countP_le
        · cases hdocument
      exact Or.inl ⟨herror, hopenings.trans hpart⟩
    | ok result =>
      obtain ⟨accepted, jsonPost⟩ := result
      rw [httpReqStopNodeCb_of_parse host _ realToString hdocument hparse] at h
      cases hip : ipOf realToString jsonPost with
      | error error' =>
        rw [hip] at h
        cases h
        obtain ⟨hlogic, hunreadable⟩ := ipOf_error realToString hip
        exact Or.inr ⟨hlogic, document, accepted, jsonPost, rfl, hparse, hunreadable⟩
      | ok strIp =>
        rw [hip] at h
        dsimp only at h
        split at h
        · cases h
        · cases h

/-- The body `[]`, whose root is an array. -/
theorem httpReqStopNodeCb_thrown_array :
    ∃ document accepted jsonPost, handedToParser [91, 93] = .ok document ∧
      strictParse (fun _ => none) .null document = .ok (accepted, jsonPost) ∧
        ¬HasReadableIp jsonPost := by
  have hself : handedToParser [91, 93] = .ok [91, 93] :=
    (handedToParser_self_iff [91, 93]).mpr ⟨by decide, by decide⟩
  have hparse : strictParse (fun _ => none) .null [91, 93] = .ok (true, .array []) := rfl
  have hthrown : httpReqStopNodeCb .little (strictParse (fun _ => none) .null) (fun _ => [])
      .zeros State.init [91, 93] = .error (.thrown .logicError) := by
    rw [httpReqStopNodeCb_of_parse _ _ _ hself hparse]
    rfl
  rcases httpReqStopNodeCb_thrown .little (fun _ => []) (fun _ => none) hthrown with
    ⟨herror, _⟩ | ⟨_, hunreadable⟩
  · cases herror
  · exact hunreadable

end NodeManager.HttpReq
