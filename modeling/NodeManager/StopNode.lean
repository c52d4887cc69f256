import NodeManager.HttpReq
import NodeManager.JsonReader

/-!
# Which bodies the stop request survives

`HttpReqStopNodeCb` returns when the body ends in its buffer, the parser does
not throw, what it leaves behind has an ip that can be read as a string, and
`DelNode` finds nothing dangling; the verdict of the parser does not matter.
-/

namespace NodeManager.HttpReq

open ByteMemory CString Json
open Server (State)

variable (host : ByteOrder) (parse : JsonParser) (realToString : Double → Str)

/-- The body is copied within the buffer, the parser gets exactly the body,
nothing is thrown, and there is one reply. -/
def Survives (stack : Stack) (s : State) (body : Str) : Prop :=
  handedToParser body = .ok body ∧ ∃ s' reply,
    httpReqStopNodeCb host parse realToString stack s body = .ok (s', [reply])

/-- A value that `asString` does not throw on. -/
def Scalar : Value → Prop
  | .array _ => False
  | .object _ => False
  | _ => True

/-- `jsonPost["ip"].asString()` does not throw: the root is null or an object,
and its member ip, where it has one, neither an array nor an object. -/
def HasReadableIp (jsonPost : Value) : Prop :=
  jsonPost = .null ∨ ∃ members, jsonPost = .object members ∧
    ∀ ip, KeyedList.get? (chars "ip") members = some ip → Scalar ip

/-- The ip is mapped to a live object that has this bufferevent. -/
def MappedTo (s : State) (ip : Str) (bev : Bev) : Prop :=
  ∃ a x, s.mapNode.lookup ip = some a ∧ s.heap a = some x ∧ x.bev = some bev

/-- `DelNode` meets no undefined behaviour: the ip is not registered, or its
object is live and has a bufferevent. -/
def DelNodeDefined (s : State) (strIp : Str) : Prop :=
  ∀ a, s.mapNode.lookup strIp = some a → ∃ x bev, s.heap a = some x ∧ x.bev = some bev

/-- The string in the buffer ends where the body does, or at its first NUL. -/
theorem handedToParser_eq (body : Str) : handedToParser body =
    if body.length < bufSize ∨ body.length = bufSize ∧ 0 ∈ body then .ok (upToNul body)
    else .error .outOfBounds := by
  have hbuf : (List.replicate bufSize (0 : UInt8)).length = bufSize := List.length_replicate
  by_cases hfits : body.length ≤ bufSize
  · have hcopy : store (List.replicate bufSize 0) 0 body =
        .ok (body ++ List.replicate (bufSize - body.length) 0) := by
      rw [store, if_pos (by rw [hbuf]; omega), List.take_zero, List.nil_append, Nat.zero_add,
        List.drop_replicate]
    rw [handedToParser, hcopy, ok_bind, loadString]
    by_cases hless : body.length < bufSize
    · obtain ⟨more, hmore⟩ : ∃ more, bufSize - body.length = more + 1 :=
        ⟨bufSize - body.length - 1, by omega⟩
      rw [hmore, List.replicate_succ, upToNul_append_nul, if_pos (Or.inl hless), if_pos]
      exact List.mem_append_right _ List.mem_cons_self
    · have hequal : body.length = bufSize := by omega
      rw [hequal, Nat.sub_self, List.replicate_zero, List.append_nil]
      simp only [lt_irrefl, false_or, true_and]
  · have hoverflow : store (List.replicate bufSize 0) 0 body = .error .outOfBounds := by
      rw [store, if_neg (by rw [hbuf]; omega)]
    have hneither : ¬(body.length < bufSize ∨ body.length = bufSize ∧ 0 ∈ body) := by
      omega
    rw [handedToParser, hoverflow, if_neg hneither]
    rfl

/-- The parser gets the body itself when it leaves room for the NUL and has none
of its own. -/
theorem handedToParser_self_iff (body : Str) :
    handedToParser body = .ok body ↔ body.length < bufSize ∧ 0 ∉ body := by
  rw [handedToParser_eq, ← upToNul_eq_self_iff]
  constructor
  · intro h
    split at h
    · next hends =>
      have hself := Except.ok.inj h
      rcases hends with hless | ⟨_, hnul⟩
      · exact ⟨hless, hself⟩
      · exact absurd hnul (upToNul_eq_self_iff.mp hself)
    · cases h
  · rintro ⟨hless, hself⟩
    rw [if_pos (Or.inl hless), hself]

theorem asString_ok_iff (v : Value) : (∃ text, v.asString realToString = .ok text) ↔ Scalar v := by
  cases v with
  | array elements => exact ⟨fun ⟨_, h⟩ => (nomatch h), fun h => h.elim⟩
  | object members => exact ⟨fun ⟨_, h⟩ => (nomatch h), fun h => h.elim⟩
  | _ => exact ⟨fun _ => trivial, fun _ => ⟨_, rfl⟩⟩

theorem ipOf_ok_iff (jsonPost : Value) :
    (∃ ip, ipOf realToString jsonPost = .ok ip) ↔ HasReadableIp jsonPost := by
  cases jsonPost with
  | null => exact iff_of_true ⟨[], rfl⟩ (Or.inl rfl)
  | object members =>
    have hip : ipOf realToString (.object members) =
        ((KeyedList.get? (chars "ip") members).getD .null).asString realToString := rfl
    have hreadable : HasReadableIp (.object members) ↔
        Scalar ((KeyedList.get? (chars "ip") members).getD .null) := by
      cases hget : KeyedList.get? (chars "ip") members with
      | none =>
        refine iff_of_true (Or.inr ⟨members, rfl, fun ip h => ?_⟩) trivial
        rw [hget] at h
        cases h
      | some member =>
        constructor
        · rintro (h | ⟨members', h, hscalar⟩)
          · cases h
          · cases h
            exact hscalar member hget
        · intro hscalar
          refine Or.inr ⟨members, rfl, fun ip h => ?_⟩
          rw [hget] at h
          cases h
          exact hscalar
    rw [hip, hreadable]
    exact asString_ok_iff realToString _
  | _ => exact iff_of_false (fun ⟨_, h⟩ => nomatch h) (by rintro (h | ⟨_, h, _⟩) <;> cases h)

/-- `DelNode` writes a close frame to the bufferevent that the ip is mapped to. -/
theorem MappedTo.delNode (stack : Stack) {s : State} {strIp : Str} {bev : Bev}
    (h : MappedTo s strIp bev) : ∃ frame, NodeConnect.closeFrame host stack = .ok frame ∧
      s.delNode host stack strIp = s.buffereventWrite bev frame := by
  obtain ⟨a, x, hlookup, hx, hbev⟩ := h
  exact State.delNode_of_bev stack hlookup hx hbev

theorem delNode_fault_iff (stack : Stack) (s : State) (strIp : Str) :
    (s.delNode host stack strIp).fault = none ↔ s.fault = none ∧ DelNodeDefined s strIp := by
  cases hlookup : s.mapNode.lookup strIp with
  | none =>
    rw [State.delNode_unmapped stack hlookup]
    refine (and_iff_left fun a ha => ?_).symm
    rw [hlookup] at ha
    cases ha
  | some a =>
    have hdefined : DelNodeDefined s strIp ↔ ∃ x bev, s.heap a = some x ∧ x.bev = some bev := by
      constructor
      · intro h
        exact h a hlookup
      · intro h a' ha'
        rw [← Option.some.inj (hlookup.symm.trans ha')]
        exact h
    have hdel : s.delNode host stack strIp = s.sendReqCloseNode host stack a := by
      rw [State.delNode, hlookup]
    rw [hdefined, hdel]
    cases hx : s.heap a with
    | none =>
      have hfreed : s.sendReqCloseNode host stack a = s.fail .useAfterFree := by
        rw [State.sendReqCloseNode, hx]
      rw [hfreed]
      refine iff_of_false (Option.some_ne_none _) ?_
      rintro ⟨_, x, _, hnone, _⟩
      cases hnone
    | some x =>
      cases hbev : x.bev with
      | none =>
        have hnull : s.sendReqCloseNode host stack a = s.fail .nullBev := by
          rw [State.sendReqCloseNode, hx]
          dsimp only
          rw [NodeConnect.closeFrame_eq, hbev]
        rw [hnull]
        refine iff_of_false (Option.some_ne_none _) ?_
        rintro ⟨_, x', bev, hx', hbev'⟩
        rw [← Option.some.inj hx', hbev] at hbev'
        cases hbev'
      | some bev =>
        have hmapped : MappedTo s strIp bev := ⟨a, x, hlookup, hx, hbev⟩
        obtain ⟨frame, _, hwrite⟩ := hmapped.delNode host stack
        rw [← hdel, hwrite]
        exact (and_iff_left ⟨x, bev, rfl, hbev⟩).symm

/-- The reply of every call that returns. -/
def successReply : Reply where
  jsonData := .object [(chars "res", .object successMembers)]
  body := chars "\x7b\"res\":\x7b\"err_code\":0,\"err_msg\":\"success\"\x7d\x7d\n"

/-- What happens behind the parser, whose verdict is not looked at. -/
theorem httpReqStopNodeCb_of_parse {stack : Stack} {s : State} {body document : Str}
    {accepted : Bool} {jsonPost : Value} (hdocument : handedToParser body = .ok document)
    (hparse : parse document = .ok (accepted, jsonPost)) :
    httpReqStopNodeCb host parse realToString stack s body =
      match ipOf realToString jsonPost with
      | .error error => .error (.thrown error)
      | .ok strIp =>
        match (s.delNode host stack strIp).fault with
        | some fault => .error (.server fault)
        | none => .ok (s.delNode host stack strIp, [successReply]) := by
  rw [httpReqStopNodeCb, hdocument]
  change ((parse document).mapError Stop.thrown >>= _) = _
  rw [hparse]
  change ((ipOf realToString jsonPost).mapError Stop.thrown >>= _) = _
  cases ipOf realToString jsonPost <;> rfl

/-- A call that returns has gone through all of its parts, and has replied once
and always the same. -/
theorem httpReqStopNodeCb_ok_iff {stack : Stack} {s s' : State} {body : Str}
    {replies : List Reply} :
    httpReqStopNodeCb host parse realToString stack s body = .ok (s', replies) ↔
      ∃ document accepted jsonPost strIp, handedToParser body = .ok document ∧
        parse document = .ok (accepted, jsonPost) ∧ ipOf realToString jsonPost = .ok strIp ∧
        s.fault = none ∧ DelNodeDefined s strIp ∧
        s' = s.delNode host stack strIp ∧ replies = [successReply] := by
  constructor
  · intro h
    cases hdocument : handedToParser body with
    | error fault =>
      rw [httpReqStopNodeCb, hdocument] at h
      cases h
    | ok document =>
      cases hparse : parse document with
      | error error =>
        rw [httpReqStopNodeCb, hdocument] at h
        change ((parse document).mapError Stop.thrown >>= _) = _ at h
        rw [hparse] at h
        cases h
      | ok result =>
        obtain ⟨accepted, jsonPost⟩ := result
        rw [httpReqStopNodeCb_of_parse host parse realToString hdocument hparse] at h
        cases hip : ipOf realToString jsonPost with
        | error error =>
          rw [hip] at h
          cases h
        | ok strIp =>
          rw [hip] at h
          dsimp only at h
          cases hdel : (s.delNode host stack strIp).fault with
          | some fault =>
            rw [hdel] at h
            cases h
          | none =>
            rw [hdel] at h
            cases h
            obtain ⟨hs, hdefined⟩ := (delNode_fault_iff host stack s strIp).mp hdel
            exact ⟨document, accepted, jsonPost, strIp, rfl, hparse, hip, hs, hdefined, rfl, rfl⟩
  · rintro ⟨document, accepted, jsonPost, strIp, hdocument, hparse, hip, hs, hdefined, rfl, rfl⟩
    rw [httpReqStopNodeCb_of_parse host parse realToString hdocument hparse, hip]
    dsimp only
    rw [(delNode_fault_iff host stack s strIp).mpr ⟨hs, hdefined⟩]

/-- A call that returns is an event of the server. -/
theorem httpReqStopNodeCb_step (pbParse : Parser) {stack : Stack} {s s' : State} {body : Str}
    {replies : List Reply}
    (h : httpReqStopNodeCb host parse realToString stack s body = .ok (s', replies)) :
    ∃ strIp, Server.step host pbParse s (.delNode strIp stack) = some s' := by
  obtain ⟨_, _, _, strIp, _, _, _, hs, _, rfl, _⟩ :=
    (httpReqStopNodeCb_ok_iff host parse realToString).mp h
  refine ⟨strIp, ?_⟩
  rw [Server.step, if_neg (not_not.mpr hs)]

/-- Exactly when a body is survived, whatever the parser does. -/
theorem survives_iff (stack : Stack) (s : State) (body : Str) :
    Survives host parse realToString stack s body ↔
      body.length < bufSize ∧ 0 ∉ body ∧ s.fault = none ∧
      ∃ accepted jsonPost, parse body = .ok (accepted, jsonPost) ∧ HasReadableIp jsonPost ∧
        ∀ ip, ipOf realToString jsonPost = .ok ip → DelNodeDefined s ip := by
  constructor
  · rintro ⟨hself, s', reply, hreturns⟩
    obtain ⟨document, accepted, jsonPost, strIp, hdocument, hparse, hip, hs, hdefined, -⟩ :=
      (httpReqStopNodeCb_ok_iff host parse realToString).mp hreturns
    obtain ⟨hless, hnul⟩ := (handedToParser_self_iff body).mp hself
    rw [hself] at hdocument
    cases hdocument
    refine ⟨hless, hnul, hs, accepted, jsonPost, hparse,
      (ipOf_ok_iff realToString jsonPost).mp ⟨strIp, hip⟩, fun ip h => ?_⟩
    rw [hip] at h
    cases h
    exact hdefined
  · rintro ⟨hless, hnul, hs, accepted, jsonPost, hparse, hreadable, hdefined⟩
    have hself := (handedToParser_self_iff body).mpr ⟨hless, hnul⟩
    obtain ⟨strIp, hip⟩ := (ipOf_ok_iff realToString jsonPost).mpr hreadable
    exact ⟨hself, s.delNode host stack strIp, successReply,
      (httpReqStopNodeCb_ok_iff host parse realToString).mpr
        ⟨body, accepted, jsonPost, strIp, hself, hparse, hip, hs, hdefined strIp hip, rfl, rfl⟩⟩

/-- The body `[]`: it parses, and its root is an array, which has no members. -/
theorem stopNode_arrayThrows :
    let parse := strictParse (fun _ => none) .null
    httpReqStopNodeCb .little parse (fun _ => []) .zeros State.init [91, 93] =
        .error (.thrown .logicError) ∧
      ¬Survives .little parse (fun _ => []) .zeros State.init [91, 93] := by
  intro parse
  have hself : handedToParser [91, 93] = .ok [91, 93] :=
    (handedToParser_self_iff [91, 93]).mpr ⟨by decide, by decide⟩
  have hparse : parse [91, 93] = .ok (true, .array []) := rfl
  have hthrown : httpReqStopNodeCb .little parse (fun _ => []) .zeros State.init [91, 93] =
      .error (.thrown .logicError) := by
    rw [httpReqStopNodeCb_of_parse _ _ _ hself hparse]
    rfl
  refine ⟨hthrown, ?_⟩
  rintro ⟨-, s', reply, hreturns⟩
  rw [hthrown] at hreturns
  cases hreturns

end NodeManager.HttpReq
