import NodeManager.StopNode

/-!
# When the answer to a stop request is true

Every call that returns answers with the error code 0. This is true exactly
when the body as a whole asks to stop a node that is registered with its live
connection, and the part of the body that reaches the parser makes `DelNode`
write to that connection.
-/

namespace NodeManager.HttpReq

open ByteMemory CString Json
open Server (State)

variable (host : ByteOrder) (parse : JsonParser) (realToString : Double → Str)

/-- The error code that a reply carries. -/
def Reply.errCode (reply : Reply) : Option ℤ :=
  match reply.jsonData.resolve (chars "res") >>= fun res => res.resolve (chars "err_code") with
  | .ok (.int code) => some code
  | _ => none

/-- The answer as its receiver reads it. -/
example (readDouble : Str → Option Double) :
    strictParse readDouble .null successReply.body = .ok (true, successReply.jsonData) := rfl

/-- The body is an object whose member ip is this string. -/
def AsksToStop (body ip : Str) : Prop :=
  ∃ members, parse body = .ok (true, .object members) ∧
    KeyedList.get? (chars "ip") members = some (.string ip)

/-- The ip is registered with this bufferevent, which is not freed and on which
it last logged in. -/
def RegisteredLive (s : State) (ip : Str) (bev : Bev) : Prop :=
  MappedTo s ip bev ∧ ∃ v name, s.bevs[bev]? = some v ∧ v.freed = false ∧
    s.lastLogin ip = some (v.fd, name)

/-- The body asks to stop a registered node, and a close frame was queued to its
live connection. -/
def Stopped (stack : Stack) (s : State) (body : Str) (s' : State) : Prop :=
  ∃ ip bev, AsksToStop parse body ip ∧ RegisteredLive s ip bev ∧
    ∃ frame, NodeConnect.closeFrame host stack = .ok frame ∧
      s'.written bev = s.written bev ++ [frame]

/-- There is one reply, and its error code is 0 exactly when the node was
stopped; in every other case it is another one and nothing has changed. -/
def TellsTruth (stack : Stack) (s : State) (body : Str) : Prop :=
  ∃ s' reply, httpReqStopNodeCb host parse realToString stack s body = .ok (s', [reply]) ∧
    (reply.errCode = some 0 ↔ Stopped host parse stack s body s') ∧
    (¬Stopped host parse stack s body s' →
      (∃ code, reply.errCode = some code ∧ code ≠ 0) ∧
        s'.mapNode = s.mapNode ∧ s'.written = s.written)

theorem MappedTo.delNodeDefined {s : State} {ip : Str} {bev : Bev} (h : MappedTo s ip bev) :
    DelNodeDefined s ip := by
  intro a' hlookup'
  obtain ⟨a, x, hlookup, hx, hbev⟩ := h
  rw [hlookup] at hlookup'
  cases hlookup'
  exact ⟨x, bev, hx, hbev⟩

/-- The frame is queued to the bufferevent that the ip is mapped to, and to no
other. -/
theorem delNode_queues_iff (stack : Stack) {s : State} {strIp : Str}
    (hdefined : DelNodeDefined s strIp) (bev : Bev) :
    (∃ frame, NodeConnect.closeFrame host stack = .ok frame ∧
      (s.delNode host stack strIp).written bev = s.written bev ++ [frame]) ↔
        MappedTo s strIp bev := by
  constructor
  · rintro ⟨frame, -, hqueued⟩
    have hchanged : (s.delNode host stack strIp).written bev ≠ s.written bev := by
      intro hsame
      rw [hsame] at hqueued
      exact absurd (List.self_eq_append_right.mp hqueued) (List.cons_ne_nil _ _)
    cases hlookup : s.mapNode.lookup strIp with
    | none => exact absurd (by rw [State.delNode_unmapped stack hlookup]) hchanged
    | some a =>
      obtain ⟨x, bev', hx, hbev⟩ := hdefined a hlookup
      have hmapped : MappedTo s strIp bev' := ⟨a, x, hlookup, hx, hbev⟩
      obtain ⟨_, _, hwrite⟩ := hmapped.delNode host stack
      by_cases hsame : bev = bev'
      · exact hsame ▸ hmapped
      · rw [hwrite] at hchanged
        exact absurd (Function.update_of_ne hsame _ _) hchanged
  · intro hmapped
    obtain ⟨frame, hframe, hwrite⟩ := hmapped.delNode host stack
    refine ⟨frame, hframe, ?_⟩
    rw [hwrite]
    exact Function.update_self _ _ _

/-- The answer is true exactly when the node was stopped. -/
theorem tellsTruth_iff_stopped (stack : Stack) (s : State) (body : Str) :
    TellsTruth host parse realToString stack s body ↔ ∃ s',
      httpReqStopNodeCb host parse realToString stack s body = .ok (s', [successReply]) ∧
        Stopped host parse stack s body s' := by
  have hcode : successReply.errCode = some 0 := rfl
  constructor
  · rintro ⟨s', reply, hreturns, hiff, -⟩
    obtain ⟨_, _, _, _, _, _, _, _, _, _, hreplies⟩ :=
      (httpReqStopNodeCb_ok_iff host parse realToString).mp hreturns
    obtain ⟨rfl, -⟩ := List.cons.inj hreplies
    exact ⟨s', hreturns, hiff.mp hcode⟩
  · rintro ⟨s', hreturns, hstopped⟩
    exact ⟨s', successReply, hreturns, iff_of_true hcode hstopped,
      fun hnot => absurd hstopped hnot⟩

/-- Exactly when the answer is true. -/
theorem tellsTruth_iff (stack : Stack) (s : State) (body : Str) :
    TellsTruth host parse realToString stack s body ↔
      s.fault = none ∧ (body.length < bufSize ∨ body.length = bufSize ∧ 0 ∈ body) ∧
      ∃ ip bev, AsksToStop parse body ip ∧ RegisteredLive s ip bev ∧
        ∃ accepted jsonPost strIp, parse (upToNul body) = .ok (accepted, jsonPost) ∧
          ipOf realToString jsonPost = .ok strIp ∧ MappedTo s strIp bev := by
  rw [tellsTruth_iff_stopped]
  constructor
  · rintro ⟨s', hreturns, ip, bev, hasks, hlive, hqueued⟩
    obtain ⟨document, accepted, jsonPost, strIp, hdocument, hparse, hip, hs, hdefined, rfl, -⟩ :=
      (httpReqStopNodeCb_ok_iff host parse realToString).mp hreturns
    rw [handedToParser_eq] at hdocument
    split at hdocument
    · next hfits =>
      cases hdocument
      exact ⟨hs, hfits, ip, bev, hasks, hlive, accepted, jsonPost, strIp, hparse, hip,
        (delNode_queues_iff host stack hdefined bev).mp hqueued⟩
    · cases hdocument
  · rintro ⟨hs, hfits, ip, bev, hasks, hlive, accepted, jsonPost, strIp, hparse, hip, hmapped⟩
    have hdocument : handedToParser body = .ok (upToNul body) := by
      rw [handedToParser_eq, if_pos hfits]
    have hdefined := hmapped.delNodeDefined
    exact ⟨s.delNode host stack strIp,
      (httpReqStopNodeCb_ok_iff host parse realToString).mpr
        ⟨upToNul body, accepted, jsonPost, strIp, hdocument, hparse, hip, hs, hdefined, rfl, rfl⟩,
      ip, bev, hasks, hlive, (delNode_queues_iff host stack hdefined bev).mpr hmapped⟩

/-- A body that names an ip nobody has registered: the answer is success all the
same. -/
theorem stopNode_answersUnregistered :
    let parse := strictParse (fun _ => none) .null
    let body := chars "\x7b\"ip\":\"1.2.3.4\"\x7d"
    httpReqStopNodeCb .little parse (fun _ => []) .zeros State.init body =
        .ok (State.init, [successReply]) ∧
      ¬TellsTruth .little parse (fun _ => []) .zeros State.init body := by
  intro parse body
  constructor
  · have hself : handedToParser body = .ok body :=
      (handedToParser_self_iff body).mpr ⟨by decide, by decide⟩
    have hparse : parse body =
        .ok (true, .object [(chars "ip", .string (chars "1.2.3.4"))]) := rfl
    rw [httpReqStopNodeCb_of_parse _ _ _ hself hparse]
    rfl
  · intro h
    obtain ⟨_, _, ip, bev, _, ⟨⟨a, x, hlookup, _⟩, _⟩, _⟩ :=
      (tellsTruth_iff_stopped _ _ _ _ _ _).mp h
    cases hlookup

end NodeManager.HttpReq
