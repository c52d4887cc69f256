import NodeManager.HttpDocuments
import NodeManager.LoginProvenance
import NodeManager.ProcessSettles

/-!
# What the process answers

The faults that end the process need a deleted object, a percent sign of the
listing, the body of a stop request or the overflow of the counter of
`DispatchThread`. Until one of these comes up, in any interleaving, each request to
the HTTP server has one reply, which is its document byte for byte. The data races
of the callbacks and their reads behind `databuff` are not looked at here.
-/

namespace NodeManager.Process

open ByteMemory TransitionSystem

/-- The writer makes no percent sign of the text. -/
def PercentFree (text : Str) : Prop := 37 ∉ Json.codePoints text

variable (host : ByteOrder) (parse : Parser) (parseJson : HttpReq.JsonParser)

/-- The body of a stop request ends in its buffer, and what the parser makes of it
has an ip that can be read. -/
def HasIp (body : Str) : Prop :=
  ∃ document accepted jsonPost, HttpReq.handedToParser body = .ok document ∧
    parseJson document = .ok (accepted, jsonPost) ∧ HttpReq.HasReadableIp jsonPost

/-- The event deletes no object, reads no percent sign in a login and no stop
request without an ip. -/
def Harmless (e : Event) : Prop :=
  KeepsObjects e ∧ match e with
  | .callback e => ∀ login ∈ e.logins host parse,
      PercentFree login.2.strIp ∧ PercentFree login.2.strName
  | .httpReqStopNode _ body => HasIp parseJson body
  | _ => True

/-- The event is a request to the HTTP server. -/
def Event.isRequest : Event → Bool
  | .httpReqGetAllNodes => true
  | .httpReqStopNode _ _ => true
  | _ => false

variable (realToString : Json.Double → Str)

/-- What holds while only harmless events come up. -/
structure Serves (nThreadCount : Int32) (s : State) : Prop where
  connected : Connected nThreadCount s
  told : s.abs.Told (fun _ => PercentFree) (fun _ => PercentFree)
  replied : ∀ reply ∈ s.replies, reply.body = Json.write realToString reply.jsonData

variable {host parse parseJson realToString} {overflow : ThreadPool.SignedOverflow}
  {nThreadCount : Int32} {s s' : State} {events : List Event}

theorem percentFree_nil : PercentFree [] := List.not_mem_nil

theorem Serves.init : Serves realToString nThreadCount (State.init nThreadCount) where
  connected := Connected.init
  told := ⟨fun h => (nomatch h), fun h => (nomatch h), fun h => (nomatch h), fun h => (nomatch h)⟩
  replied := fun _ h => nomatch h

/-- The server goes on with logins that have no percent sign. -/
theorem told_runFrom {s s' : Server.State} {es : List Server.Event}
    (h : s.Told (fun _ => PercentFree) (fun _ => PercentFree))
    (hlogins : ∀ e ∈ es, ∀ login ∈ e.logins host parse,
      PercentFree login.2.strIp ∧ PercentFree login.2.strName)
    (hrun : (Server.system host parse).runFrom s es = some s') :
    s'.Told (fun _ => PercentFree) (fun _ => PercentFree) := by
  induction es generalizing s with
  | nil =>
    cases hrun
    exact h
  | cons e es ih =>
    rw [System.runFrom, Option.bind_eq_some_iff] at hrun
    obtain ⟨t, hstep, hrest⟩ := hrun
    have ht := h.step (fun _ => percentFree_nil)
      (fun login hlogin _ _ => hlogins e List.mem_cons_self login hlogin) hstep
    exact ih ht (fun f hf => hlogins f (List.mem_cons_of_mem e hf)) hrest

/-- The logins of a harmless event have no percent sign. -/
theorem Harmless.logins {e : Event} (h : Harmless host parse parseJson e) {es : List Server.Event}
    (hmatched : Matches e es) : ∀ f ∈ es, ∀ login ∈ f.logins host parse,
      PercentFree login.2.strIp ∧ PercentFree login.2.strName := by
  intro f hf login hlogin
  cases e with
  | accept pNodeCon =>
    obtain ⟨worker, rfl⟩ := hmatched
    cases List.mem_singleton.mp hf
    cases hlogin
  | callback e =>
    obtain rfl : es = [e] := hmatched
    obtain rfl := List.mem_singleton.mp hf
    exact h.2 login hlogin
  | httpReqStopNode stack body =>
    obtain ⟨strIp, rfl⟩ := hmatched
    cases List.mem_singleton.mp hf
    cases hlogin
  | handlerConnect worker created =>
    obtain rfl : es = [.handlerConnect worker created] := hmatched
    cases List.mem_singleton.mp hf
    cases hlogin
  | httpReqGetAllNodes =>
    obtain rfl : es = [.getAllNode] := hmatched
    cases List.mem_singleton.mp hf
    cases hlogin
  | _ =>
    obtain rfl : es = [] := hmatched
    cases hf

/-- A reply that is its document. -/
theorem successReply_written :
    HttpReq.successReply.body = Json.write realToString HttpReq.successReply.jsonData := rfl

/-- A request is answered, once, and no other event sends a reply. -/
theorem Serves.replies (h : Serves realToString nThreadCount s) {e : Event}
    (hharmless : Harmless host parse parseJson e)
    (hstep : step host parse parseJson realToString overflow s e = some s') :
    s'.stopped = none ∧ ∃ more, s'.replies = s.replies ++ more ∧
      more.length = [e].countP Event.isRequest ∧
      ∀ reply ∈ more, reply.body = Json.write realToString reply.jsonData := by
  have hok := h.connected.running
  have hquiet : s'.stopped = s.stopped → s'.replies = s.replies → e.isRequest = false →
      s'.stopped = none ∧ ∃ more, s'.replies = s.replies ++ more ∧
        more.length = [e].countP Event.isRequest ∧
        ∀ reply ∈ more, reply.body = Json.write realToString reply.jsonData := by
    intro hstopped hreplies hnone
    refine ⟨hstopped.trans hok.2.2, [], by rw [hreplies, List.append_nil], ?_,
      fun _ hr => nomatch hr⟩
    rw [List.countP_singleton, hnone]
    rfl
  cases e with
  | accept pNodeCon =>
    obtain ⟨_, pool, _, rfl⟩ := step_accept hstep
    refine hquiet ?_ ?_ rfl
    · split
      · rfl
      · rfl
    · split
      · rfl
      · rfl
  | active written =>
    obtain ⟨pool, _, rfl⟩ := step_active hstep
    exact hquiet rfl rfl rfl
  | readByte worker =>
    obtain ⟨_, pool, _, rfl⟩ := step_readByte hstep
    exact hquiet rfl rfl rfl
  | popFront worker =>
    obtain ⟨pool, _, rfl⟩ := step_popFront hstep
    exact hquiet rfl rfl rfl
  | handlerConnect worker created =>
    obtain ⟨_, pool, _, _, rfl⟩ := step_handlerConnect hstep
    exact hquiet rfl rfl rfl
  | callback e =>
    obtain ⟨_, server, _, _, _, rfl⟩ := step_callback hstep
    exact hquiet rfl rfl rfl
  | httpReqGetAllNodes =>
    have hclean : ∀ ip a, s.server.mapNode.lookup ip = some a → ∃ x, s.server.heap a = some x ∧
        37 ∉ Json.codePoints ip ∧ 37 ∉ Json.codePoints x.strNodeName := by
      intro ip a hlookup
      obtain ⟨x, hx, _⟩ := h.connected.alive.mapped hlookup
      exact ⟨x, hx, h.told.mapped hlookup, h.told.named hx⟩
    obtain ⟨listing, _, _, hreply⟩ := HttpReq.replied_of_clean realToString hclean
    obtain ⟨_, hnext⟩ := step_httpReqGetAllNodes hstep
    rw [hreply] at hnext
    obtain rfl := hnext
    refine ⟨hok.2.2, _, rfl, rfl, fun reply hr => ?_⟩
    rw [List.mem_singleton.mp hr]
  | httpReqStopNode stack body =>
    obtain ⟨document, accepted, jsonPost, hdocument, hparse, hreadable⟩ := hharmless.2
    obtain ⟨strIp, hip⟩ := (HttpReq.ipOf_ok_iff realToString jsonPost).mpr hreadable
    have hdefined : HttpReq.DelNodeDefined s.server strIp := by
      intro a hlookup
      obtain ⟨x, hx, hbev⟩ := h.connected.alive.mapped hlookup
      obtain ⟨bev, hbev⟩ := Option.ne_none_iff_exists'.mp hbev
      exact ⟨x, bev, hx, hbev⟩
    have hreturns : HttpReq.httpReqStopNodeCb host parseJson realToString stack s.server body =
        .ok (s.server.delNode host stack strIp, [HttpReq.successReply]) :=
      (HttpReq.httpReqStopNodeCb_ok_iff host parseJson realToString).mpr
        ⟨document, accepted, jsonPost, strIp, hdocument, hparse, hip, hok.1, hdefined, rfl, rfl⟩
    obtain ⟨_, hnext⟩ := step_httpReqStopNode hstep
    rw [hreturns] at hnext
    obtain rfl := hnext
    refine ⟨hok.2.2, _, rfl, rfl, fun reply hr => ?_⟩
    rw [List.mem_singleton.mp hr]
    exact successReply_written

/-- Every harmless event. -/
theorem Serves.step (h : Serves realToString nThreadCount s) (hcount : 1 ≤ nThreadCount.toInt)
    {e : Event} (hharmless : Harmless host parse parseJson e)
    (hfew : s.server.accepted + (accepts [e]).length ≤ 2 ^ 31)
    (hstep : Process.step host parse parseJson realToString overflow s e = some s') :
    Serves realToString nThreadCount s' ∧
      s'.server.accepted = s.server.accepted + (accepts [e]).length ∧
      s'.replies.length = s.replies.length + [e].countP Event.isRequest := by
  obtain ⟨hstopped, more, hreplies, hlength, hwritten⟩ := h.replies hharmless hstep
  obtain ⟨hconnected, haccepted⟩ := h.connected.step hcount hharmless.1 hfew hstopped hstep
  obtain ⟨_, es, hmatched, hserver⟩ := matched_step host parse parseJson realToString overflow
    h.connected.exclusive hconnected.running.2.1 hstopped hstep
  refine ⟨⟨hconnected, told_runFrom h.told (hharmless.logins hmatched) hserver, ?_⟩, haccepted, ?_⟩
  · intro reply hreply
    rw [hreplies] at hreply
    rcases List.mem_append.mp hreply with hold | hnew
    · exact h.replied reply hold
    · exact hwritten reply hnew
  · rw [hreplies, List.length_append, hlength]

/-- In every interleaving in which no object is deleted, no login has a percent
sign, every stop request has an ip and the counter does not overflow, whatever
writes to the pipes fail: no fault and no exception ends the process, and each
request to the HTTP server has one reply, which is its document byte for byte. -/
theorem process_serves (hcount : 1 ≤ nThreadCount.toInt)
    (hharmless : ∀ e ∈ events, Harmless host parse parseJson e)
    (hfew : (accepts events).length ≤ 2 ^ 31)
    (hrun : (system host parse parseJson realToString overflow nThreadCount).run events = some s) :
    Running s ∧ s.replies.length = events.countP Event.isRequest ∧
      ∀ reply ∈ s.replies, reply.body = Json.write realToString reply.jsonData := by
  have hall : (accepts events).length ≤ 2 ^ 31 → Serves realToString nThreadCount s ∧
      s.server.accepted = (accepts events).length ∧
      s.replies.length = events.countP Event.isRequest := by
    refine System.run_induction (fun events s => (accepts events).length ≤ 2 ^ 31 →
      Serves realToString nThreadCount s ∧ s.server.accepted = (accepts events).length ∧
        s.replies.length = events.countP Event.isRequest)
      (fun _ => ⟨Serves.init, rfl, rfl⟩) ?_ hharmless hrun
    intro events s e s' he h hstep hfew
    rw [accepts_append, List.length_append] at hfew ⊢
    obtain ⟨hserves, haccepted, hreplies⟩ := h (by omega)
    rw [← haccepted] at hfew ⊢
    rw [List.countP_append, ← hreplies]
    exact hserves.step hcount he hfew hstep
  obtain ⟨hserves, _, hreplies⟩ := hall hfew
  exact ⟨hserves.connected.running, hreplies, hserves.replied⟩

theorem oneNode_harmless : ∀ e ∈ oneNode, Harmless .little ReqNodeLogin.parseFromIstream
    (Json.strictParse (fun _ => none) .null) e := by
  have hlogins : ∀ login ∈ Server.Event.logins .little ReqNodeLogin.parseFromIstream
      (.read 0 .zeros ([0, 100, 2, 1, 0, 3, 0, 101] ++ List.replicate 16 0 ++ [10, 1, 49])),
      37 ∉ Json.codePoints login.2.strIp ∧ 37 ∉ Json.codePoints login.2.strName := by
    decide +kernel
  have hip : HasIp (Json.strictParse (fun _ => none) .null)
      (Json.chars "\x7b\"ip\":\"1\"\x7d") := by
    refine ⟨_, true, .object [(Json.chars "ip", .string (Json.chars "1"))],
      (HttpReq.handedToParser_self_iff _).mpr ⟨by decide, by decide⟩, rfl,
      Or.inr ⟨_, rfl, fun ip hget => ?_⟩⟩
    cases hget
    exact trivial
  intro e he
  simp only [oneNode, List.mem_cons, List.not_mem_nil, or_false] at he
  rcases he with rfl | rfl | rfl | rfl | rfl | rfl | rfl | rfl | rfl | rfl | rfl | rfl
  · exact ⟨trivial, trivial⟩
  · exact ⟨trivial, trivial⟩
  · exact ⟨trivial, trivial⟩
  · exact ⟨trivial, trivial⟩
  · exact ⟨rfl, trivial⟩
  · exact ⟨id, hlogins⟩
  · exact ⟨id, fun _ hlogin => nomatch hlogin⟩
  · exact ⟨id, fun _ hlogin => nomatch hlogin⟩
  · exact ⟨id, fun _ hlogin => nomatch hlogin⟩
  · exact ⟨id, fun _ hlogin => nomatch hlogin⟩
  · exact ⟨trivial, trivial⟩
  · exact ⟨trivial, hip⟩

theorem process_serves_oneNode : ∃ s,
    (system .little ReqNodeLogin.parseFromIstream (Json.strictParse (fun _ => none) .null)
      (fun _ => []) .undefined 5).run oneNode = some s ∧ Running s ∧ s.replies.length = 2 := by
  have hruns : ((system .little ReqNodeLogin.parseFromIstream
      (Json.strictParse (fun _ => none) .null) (fun _ => []) .undefined 5).run oneNode).isSome =
        true := by decide +kernel
  obtain ⟨s, hrun⟩ := Option.isSome_iff_exists.mp hruns
  obtain ⟨hrunning, hreplies, _⟩ := process_serves (by decide) oneNode_harmless (by decide) hrun
  exact ⟨s, hrun, hrunning, hreplies⟩

end NodeManager.Process
