import NodeManager.Cluster
import NodeManager.StopNodeAnswer
import NodeManager.StopSettles

/-!
# A node exits when it is asked to over HTTP

In every interleaving of the clients with the threads of the process, a node
exits only after a request to `/v1/nodeManager/StopNode` whose body named an ip
that was mapped to one of its connections; and after such a request the node
exits once it has read what is on its way.
-/

namespace NodeManager

open ByteMemory TransitionSystem

/-- `HttpReqStopNodeCb` reads the ip from the body. -/
def HttpReq.ReadsIp (parse : HttpReq.JsonParser) (realToString : Json.Double → Str)
    (body strIp : Str) : Prop :=
  ∃ document accepted jsonPost, handedToParser body = .ok document ∧
    parse document = .ok (accepted, jsonPost) ∧ ipOf realToString jsonPost = .ok strIp

/-- Of the steps that an event of the process stands for, only a request to stop
a node is a call of `DelNode`. -/
theorem Process.delNode_of_matches {e : Process.Event} {es : List Server.Event}
    (h : Process.Matches e es) : es = [] ∨ ∃ f, es = [f] ∧ (f.isDelNode = true →
      (∃ stack body, e = .httpReqStopNode stack body) ∨ e = .callback f) := by
  cases e with
  | accept pNodeCon =>
    obtain ⟨worker, hes⟩ := h
    exact Or.inr ⟨_, hes, fun hdel => nomatch hdel⟩
  | active written => exact Or.inl h
  | readByte worker => exact Or.inl h
  | popFront worker => exact Or.inl h
  | handlerConnect worker created => exact Or.inr ⟨_, h, fun hdel => nomatch hdel⟩
  | callback f => exact Or.inr ⟨f, h, fun _ => Or.inr rfl⟩
  | httpReqGetAllNodes => exact Or.inr ⟨_, h, fun hdel => nomatch hdel⟩
  | httpReqStopNode stack body =>
    obtain ⟨strIp, hes⟩ := h
    exact Or.inr ⟨_, hes, fun _ => Or.inl ⟨stack, body, rfl⟩⟩

namespace Cluster

open Session (Node End isClientRead)
open Process (Running Exclusive)

variable (clientHost : Node → ByteOrder) (host : ByteOrder) (parse : Parser)
  (parseJson : HttpReq.JsonParser) (realToString : Json.Double → Str)
  (overflow : ThreadPool.SignedOverflow) (nThreadCount : Int32)

/-- A request to stop a node was made, and the ip that was read from its body was
mapped to the bufferevent. -/
def Requested (events : List Event) (bev : Bev) : Prop :=
  ∃ before stack body after t strIp,
    events = before ++ .process (.httpReqStopNode stack body) :: after ∧
    (system clientHost host parse parseJson realToString overflow nThreadCount).run before =
      some t ∧
    HttpReq.ReadsIp parseJson realToString body strIp ∧
    HttpReq.MappedTo t.process.server strIp bev

variable {clientHost host parse parseJson realToString overflow nThreadCount}
  {events : List Event} {s s' : State} {bev : Bev} {other : End}

/-- What holds of the clients and the server holds here as well. -/
theorem After.session (h : After clientHost host parse events s) :
    ∃ es, Session.After clientHost host parse es s.abs := by
  obtain ⟨fss, _, hruns⟩ := h.refines
  exact ⟨fss.flatten, Session.after_run hruns⟩

theorem Requested.append
    (h : Requested clientHost host parse parseJson realToString overflow nThreadCount events bev)
    (e : Event) : Requested clientHost host parse parseJson realToString overflow nThreadCount
      (events ++ [e]) bev := by
  obtain ⟨before, stack, body, after, t, strIp, rfl, hrun, hreads, hmapped⟩ := h
  exact ⟨before, stack, body, after ++ [e], t, strIp,
    by rw [List.append_assoc, List.cons_append], hrun, hreads, hmapped⟩

/-- A step of the process writes the first close frame only on such a request. -/
theorem requested_process (hafter : After clientHost host parse events s)
    {e : Process.Event} {process : Process.State}
    (hprocess : Process.step host parse parseJson realToString overflow s.process e = some process)
    (hbefore : s.process.server.closeFrames bev = [])
    (hclosed : process.server.closeFrames bev ≠ []) :
    ∃ stack body strIp, e = .httpReqStopNode stack body ∧
      HttpReq.ReadsIp parseJson realToString body strIp ∧
      HttpReq.MappedTo s.process.server strIp bev := by
  obtain ⟨_, hsession⟩ := hafter.session
  have hdelNode : ∀ {f : Server.Event},
      Server.step host parse s.process.abs f = some process.abs → f.isDelNode = true := by
    intro f hf
    obtain ⟨strIp, stack, rfl, _⟩ := Server.closed_of_step hsession.inv.server
      hsession.inv.repliesOnly hf hbefore hclosed
    rfl
  have hrequest : (∃ stack body, e = .httpReqStopNode stack body) ∨ ∃ f, e = .callback f ∧
      f.isDelNode = true := by
    obtain ⟨_, es, hcases, hruns⟩ := Process.matched_or_ended host parse parseJson realToString
      overflow hafter.exclusive hprocess
    have hnone : es ≠ [] := by
      rintro rfl
      have hsame : process.abs = s.process.abs := (Option.some.inj hruns).symm
      have hframes : process.abs.closeFrames bev = s.process.abs.closeFrames bev := by rw [hsame]
      exact hclosed (hframes.trans hbefore)
    have hmatched := hcases.resolve_right fun hended => hnone hended.2
    obtain ⟨f, rfl, hdel⟩ := (Process.delNode_of_matches hmatched).resolve_left hnone
    have hf : Server.step host parse s.process.abs f = some process.abs := by
      rw [System.runFrom, Option.bind_eq_some_iff] at hruns
      obtain ⟨t, ht, hlast⟩ := hruns
      rw [← hlast]
      exact ht
    exact (hdel (hdelNode hf)).imp_right fun he => ⟨f, he, hdelNode hf⟩
  rcases hrequest with ⟨stack, body, rfl⟩ | ⟨f, rfl, hdel⟩
  · obtain ⟨_, rfl⟩ := Process.step_httpReqStopNode hprocess
    cases hreply : HttpReq.httpReqStopNodeCb host parseJson realToString stack s.process.server
        body with
    | error stop =>
      rw [hreply] at hclosed
      exact absurd hbefore hclosed
    | ok result =>
      obtain ⟨server, replies⟩ := result
      rw [hreply] at hclosed
      obtain ⟨document, accepted, jsonPost, strIp, hdocument, hparse, hip, _, _, rfl, _⟩ :=
        (HttpReq.httpReqStopNodeCb_ok_iff host parseJson realToString).mp hreply
      refine ⟨stack, body, strIp, rfl, ⟨document, accepted, jsonPost, hdocument, hparse, hip⟩, ?_⟩
      rcases (Server.delNode_frames host s.process.server stack strIp).1 bev with
        hquiet | ⟨frame, hmapped, _⟩
      · dsimp only at hclosed
        rw [Server.State.closeFrames, hquiet] at hclosed
        exact absurd hbefore hclosed
      · exact hmapped
  · -- a worker makes no such call
    obtain ⟨worker, _, hworker, _⟩ := Process.step_callback hprocess
    cases f with
    | delNode strIp stack => cases hworker
    | _ => cases hdel

theorem requested_step (hafter : After clientHost host parse events s)
    (hrun : (system clientHost host parse parseJson realToString overflow nThreadCount).run
      events = some s) {e : Event}
    (hstep : step clientHost host parse parseJson realToString overflow s e = some s')
    (hold : s.process.server.closeFrames bev ≠ [] → Requested clientHost host parse parseJson
      realToString overflow nThreadCount events bev)
    (hclosed : s'.process.server.closeFrames bev ≠ []) :
    Requested clientHost host parse parseJson realToString overflow nThreadCount (events ++ [e])
      bev := by
  by_cases hbefore : s.process.server.closeFrames bev = []
  · cases e with
    | client node e =>
      rw [(step_client hstep).1] at hclosed
      exact absurd hbefore hclosed
    | process e =>
      obtain ⟨_, process, hprocess, rfl⟩ := step_process hstep
      obtain ⟨stack, body, strIp, rfl, hreads, hmapped⟩ :=
        requested_process hafter hprocess hbefore hclosed
      exact ⟨events, stack, body, [], s, strIp, rfl, hrun, hreads, hmapped⟩
    | connect worker other =>
      obtain ⟨_, process, hprocess, rfl⟩ := step_connect hstep
      obtain ⟨_, _, _, hevent, _⟩ := requested_process hafter hprocess hbefore hclosed
      cases hevent
    | request bev stack =>
      obtain ⟨_, _, process, _, _, hprocess, rfl⟩ := step_request hstep
      obtain ⟨_, _, _, hevent, _⟩ := requested_process hafter hprocess hbefore hclosed
      cases hevent
    | reply bev stack now =>
      rw [(step_reply hstep).1] at hclosed
      exact absurd hbefore hclosed
  · exact (hold hbefore).append e

/-- Every close frame goes back to a request. -/
theorem requested_run
    (hrun : (system clientHost host parse parseJson realToString overflow nThreadCount).run
      events = some s) (hclosed : s.process.server.closeFrames bev ≠ []) :
    Requested clientHost host parse parseJson realToString overflow nThreadCount events bev := by
  refine (System.run_induction (A := fun _ => True) (fun events s =>
    (system clientHost host parse parseJson realToString overflow nThreadCount).run events =
      some s ∧ (s.process.server.closeFrames bev ≠ [] → Requested clientHost host parse parseJson
        realToString overflow nThreadCount events bev)) ?_ ?_ (fun _ _ => trivial) hrun).2 hclosed
  · exact ⟨rfl, fun h => absurd rfl h⟩
  · rintro events s e s' _ ⟨hbefore, hold⟩ hstep
    exact ⟨(System.run_append hbefore [e]).trans (System.runFrom_singleton hstep),
      requested_step (after_run hbefore) hbefore hstep hold⟩

/-- A client exits only after a request to stop the ip of one of its connections. -/
theorem exits_requested
    (hrun : (system clientHost host parse parseJson realToString overflow nThreadCount).run
      events = some s) {node : Node} (hexited : (s.client node).status = .exited) :
    ∃ bev conn, s.peer bev = some ⟨node, conn⟩ ∧
      Requested clientHost host parse parseJson realToString overflow nThreadCount events bev := by
  obtain ⟨_, hsession⟩ := (after_run hrun).session
  obtain ⟨bev, conn, hpeer, hclosed⟩ := (hsession.exits node hexited).closed
  exact ⟨bev, conn, hpeer, requested_run hrun hclosed⟩

theorem exits_requested_exitedNode : ∃ (s : State) (bev : Bev) (conn : ℕ),
    s.peer bev = some ⟨0, conn⟩ ∧ Requested (fun _ => .little) .big ReqNodeLogin.parseFromIstream
      (Json.strictParse (fun _ => none) .null) (fun _ => []) .undefined 5
      (stoppedNode ++ [.reply 0 .zeros 6]) bev := by
  have hruns : (integralSystem.run (stoppedNode ++ [.reply 0 .zeros 6])).any
      (fun s => (s.client 0).status = .exited) = true := by decide +kernel
  obtain ⟨s, hrun, hexited⟩ := (Option.any_eq_true _ _).mp hruns
  obtain ⟨bev, conn, hpeer, hrequested⟩ := exits_requested hrun (of_decide_eq_true hexited)
  exact ⟨s, bev, conn, hpeer, hrequested⟩

/-- What the server has written stays. -/
theorem written_run (h : After clientHost host parse events s) {more : List Event}
    (hmore : (system clientHost host parse parseJson realToString overflow nThreadCount).runFrom s
      more = some s') (bev : Bev) :
    s.process.server.written bev <+: s'.process.server.written bev := by
  induction more generalizing s events with
  | nil =>
    cases hmore
    exact List.prefix_refl _
  | cons e more ih =>
    rw [System.runFrom, Option.bind_eq_some_iff] at hmore
    obtain ⟨t, hstep, hrest⟩ := hmore
    obtain ⟨_, hsession⟩ := h.session
    obtain ⟨_, fs, _, hruns⟩ := matched_step h.exclusive hstep
    exact (Session.written_run hsession.inv hruns bev).trans (ih (h.step hstep) hrest)

/-- A request has written a close frame to the bufferevent. -/
theorem Requested.written
    (h : Requested clientHost host parse parseJson realToString overflow nThreadCount events bev)
    (hrun : (system clientHost host parse parseJson realToString overflow nThreadCount).run
      events = some s) :
    ∃ frame ∈ s.process.server.written bev, ∀ client,
      ClientConnect.Receives client frame .reqCloseNode := by
  obtain ⟨before, stack, body, after, t, strIp, rfl, hbefore, hreads, hmapped⟩ := h
  rw [System.run_append hbefore, System.runFrom, Option.bind_eq_some_iff] at hrun
  obtain ⟨t', hstep, hafter⟩ := hrun
  have hasked : step clientHost host parse parseJson realToString overflow t
      (.process (.httpReqStopNode stack body)) = some t' := hstep
  have hnext := (after_run hbefore).step hasked
  obtain ⟨_, process, hprocess, rfl⟩ := step_process hasked
  have hfault := (Process.running_of_step hprocess).1
  obtain ⟨_, rfl⟩ := Process.step_httpReqStopNode hprocess
  obtain ⟨document, accepted, jsonPost, hdocument, hparse, hip⟩ := hreads
  obtain ⟨frame, hframe, hdel⟩ := hmapped.delNode host stack
  have hreply : HttpReq.httpReqStopNodeCb host parseJson realToString stack t.process.server body =
      .ok (t.process.server.delNode host stack strIp, [HttpReq.successReply]) :=
    (HttpReq.httpReqStopNodeCb_ok_iff host parseJson realToString).mpr
      ⟨document, accepted, jsonPost, strIp, hdocument, hparse, hip, hfault,
        hmapped.delNodeDefined, rfl, rfl⟩
  refine ⟨frame, (written_run hnext hafter bev).mem ?_, NodeConnect.receives_closeFrame hframe⟩
  have hwritten : (t.process.server.delNode host stack strIp).written bev =
      t.process.server.written bev ++ [frame] := by
    rw [hdel]
    exact Function.update_self ..
  rw [hreply]
  dsimp only
  rw [hwritten]
  exact List.mem_append_right _ List.mem_cons_self

/-- A read of the client at the other end of a bufferevent. -/
def ReadsFrom (bev : Bev) (e : Event) : Prop := ∃ stack now, e = .reply bev stack now

/-- In every run in which a request to stop a node named an ip that was mapped to
a connection of a client, the client has exited or it will: its reads from that
connection come to an end, and however far they went, they lead to its exit. -/
theorem request_settles
    (hrun : (system clientHost host parse parseJson realToString overflow nThreadCount).run
      events = some s)
    (hrequested : Requested clientHost host parse parseJson realToString overflow nThreadCount
      events bev)
    (hpeer : s.peer bev = some other) (hlistens : (s.client other.node).Listens other.conn)
    (halive : (s.client other.node).status ≠ .crashed) :
    (system clientHost host parse parseJson realToString overflow nThreadCount).Settles
      (ReadsFrom bev) (fun s => (s.client other.node).status = .exited) s := by
  obtain ⟨_, hsession⟩ := (after_run hrun).session
  have hstopping : Session.Stopping clientHost bev other s.abs :=
    Session.Stopping.of_written hsession.run (hrequested.written hrun) hpeer hlistens halive
  refine System.settles_of_measure (I := fun s => Session.Stopping clientHost bev other s.abs)
    (fun s => (s.abs.inFlight bev).length) ?_ ?_ hstopping
  · rintro s _ s' h ⟨stack, now, rfl⟩ hstep
    have hread : step clientHost host parse parseJson realToString overflow s
        (.reply bev stack now) = some s' := hstep
    exact h.step ⟨stack, now, rfl⟩ (step_reply hread).2
  · intro s h hleft
    obtain ⟨_, t, ⟨stack, now, rfl⟩, hreply⟩ :
        ∃ e t, Session.ReadsFrom bev e ∧ Session.step clientHost host parse s.abs e = some t :=
      h.enabled hleft
    have habs : (step clientHost host parse parseJson realToString overflow s
        (.reply bev stack now)).map State.abs = some t :=
      (step_reply_abs bev stack now).symm.trans hreply
    obtain ⟨s', hstep, _⟩ := Option.map_eq_some_iff.mp habs
    exact ⟨.reply bev stack now, s', ⟨stack, now, rfl⟩, hstep⟩

theorem request_settles_stoppedNode : ∃ s, integralSystem.run stoppedNode = some s ∧
    integralSystem.Settles (ReadsFrom 0) (fun s => (s.client 0).status = .exited) s := by
  have hreads : HttpReq.ReadsIp (Json.strictParse (fun _ => none) .null) (fun _ => [])
      (Json.chars "\x7b\"ip\":\"123.456.789.452\"\x7d") ClientConnect.loginMessage.ip :=
    ⟨Json.chars "\x7b\"ip\":\"123.456.789.452\"\x7d", true,
      .object [(Json.chars "ip", .string ClientConnect.loginMessage.ip)],
      (HttpReq.handedToParser_self_iff _).mpr ⟨by decide, by decide⟩, rfl, rfl⟩
  have hmapped : (integralSystem.run listedNode).any (fun s =>
      (s.process.server.mapNode.lookup ClientConnect.loginMessage.ip).any fun a =>
        (s.process.server.heap a).any fun x => x.bev = some 0) = true := by decide +kernel
  have hends : (integralSystem.run stoppedNode).any (fun s => s.peer 0 = some ⟨0, 0⟩ ∧
      (s.client 0).status = .running ∧
        ((s.client 0).conn 0).any (fun c => c.callbacks && !c.freed) = true) = true := by
    decide +kernel
  obtain ⟨t, ht, ha⟩ := (Option.any_eq_true _ _).mp hmapped
  obtain ⟨a, hlookup, hx⟩ := (Option.any_eq_true _ _).mp ha
  obtain ⟨x, hheap, hbev⟩ := (Option.any_eq_true _ _).mp hx
  obtain ⟨s, hrun, hall⟩ := (Option.any_eq_true _ _).mp hends
  obtain ⟨hpeer, hrunning, hconn⟩ := of_decide_eq_true hall
  obtain ⟨c, hc, hopen⟩ := (Option.any_eq_true _ _).mp hconn
  obtain ⟨hcallbacks, hfreed⟩ := (Bool.and_eq_true _ _).mp hopen
  have hrequested : Requested (fun _ => .little) .big ReqNodeLogin.parseFromIstream
      (Json.strictParse (fun _ => none) .null) (fun _ => []) .undefined 5 stoppedNode 0 :=
    ⟨listedNode, .zeros, _, [], t, _, rfl, ht, hreads, a, x, hlookup, hheap,
      of_decide_eq_true hbev⟩
  have halive : (s.client 0).status ≠ .crashed := by
    rw [hrunning]
    decide
  exact ⟨s, hrun, request_settles hrun hrequested hpeer
    ⟨c, hc, hcallbacks, (Bool.not_eq_true' c.freed).mp hfreed⟩ halive⟩

end Cluster

end NodeManager
