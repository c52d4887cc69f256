import NodeManager.Process
import NodeManager.SessionRuns

/-!
# Clients and the server process together

Any number of clients and the process with its threads, its pipes and its HTTP
server, each going on by its own steps, with the connections between them. In
every interleaving they do what the clients and the server do, whose steps are
larger. When the process has ended, the clients still go on.
-/

namespace NodeManager.Cluster

open ByteMemory TransitionSystem
open Session (Node End isClientRead)
open Process (Running Exclusive)

/-- The clients, the process, and how far each connection has been read. -/
structure State where
  client : Node → Client.State
  process : Process.State
  /-- The other end of a bufferevent of the server, if it is one of the clients. -/
  peer : Bev → Option End
  /-- The number of frames that the server has read from the other end. -/
  taken : Bev → ℕ
  /-- The number of frames of the server that the other end has read. -/
  got : Bev → ℕ

/-- Nobody is connected, and the threads of the pool wait. -/
def State.init (nThreadCount : Int32) : State where
  client := fun _ => Client.State.init
  process := Process.State.init nThreadCount
  peer := fun _ => none
  taken := fun _ => 0
  got := fun _ => 0

/-- The state that the clients and the server are in. -/
def State.abs (s : State) : Session.State where
  client := s.client
  server := s.process.abs
  peer := s.peer
  taken := s.taken
  got := s.got

/-- What can happen to the clients and the process. -/
inductive Event
  /-- A step of a client, but for its reads. -/
  | client (node : Node) (e : Client.Event)
  /-- A step of the process, but for its reads from a client. -/
  | process (e : Process.Event)
  /-- `Notify` calls `HandlerConnect` for a connection of a client. -/
  | connect (worker : Worker) (other : End)
  /-- A worker reads the next frame of a client. -/
  | request (bev : Bev) (stack : Stack)
  /-- A client reads the next frame of the server. -/
  | reply (bev : Bev) (stack : Stack) (now : ℤ)

/-- An event that is a read of the process from one of the clients. -/
def State.readsPeer (s : State) : Process.Event → Bool
  | .callback e => s.abs.readsPeer e
  | _ => false

variable (clientHost : Node → ByteOrder) (host : ByteOrder) (parse : Parser)
  (parseJson : HttpReq.JsonParser) (realToString : Json.Double → Str)
  (overflow : ThreadPool.SignedOverflow)

/-- The effect of an event that can happen. -/
def step (s : State) : Event → Option State
  | .client node e =>
    if isClientRead e then none
    else (Client.step (clientHost node) (s.client node) e).map fun c =>
      { s with client := Function.update s.client node c }
  | .process e =>
    if s.readsPeer e then none
    else (Process.step host parse parseJson realToString overflow s.process e).map fun process =>
      { s with process }
  | .connect worker other =>
    if (s.client other.node).sockets ≤ other.conn ∨ s.abs.connected other then none
    else (Process.step host parse parseJson realToString overflow s.process
      (.handlerConnect worker true)).map fun process =>
        { s with
          process
          peer := Function.update s.peer s.process.server.bevs.length (some other) }
  | .request bev stack =>
    match s.peer bev with
    | none => none
    | some other =>
      match (s.abs.requests other)[s.taken bev]? with
      | none => none
      | some frame => (Process.step host parse parseJson realToString overflow s.process
        (.callback (.read bev stack frame))).map fun process =>
          { s with process, taken := Function.update s.taken bev (s.taken bev + 1) }
  | .reply bev stack now =>
    match s.peer bev, (s.process.server.written bev)[s.got bev]? with
    | some other, some frame =>
      (Client.step (clientHost other.node) (s.client other.node)
        (.readCB other.conn stack frame now)).map fun c =>
          { s with
            client := Function.update s.client other.node c
            got := Function.update s.got bev (s.got bev + 1) }
    | _, _ => none

/-- The clients and the process from the end of `XThreadPool::Init`. -/
def system (nThreadCount : Int32) : System State Event :=
  ⟨State.init nThreadCount, step clientHost host parse parseJson realToString overflow⟩

/-- The steps of the clients and the server that an event is. -/
def Matches : Event → List Session.Event → Prop
  | .client node e, fs => fs = [.client node e]
  | .process e, fs => ∃ es, Process.Matches e es ∧ fs = es.map .server
  | .connect worker other, fs => fs = [.connect worker other]
  | .request bev stack, fs => fs = [.request bev stack]
  | .reply bev stack now, fs => fs = [.reply bev stack now]

section Inversion

variable {clientHost host parse parseJson realToString overflow} {s s' : State}

theorem step_process {e : Process.Event}
    (h : step clientHost host parse parseJson realToString overflow s (.process e) = some s') :
    s.readsPeer e = false ∧ ∃ process,
      Process.step host parse parseJson realToString overflow s.process e = some process ∧
      s' = { s with process } := by
  rw [step] at h
  split at h
  · cases h
  · next hread =>
    obtain ⟨process, hprocess, rfl⟩ := Option.map_eq_some_iff.mp h
    exact ⟨Bool.eq_false_iff.mpr hread, process, hprocess, rfl⟩

theorem step_connect {worker : Worker} {other : End}
    (h : step clientHost host parse parseJson realToString overflow s (.connect worker other) =
      some s') :
    ¬((s.client other.node).sockets ≤ other.conn ∨ s.abs.connected other = true) ∧ ∃ process,
      Process.step host parse parseJson realToString overflow s.process
        (.handlerConnect worker true) = some process ∧
      s' = { s with
        process
        peer := Function.update s.peer s.process.server.bevs.length (some other) } := by
  rw [step] at h
  split at h
  · cases h
  · next hready =>
    obtain ⟨process, hprocess, rfl⟩ := Option.map_eq_some_iff.mp h
    exact ⟨hready, process, hprocess, rfl⟩

theorem step_request {bev : Bev} {stack : Stack}
    (h : step clientHost host parse parseJson realToString overflow s (.request bev stack) =
      some s') :
    ∃ other frame process, s.peer bev = some other ∧
      (s.abs.requests other)[s.taken bev]? = some frame ∧
      Process.step host parse parseJson realToString overflow s.process
        (.callback (.read bev stack frame)) = some process ∧
      s' = { s with process, taken := Function.update s.taken bev (s.taken bev + 1) } := by
  rw [step] at h
  split at h
  · cases h
  · next other hother =>
    split at h
    · cases h
    · next frame hframe =>
      obtain ⟨process, hprocess, rfl⟩ := Option.map_eq_some_iff.mp h
      exact ⟨other, frame, process, hother, hframe, hprocess, rfl⟩

/-- The process does not show in a step of a client. -/
theorem step_client {node : Node} {e : Client.Event}
    (h : step clientHost host parse parseJson realToString overflow s (.client node e) = some s') :
    s'.process = s.process ∧
      Session.step clientHost host parse s.abs (.client node e) = some s'.abs := by
  rw [step] at h
  split at h
  · cases h
  · next hread =>
    obtain ⟨c, hc, rfl⟩ := Option.map_eq_some_iff.mp h
    have hclient : Client.step (clientHost node) (s.abs.client node) e = some c := hc
    rw [Session.step, if_neg hread, hclient]
    exact ⟨rfl, rfl⟩

/-- Nor does it in a read of a client. -/
theorem step_reply_abs (bev : Bev) (stack : Stack) (now : ℤ) :
    Session.step clientHost host parse s.abs (.reply bev stack now) =
      (step clientHost host parse parseJson realToString overflow s (.reply bev stack now)).map
        State.abs := by
  have hpeer : s.abs.peer bev = s.peer bev := rfl
  have hwritten : (s.abs.server.written bev)[s.abs.got bev]? =
      (s.process.server.written bev)[s.got bev]? := rfl
  rw [Session.step, step, hpeer, hwritten]
  cases s.peer bev with
  | none => rfl
  | some other =>
    cases (s.process.server.written bev)[s.got bev]? with
    | none => rfl
    | some frame =>
      dsimp only
      rw [Option.map_map]
      rfl

theorem step_reply {bev : Bev} {stack : Stack} {now : ℤ}
    (h : step clientHost host parse parseJson realToString overflow s (.reply bev stack now) =
      some s') :
    s'.process = s.process ∧
      Session.step clientHost host parse s.abs (.reply bev stack now) = some s'.abs := by
  refine ⟨?_, ?_⟩
  · rw [step] at h
    split at h
    · obtain ⟨c, _, rfl⟩ := Option.map_eq_some_iff.mp h
      rfl
    · cases h
  · exact (step_reply_abs bev stack now).trans (congrArg (Option.map State.abs) h)

end Inversion

section Simulation

variable {clientHost host parse parseJson realToString overflow} {s s' : State}

/-- Steps of the server alone, none of them a read from a client. -/
theorem runFrom_server {s : Session.State} {es : List Server.Event} {t : Server.State}
    (hread : ∀ e ∈ es, s.readsPeer e = false)
    (hruns : (Server.system host parse).runFrom s.server es = some t) :
    (Session.system clientHost host parse).runFrom s (es.map .server) =
      some { s with server := t } := by
  induction es generalizing s with
  | nil =>
    cases hruns
    rfl
  | cons e es ih =>
    obtain ⟨hfirst, hlater⟩ := List.forall_mem_cons.mp hread
    rw [System.runFrom, Option.bind_eq_some_iff] at hruns
    obtain ⟨u, hu, hruns⟩ := hruns
    have hstep : Session.step clientHost host parse s (.server e) =
        some { s with server := u } := by
      have hserver : Server.step host parse s.server e = some u := hu
      rw [Session.step, if_neg (Bool.eq_false_iff.mp hfirst), hserver]
      rfl
    have hone : (Session.system clientHost host parse).step s (.server e) =
        some { s with server := u } := hstep
    rw [List.map_cons, System.runFrom_cons hone]
    have hlater' : ∀ f ∈ es, Session.State.readsPeer { s with server := u } f = false := hlater
    exact ih hlater' hruns

/-- An event of the process that reads from no client stands for no such read. -/
theorem readsPeer_of_matches {e : Process.Event} (hread : s.readsPeer e = false)
    {es : List Server.Event} (hmatched : Process.Matches e es) :
    ∀ f ∈ es, s.abs.readsPeer f = false := by
  have hone : ∀ {g : Server.Event}, es = [g] → s.abs.readsPeer g = false →
      ∀ f ∈ es, s.abs.readsPeer f = false := by
    rintro g rfl hg f hf
    rwa [List.mem_singleton.mp hf]
  have hnone : es = [] → ∀ f ∈ es, s.abs.readsPeer f = false := by
    rintro rfl f hf
    cases hf
  cases e with
  | accept pNodeCon =>
    obtain ⟨worker, hes⟩ := hmatched
    exact hone hes rfl
  | active written => exact hnone hmatched
  | readByte worker => exact hnone hmatched
  | popFront worker => exact hnone hmatched
  | handlerConnect worker created => exact hone hmatched rfl
  | callback e => exact hone hmatched hread
  | httpReqGetAllNodes => exact hone hmatched rfl
  | httpReqStopNode stack body =>
    obtain ⟨strIp, hes⟩ := hmatched
    exact hone hes rfl

/-- Each event is matched, but for one that ends the process without a step of
the server. -/
theorem matched_step (hexclusive : Exclusive s.process) {e : Event}
    (hstep : step clientHost host parse parseJson realToString overflow s e = some s') :
    Exclusive s'.process ∧ ∃ fs, (Matches e fs ∨ ¬Running s'.process ∧ fs = []) ∧
      (Session.system clientHost host parse).runFrom s.abs fs = some s'.abs := by
  have hone : ∀ {f : Session.Event},
      Session.step clientHost host parse s.abs f = some s'.abs →
        (Session.system clientHost host parse).runFrom s.abs [f] = some s'.abs :=
    fun hf => System.runFrom_singleton hf
  cases e with
  | client node e =>
    obtain ⟨hsame, hclient⟩ := step_client hstep
    exact ⟨hsame ▸ hexclusive, _, Or.inl rfl, hone hclient⟩
  | process e =>
    obtain ⟨hread, process, hprocess, rfl⟩ := step_process hstep
    obtain ⟨hnext, es, hcases, hruns⟩ :=
      Process.matched_or_ended host parse parseJson realToString overflow hexclusive hprocess
    refine ⟨hnext, es.map .server, ?_, ?_⟩
    · rcases hcases with hmatched | ⟨hended, rfl⟩
      · exact Or.inl ⟨es, hmatched, rfl⟩
      · exact Or.inr ⟨hended, rfl⟩
    · refine runFrom_server (s := s.abs) ?_ hruns
      rcases hcases with hmatched | ⟨_, rfl⟩
      · exact readsPeer_of_matches hread hmatched
      · exact fun f hf => nomatch hf
  | connect worker other =>
    obtain ⟨hready, process, hprocess, rfl⟩ := step_connect hstep
    obtain ⟨hnext, hserver⟩ := Process.matched_handlerConnect hexclusive hprocess
    refine ⟨hnext, _, Or.inl rfl, hone ?_⟩
    have hserver' : Server.step host parse s.abs.server (.handlerConnect worker true) =
        some process.abs := hserver
    have hready' : ¬((s.abs.client other.node).sockets ≤ other.conn ∨
        s.abs.connected other = true) := hready
    rw [Session.step, if_neg hready', hserver']
    rfl
  | request bev stack =>
    obtain ⟨other, frame, process, hpeer, hframe, hprocess, rfl⟩ := step_request hstep
    obtain ⟨hnext, hserver⟩ := Process.matched_callback hexclusive hprocess
    refine ⟨hnext, _, Or.inl rfl, hone ?_⟩
    have hserver' : Server.step host parse s.abs.server (.read bev stack frame) =
        some process.abs := hserver
    have hpeer' : s.abs.peer bev = some other := hpeer
    have hframe' : (s.abs.requests other)[s.abs.taken bev]? = some frame := hframe
    rw [Session.step, hpeer']
    dsimp only
    rw [hframe']
    dsimp only
    rw [hserver']
    rfl
  | reply bev stack now =>
    obtain ⟨hsame, hreply⟩ := step_reply hstep
    exact ⟨hsame ▸ hexclusive, _, Or.inl rfl, hone hreply⟩

/-- A process that has ended stays as it is. -/
theorem running_before {e : Event}
    (hstep : step clientHost host parse parseJson realToString overflow s e = some s')
    (hrunning : Running s'.process) : Running s.process := by
  cases e with
  | client node e => exact (step_client hstep).1 ▸ hrunning
  | process e =>
    obtain ⟨_, _, hprocess, _⟩ := step_process hstep
    exact Process.running_of_step hprocess
  | connect worker other =>
    obtain ⟨_, _, hprocess, _⟩ := step_connect hstep
    exact Process.running_of_step hprocess
  | request bev stack =>
    obtain ⟨_, _, _, _, _, hprocess, _⟩ := step_request hstep
    exact Process.running_of_step hprocess
  | reply bev stack now => exact (step_reply hstep).1 ▸ hrunning

end Simulation

/-- What holds after a run: it is one of the clients and the server as well. -/
structure After (events : List Event) (s : State) : Prop where
  exclusive : Exclusive s.process
  refines : ∃ fss, (Running s.process → List.Forall₂ Matches events fss) ∧
    (Session.system clientHost host parse).run fss.flatten = some s.abs

variable {clientHost host parse parseJson realToString overflow}
  {nThreadCount : Int32} {events : List Event} {s : State}

theorem After.step {s' : State} {e : Event} (h : After clientHost host parse events s)
    (hstep : Cluster.step clientHost host parse parseJson realToString overflow s e = some s') :
    After clientHost host parse (events ++ [e]) s' := by
  obtain ⟨fss, hmatched, hruns⟩ := h.refines
  obtain ⟨hnext, fs, hcases, hone⟩ := matched_step h.exclusive hstep
  refine ⟨hnext, fss ++ [fs], fun hrunning => ?_, ?_⟩
  · have hlast : Matches e fs := hcases.resolve_right fun hended => hended.1 hrunning
    exact List.rel_append (hmatched (running_before hstep hrunning)) (.cons hlast .nil)
  · rw [List.flatten_append, System.run_append hruns, List.flatten_singleton, hone]

theorem after_run (hrun : (system clientHost host parse parseJson realToString overflow
    nThreadCount).run events = some s) : After clientHost host parse events s := by
  have hinit : After clientHost host parse [] (State.init nThreadCount) :=
    ⟨fun _ hbusy => absurd rfl hbusy, [], fun _ => .nil, rfl⟩
  exact System.run_induction (A := fun _ => True) (After clientHost host parse) hinit
    (fun _ _ _ _ _ h hstep => h.step hstep) (fun _ _ => trivial) hrun

/-- In every interleaving of any number of clients with the threads of the process,
whatever other peers, pipes and HTTP requests do, the clients and the process do
what the clients and the server do. As long as the process runs, they do it event
by event: one `HandlerConnect` for each connection, one read for each read and
one call of `DelNode` for each request to stop a node. -/
theorem cluster_refines (hrun : (system clientHost host parse parseJson realToString overflow
    nThreadCount).run events = some s) :
    ∃ fss, (Running s.process → List.Forall₂ Matches events fss) ∧
      (Session.system clientHost host parse).run fss.flatten = some s.abs :=
  (after_run hrun).refines

/-- A node has logged in, is listed and has read the response. -/
def listedNode : List Event := [.client 0 (.connectToSerd 0 .pending), .process (.accept 7),
  .process (.active true), .process (.readByte 0), .process (.popFront 0), .connect 0 ⟨0, 0⟩,
  .client 0 .readTerminal, .request 0 .zeros, .process (.callback (.resume 0)),
  .process (.callback (.resume 0)), .process (.callback (.resume 0)),
  .process (.callback (.resume 0)), .process .httpReqGetAllNodes, .reply 0 .zeros 5]

/-- The node is asked to stop. -/
def stoppedNode : List Event := listedNode ++
  [.process (.httpReqStopNode .zeros (Json.chars "\x7b\"ip\":\"123.456.789.452\"\x7d"))]

/-- The clients and the process on a reader that reads no doubles. -/
def integralSystem : System State Event :=
  system (fun _ => .little) .big ReqNodeLogin.parseFromIstream
    (Json.strictParse (fun _ => none) .null) (fun _ => []) .undefined 5

theorem cluster_refines_stoppedNode : ∃ s, integralSystem.run stoppedNode = some s ∧
    s.process.replies.length = 2 ∧
    ∃ fss, (Running s.process → List.Forall₂ Matches stoppedNode fss) ∧
      (Session.system (fun _ => .little) .big ReqNodeLogin.parseFromIstream).run fss.flatten =
        some s.abs := by
  have hruns : (integralSystem.run stoppedNode).any
      (fun s => s.process.replies.length = 2) = true := by decide +kernel
  obtain ⟨s, hrun, hreplies⟩ := (Option.any_eq_true _ _).mp hruns
  exact ⟨s, hrun, of_decide_eq_true hreplies, cluster_refines hrun⟩

end NodeManager.Cluster
