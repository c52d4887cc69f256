import NodeManager.SessionSettles
import NodeManager.SocketOwners

/-!
# The whole settles

While no connection ends and no write to a pipe fails, what the threads of the
process have to do is bounded by what has been accepted and sent. In any order
that they are scheduled in, they connect every accepted socket, on the worker
whose turn it is and for the client whose connection it is, and answer every
request on it. None of them waits for another one, for a client or for the HTTP
server.
-/

namespace NodeManager.Cluster

open ByteMemory TransitionSystem
open Session (Node End)
open Process (Running)

/-- The events of the process that an event is. -/
def Acts : Event → List Process.Event → Prop
  | .client _ _, es => es = []
  | .process e, es => es = [e]
  | .connect worker _, es => es = [.handlerConnect worker true]
  | .request bev stack, es => ∃ frame, es = [.callback (.read bev stack frame)]
  | .reply _ _ _, es => es = []

/-- The connections that are accepted. -/
def accepts (events : List Event) : List Addr :=
  events.flatMap fun
    | .process e => Process.accepts [e]
    | _ => []

/-- A step that the process takes without a new connection or a request of the
HTTP server; to read what a client has sent is one. -/
def Own : Event → Prop
  | .process e => Process.Own e
  | .connect _ _ => True
  | .request _ _ => True
  | _ => False

/-- Nothing is going on, every accepted socket is connected on the worker whose turn
it is, each socket of a client for its owner, and every request of the owners has its
one answer. -/
structure Served (owner : Owner) (nThreadCount : Int32) (host : ByteOrder) (accepted : ℕ)
    (s : State) : Prop where
  connected : Process.AllConnected nThreadCount accepted s.process
  paired : ∀ k < accepted, ∀ other, owner k = some other →
    ∃ bev v, s.process.server.bevs[bev]? = some v ∧ v.fd = k ∧ s.peer bev = some other
  answered : Session.AllAnswered host s.abs

variable {clientHost : Node → ByteOrder} {host : ByteOrder} {parse : Parser}
  {parseJson : HttpReq.JsonParser} {realToString : Json.Double → Str}
  {overflow : ThreadPool.SignedOverflow} {nThreadCount : Int32}
  {events : List Event} {s s' : State}

theorem process_step {e : Event}
    (hstep : step clientHost host parse parseJson realToString overflow s e = some s') :
    ∃ es, Acts e es ∧ (Process.system host parse parseJson realToString overflow
      nThreadCount).runFrom s.process es = some s'.process := by
  have hone : ∀ {f : Process.Event} {process : Process.State},
      Process.step host parse parseJson realToString overflow s.process f = some process →
        (Process.system host parse parseJson realToString overflow nThreadCount).runFrom
          s.process [f] = some process :=
    fun hf => System.runFrom_singleton hf
  cases e with
  | client node e =>
    refine ⟨[], rfl, ?_⟩
    rw [(step_client hstep).1, System.runFrom_nil]
  | process e =>
    obtain ⟨_, process, hprocess, rfl⟩ := step_process hstep
    exact ⟨[e], rfl, hone hprocess⟩
  | connect worker other =>
    obtain ⟨_, process, hprocess, rfl⟩ := step_connect hstep
    exact ⟨_, rfl, hone hprocess⟩
  | request bev stack =>
    obtain ⟨_, frame, process, _, _, hprocess, rfl⟩ := step_request hstep
    exact ⟨_, ⟨frame, rfl⟩, hone hprocess⟩
  | reply bev stack now =>
    refine ⟨[], rfl, ?_⟩
    rw [(step_reply hstep).1, System.runFrom_nil]

theorem process_run
    (hrun : (system clientHost host parse parseJson realToString overflow nThreadCount).run
      events = some s) :
    ∃ ess, List.Forall₂ Acts events ess ∧ (Process.system host parse parseJson realToString
      overflow nThreadCount).run ess.flatten = some s.process :=
  (System.run_of_simulation (I := fun _ => True) State.process rfl trivial
    (fun _ _ _ _ => trivial) (fun _ _ _ _ (_ : True) hstep => ⟨trivial, process_step hstep⟩)
    hrun trivial).2

/-- The part of the process deletes nothing, has no failed write and accepts the
same connections. -/
theorem of_acts {ess : List (List Process.Event)} (hacts : List.Forall₂ Acts events ess)
    (hkeeps : ∀ e ∈ events, KeepsObjects e)
    (hwrites : ∀ e ∈ events, e ≠ .process (.active false)) :
    (∀ f ∈ ess.flatten, Process.KeepsObjects f) ∧ (∀ f ∈ ess.flatten, f ≠ .active false) ∧
      Process.accepts ess.flatten = accepts events := by
  induction hacts with
  | nil => exact ⟨fun _ hf => (nomatch hf), fun _ hf => (nomatch hf), rfl⟩
  | @cons e es events ess hact _ ih =>
    obtain ⟨hkeep, hkeeps⟩ := List.forall_mem_cons.mp hkeeps
    obtain ⟨hwrite, hwrites⟩ := List.forall_mem_cons.mp hwrites
    obtain ⟨hkept, hwritten, haccepts⟩ := ih hkeeps hwrites
    have hfirst : (∀ f ∈ es, Process.KeepsObjects f) ∧ (∀ f ∈ es, f ≠ .active false) ∧
        Process.accepts es = accepts [e] := by
      cases e with
      | client node e =>
        obtain rfl : es = [] := hact
        exact ⟨fun _ hf => (nomatch hf), fun _ hf => (nomatch hf), rfl⟩
      | process e =>
        obtain rfl : es = [e] := hact
        refine ⟨List.forall_mem_singleton.mpr hkeep, List.forall_mem_singleton.mpr ?_,
          (List.append_nil _).symm⟩
        rintro rfl
        exact hwrite rfl
      | connect worker other =>
        obtain rfl : es = [.handlerConnect worker true] := hact
        exact ⟨List.forall_mem_singleton.mpr rfl,
          List.forall_mem_singleton.mpr Process.Event.noConfusion, rfl⟩
      | request bev stack =>
        obtain ⟨frame, rfl⟩ : ∃ frame, es = [.callback (.read bev stack frame)] := hact
        exact ⟨List.forall_mem_singleton.mpr id,
          List.forall_mem_singleton.mpr Process.Event.noConfusion, rfl⟩
      | reply bev stack now =>
        obtain rfl : es = [] := hact
        exact ⟨fun _ hf => (nomatch hf), fun _ hf => (nomatch hf), rfl⟩
    rw [List.flatten_cons]
    refine ⟨List.forall_mem_append.mpr ⟨hfirst.1, hkept⟩,
      List.forall_mem_append.mpr ⟨hfirst.2.1, hwritten⟩, ?_⟩
    rw [Process.accepts_append, hfirst.2.2, haccepts, accepts, accepts, accepts,
      ← List.flatMap_append, List.singleton_append]

theorem Own.keepsObjects {e : Event} (hown : Own e) : KeepsObjects e := by
  cases e with
  | process e => exact (Process.Own.keepsObjects hown).1
  | _ => trivial

/-- No connection has more requests. -/
def Bounded (most : ℕ) (s : State) : Prop :=
  ∀ other, (s.abs.requests other).length ≤ most

/-- Only the clients send requests. -/
theorem requests_congr {s s' : Session.State} (hclient : s'.client = s.client) (other : End) :
    s'.requests other = s.requests other := by
  rw [Session.State.requests, Session.State.requests, hclient]

/-- An event of a client adds two requests at most to each connection. -/
theorem bounded_update {most : ℕ} (h : Bounded most s) {node : Node} {e : Client.Event}
    {c : Client.State} (hstep : Client.step (clientHost node) (s.client node) e = some c)
    (other : End) :
    ((Function.update s.client node c other.node).framesOn other.conn).length ≤ most + 2 := by
  have hbefore := h other
  by_cases hsame : other.node = node
  · rw [hsame, Function.update_self]
    rw [Session.State.requests, State.abs, hsame] at hbefore
    exact (Client.framesOn_length_step hstep other.conn).trans (Nat.add_le_add_right hbefore 2)
  · rw [Function.update_of_ne hsame]
    exact hbefore.trans (Nat.le_add_right _ 2)

theorem bounded_step {most : ℕ} (h : Bounded most s) {e : Event}
    (hstep : step clientHost host parse parseJson realToString overflow s e = some s') :
    Bounded (most + 2) s' := by
  have hsame : s'.client = s.client → Bounded (most + 2) s' := by
    intro hclient other
    rw [requests_congr (s := s.abs) hclient]
    exact (h other).trans (Nat.le_add_right _ 2)
  cases e with
  | client node e =>
    obtain ⟨_, hclient⟩ := step_client hstep
    obtain ⟨_, c, hc, hnext⟩ := Session.step_client hclient
    intro other
    rw [hnext]
    exact bounded_update h hc other
  | process e =>
    obtain ⟨_, process, _, rfl⟩ := step_process hstep
    exact hsame rfl
  | connect worker other =>
    obtain ⟨_, process, _, rfl⟩ := step_connect hstep
    exact hsame rfl
  | request bev stack =>
    obtain ⟨_, _, process, _, _, _, rfl⟩ := step_request hstep
    exact hsame rfl
  | reply bev stack now =>
    obtain ⟨_, hreply⟩ := step_reply hstep
    obtain ⟨_, _, c, _, _, hc, hnext⟩ := Session.step_reply hreply
    intro other
    rw [hnext]
    exact bounded_update h hc other

theorem bounded_run
    (hrun : (system clientHost host parse parseJson realToString overflow nThreadCount).run
      events = some s) : ∃ most, Bounded most s := by
  refine System.run_induction (A := fun _ => True) (fun _ s => ∃ most, Bounded most s) ?_ ?_
    (fun _ _ => trivial) hrun
  · exact ⟨0, fun other => Nat.le_refl 0⟩
  · rintro _ s e s' _ ⟨most, h⟩ hstep
    exact ⟨most + 2, bounded_step h hstep⟩

/-- A bufferevent that is new has nothing to do but to read what its client has
sent. -/
theorem owedSteps_grown {s s' : Session.State} {most : ℕ} (hinv : Server.Inv s.server)
    (hbevs : ∃ v, s'.server.bevs = s.server.bevs ++ [v] ∧ s'.server.pending = s.server.pending)
    (hclient : s'.client = s.client) (htaken : s'.taken = s.taken)
    (hpeer : ∀ bev < s.server.bevs.length, s'.peer bev = s.peer bev)
    (hmost : ∀ other, (s.requests other).length ≤ most) :
    Session.owedSteps s' ≤ Session.owedSteps s + 5 * most := by
  obtain ⟨v, hbevs, hpending⟩ := hbevs
  have hnew : s'.unread s.server.bevs.length ≤ most ∧
      s'.server.tasksOn s.server.bevs.length = [] := by
    refine ⟨?_, ?_⟩
    · rw [Session.State.unread]
      split
      · exact Nat.zero_le most
      · next other _ =>
        rw [requests_congr hclient]
        exact (Nat.sub_le _ _).trans (hmost other)
    · rw [Server.State.tasksOn, hbevs, List.getElem?_concat_length, hpending]
      refine List.filter_eq_nil_iff.mpr fun task htask hsame => ?_
      obtain ⟨u, hu, _⟩ := hinv.1.taskBev htask
      have hlt := (List.getElem?_eq_some_iff.mp hu).1
      exact absurd (of_decide_eq_true hsame) hlt.ne
  have hold : ∀ bev ∈ Finset.range s.server.bevs.length,
      5 * s'.unread bev + (s'.server.tasksOn bev).length =
        5 * s.unread bev + (s.server.tasksOn bev).length := by
    intro bev hbev
    have hlt := Finset.mem_range.mp hbev
    have hunread : s'.unread bev = s.unread bev := by
      rw [Session.State.unread, Session.State.unread, hpeer bev hlt, htaken]
      cases s.peer bev with
      | none => rfl
      | some other =>
        dsimp only
        rw [requests_congr hclient]
    have htasks : s'.server.tasksOn bev = s.server.tasksOn bev := by
      rw [Server.State.tasksOn, Server.State.tasksOn, hbevs, List.getElem?_append_left hlt,
        hpending]
    rw [hunread, htasks]
  rw [Session.owedSteps, Session.owedSteps, hbevs, List.length_append, List.length_singleton,
    Finset.sum_range_succ, Finset.sum_congr rfl hold, hnew.2, List.length_nil]
  have hle := hnew.1
  omega

/-- What holds while no object is deleted. -/
structure Serving (clientHost : Node → ByteOrder) (host : ByteOrder) (parse : Parser)
    (nThreadCount : Int32) (es : List (WorkerPool.Event Addr)) (accepted most : ℕ) (s : State) :
    Prop where
  connected : Process.Connected nThreadCount s.process
  dealt : WorkerPool.Dealt nThreadCount es s.process.pool
  accepted : s.process.server.accepted = accepted
  after : ∃ events, After clientHost host parse events s
  bounded : Bounded most s

/-- The steps that are owed at most. A connection that is dispatched counts for all
that its client may have sent. -/
def owedSteps (nThreadCount : Int32) (most : ℕ) (s : State) : ℕ :=
  (5 * most + 1) * WorkerPool.totalOwed nThreadCount s.process.pool + Session.owedSteps s.abs

variable {es : List (WorkerPool.Event Addr)} {accepted most : ℕ}

theorem Serving.session (h : Serving clientHost host parse nThreadCount es accepted most s) :
    Session.Connected clientHost host s.abs := by
  obtain ⟨_, hafter⟩ := h.after
  obtain ⟨fss, _, hruns⟩ := hafter.refines
  have hsession := Session.after_run hruns
  exact ⟨hsession.inv, hsession.paired, h.connected.alive, h.connected.running.1⟩

/-- A step of the pool pays for the connection that it may make. -/
theorem owedSteps_pool
    (hpool : WorkerPool.totalOwed nThreadCount s'.process.pool <
      WorkerPool.totalOwed nThreadCount s.process.pool)
    (hsession : Session.owedSteps s'.abs ≤ Session.owedSteps s.abs + 5 * most) :
    owedSteps nThreadCount most s' < owedSteps nThreadCount most s := by
  have hweight := Nat.mul_le_mul_left (5 * most + 1) (Nat.succ_le_of_lt hpool)
  rw [Nat.mul_succ] at hweight
  rw [owedSteps, owedSteps]
  omega

/-- A step that the server takes for its clients pays for itself. -/
theorem owedSteps_serves (h : Serving clientHost host parse nThreadCount es accepted most s)
    (hpool : s'.process.pool = s.process.pool) {e : Session.Event}
    (hserves : Session.ServesClients e)
    (hsession : Session.step clientHost host parse s.abs e = some s'.abs) :
    owedSteps nThreadCount most s' < owedSteps nThreadCount most s := by
  have hlt := Session.owedSteps_lt h.session hserves hsession
  rw [owedSteps, owedSteps, hpool]
  exact Nat.add_lt_add_left hlt _

/-- What the process keeps by steps of its own. -/
theorem Serving.next (h : Serving clientHost host parse nThreadCount es accepted most s)
    {e : Event} (hstep : step clientHost host parse parseJson realToString overflow s e = some s')
    (hconnected : Process.Connected nThreadCount s'.process)
    (hdealt : WorkerPool.Dealt nThreadCount es s'.process.pool)
    (haccepted : s'.process.server.accepted = s.process.server.accepted)
    (hclient : s'.client = s.client) :
    Serving clientHost host parse nThreadCount es accepted most s' where
  connected := hconnected
  dealt := hdealt
  accepted := haccepted.trans h.accepted
  after := by
    obtain ⟨events, hafter⟩ := h.after
    exact ⟨_, hafter.step hstep⟩
  bounded := by
    intro other
    rw [requests_congr (s := s.abs) hclient]
    exact h.bounded other

/-- `Notify` connects a bufferevent, for a client or for another peer. -/
theorem owedSteps_handlerConnect
    (h : Serving clientHost host parse nThreadCount es accepted most s)
    (hcount : 1 ≤ nThreadCount.toInt) {worker : Worker} {process : Process.State}
    (hprocess : Process.step host parse parseJson realToString overflow s.process
      (.handlerConnect worker true) = some process)
    (hconnected : Process.Connected nThreadCount process) (hnext : s'.process = process)
    (hclient : s'.client = s.client) (htaken : s'.taken = s.taken)
    (hpeer : ∀ bev < s.process.server.bevs.length, s'.peer bev = s.peer bev) :
    owedSteps nThreadCount most s' < owedSteps nThreadCount most s := by
  obtain ⟨_, hserver⟩ := Process.matched_handlerConnect h.connected.exclusive hprocess
  have hbevs := Session.bevs_handlerConnect hserver hconnected.running.1
  have hpool := WorkerPool.totalOwed_step h.dealt hcount
    (Or.inr ⟨worker, .handlerConnect, rfl⟩)
    (Process.step_of_inPool (e := .handlerConnect worker true) rfl hprocess)
  rw [← hnext] at hbevs hpool
  exact owedSteps_pool hpool
    (owedSteps_grown h.session.inv.server hbevs hclient htaken hpeer h.bounded)

/-- An own step of the process pays off some of what is owed. -/
theorem owedSteps_process (h : Serving clientHost host parse nThreadCount es accepted most s)
    (hcount : 1 ≤ nThreadCount.toInt) {e : Process.Event} (hown : Process.Own e)
    {process : Process.State}
    (hprocess : Process.step host parse parseJson realToString overflow s.process e = some process)
    (hconnected : Process.Connected nThreadCount process) :
    owedSteps nThreadCount most { s with process } < owedSteps nThreadCount most s := by
  have hquiet : process.abs = s.process.abs → ∀ {f : WorkerPool.Event Addr},
      WorkerPool.Pending f → e.inPool = [f] →
        owedSteps nThreadCount most { s with process } < owedSteps nThreadCount most s := by
    intro habs f hpending hpool
    refine owedSteps_pool (WorkerPool.totalOwed_step h.dealt hcount hpending
      (Process.step_of_inPool hpool hprocess)) ?_
    have hsame : State.abs { s with process } = s.abs := by
      rw [State.abs, State.abs]
      dsimp only
      rw [habs]
    rw [hsame]
    exact Nat.le_add_right _ _
  rcases hown with rfl | ⟨worker, rfl | rfl | rfl | rfl⟩
  · obtain ⟨_, habs⟩ := Process.matched_active h.connected.exclusive hprocess
    exact hquiet habs (Or.inl rfl) rfl
  · obtain ⟨_, habs⟩ := Process.matched_readByte h.connected.exclusive hprocess
    exact hquiet habs (Or.inr ⟨worker, .readByte, rfl⟩) rfl
  · obtain ⟨_, habs⟩ := Process.matched_popFront h.connected.exclusive hprocess
    exact hquiet habs (Or.inr ⟨worker, .popFront, rfl⟩) rfl
  · exact owedSteps_handlerConnect h hcount hprocess hconnected rfl rfl rfl fun _ _ => rfl
  · obtain ⟨_, hserver⟩ := Process.matched_callback h.connected.exclusive hprocess
    obtain ⟨_, server, _, _, _, rfl⟩ := Process.step_callback hprocess
    refine owedSteps_serves h rfl (e := .server (.resume worker)) (Or.inl ⟨worker, rfl⟩) ?_
    have hserver' : Server.step host parse s.abs.server (.resume worker) = _ := hserver
    have hread : ¬s.abs.readsPeer (.resume worker) = true := Bool.false_ne_true
    rw [Session.step, if_neg hread, hserver']
    rfl

/-- Every own step pays off some of what is owed. -/
theorem Serving.step (h : Serving clientHost host parse nThreadCount es accepted most s)
    (hcount : 1 ≤ nThreadCount.toInt) (hfew : (WorkerPool.dispatched es).length ≤ 2 ^ 31)
    (haccepted : accepted ≤ 2 ^ 31) {e : Event} (hown : Own e)
    (hstep : Cluster.step clientHost host parse parseJson realToString overflow s e = some s') :
    Serving clientHost host parse nThreadCount es accepted most s' ∧
      owedSteps nThreadCount most s' < owedSteps nThreadCount most s := by
  have hbound : s.process.server.accepted ≤ 2 ^ 31 := by
    rw [h.accepted]
    exact haccepted
  cases e with
  | client node e => cases hown
  | process e =>
    obtain ⟨_, process, hprocess, rfl⟩ := step_process hstep
    obtain ⟨hconnected, hdealt, hkept, _⟩ :=
      h.connected.own hcount h.dealt hfew hbound hown hprocess
    exact ⟨h.next hstep hconnected hdealt hkept rfl,
      owedSteps_process h hcount hown hprocess hconnected⟩
  | connect worker other =>
    obtain ⟨_, process, hprocess, rfl⟩ := step_connect hstep
    have hown' : Process.Own (.handlerConnect worker true) :=
      Or.inr ⟨worker, Or.inr (Or.inr (Or.inl rfl))⟩
    obtain ⟨hconnected, hdealt, hkept, _⟩ :=
      h.connected.own hcount h.dealt hfew hbound hown' hprocess
    exact ⟨h.next hstep hconnected hdealt hkept rfl,
      owedSteps_handlerConnect h hcount hprocess hconnected rfl rfl rfl
        fun bev hlt => Function.update_of_ne hlt.ne ..⟩
  | request bev stack =>
    obtain ⟨other, frame, process, hpeer, hframe, hprocess, rfl⟩ := step_request hstep
    have hstopped : process.stopped = none := by
      obtain ⟨_, _, _, _, _, rfl⟩ := Process.step_callback hprocess
      exact h.connected.running.2.2
    obtain ⟨hconnected, hkept⟩ := h.connected.step hcount (e := .callback (.read bev stack frame))
      id hbound hstopped hprocess
    have hpool : process.pool = s.process.pool := by
      obtain ⟨_, _, _, _, _, rfl⟩ := Process.step_callback hprocess
      rfl
    refine ⟨h.next hstep hconnected (hpool ▸ h.dealt) hkept rfl, ?_⟩
    obtain ⟨_, fs, hcases, hruns⟩ := matched_step h.connected.exclusive hstep
    have hmatched : fs = [.request bev stack] :=
      hcases.resolve_right fun hended => hended.1 hconnected.running
    rw [hmatched, System.runFrom, Option.bind_eq_some_iff] at hruns
    obtain ⟨t, ht, hlast⟩ := hruns
    obtain rfl := Option.some.inj hlast
    exact owedSteps_serves h hpool (Or.inr ⟨bev, stack, rfl⟩) ht
  | reply bev stack now => cases hown

/-- A read that the server can make is one that an idle worker can make. -/
theorem request_enabled (hrunning : Running s.process)
    (hidle : ∀ worker, (s.process.pool.thread worker).worker = .idle) {bev : Bev} {stack : Stack}
    {t : Session.State}
    (hstep : Session.step clientHost host parse s.abs (.request bev stack) = some t) :
    ∃ s', step clientHost host parse parseJson realToString overflow s (.request bev stack) =
      some s' := by
  obtain ⟨other, frame, server, hpeer, hframe, hserver, _⟩ := Session.step_request hstep
  obtain ⟨v, actions, hv, _, _, _⟩ := Server.step_read hserver
  have hworker : Process.workerOf s.process.server (.read bev stack frame) = some v.base := by
    have hbev : s.process.server.bevs[bev]? = some v := hv
    rw [Process.workerOf, hbev]
    rfl
  have hcallback : (Process.workerOf s.process.abs (.read bev stack frame)).isSome = true := by
    have hsame : Process.workerOf s.process.abs (.read bev stack frame) = some v.base := hworker
    rw [hsame]
    rfl
  -- the lists of the server state are put back
  have hplain := Process.step_withLists s.process.server.listConnect hcallback hserver
  have hprocess : (Process.step host parse parseJson realToString overflow s.process
      (.callback (.read bev stack frame))).isSome = true := by
    have hread : Server.step host parse s.process.server (.read bev stack frame) = _ := hplain
    unfold Process.step
    rw [if_neg (not_not.mpr hrunning)]
    dsimp only
    rw [hworker]
    dsimp only
    rw [if_neg (not_not.mpr (hidle v.base)), hread]
    rfl
  obtain ⟨process, hprocess⟩ := Option.isSome_iff_exists.mp hprocess
  have hpeer' : s.peer bev = some other := hpeer
  have hframe' : (s.abs.requests other)[s.taken bev]? = some frame := hframe
  refine Option.isSome_iff_exists.mp ?_
  rw [step, hpeer']
  dsimp only
  rw [hframe']
  dsimp only
  rw [hprocess]
  rfl

/-- Once every socket is connected, each one of a client is paired with its owner. -/
theorem Owned.paired {owner : Owner} (h : Owned owner s)
    (hconnected : Process.AllConnected nThreadCount accepted s.process) {k : Sock}
    (hlt : k < accepted) {other : End} (howner : owner k = some other) :
    ∃ bev v, s.process.server.bevs[bev]? = some v ∧ v.fd = k ∧ s.peer bev = some other := by
  have hmem : k ∈ s.process.server.connectedSocks (Process.turn nThreadCount k) := by
    rw [hconnected.connected, List.mem_filter]
    exact ⟨List.mem_range.mpr hlt, decide_eq_true rfl⟩
  obtain ⟨v, hv, rfl⟩ := List.mem_map.mp hmem
  obtain ⟨bev, hbev⟩ := List.mem_iff_getElem?.mp (List.mem_filter.mp hv).1
  exact ⟨bev, v, hbev, rfl, (h.peer hbev).trans howner⟩

/-- An own step of the process can happen for the owner of the socket. -/
theorem process_enabled {owner : Owner} (honce : AcceptedOnce owner) (h : Owned owner s)
    (hconnected : Process.Connected nThreadCount s.process) {e : Process.Event}
    (hown : Process.Own e) {process : Process.State}
    (hprocess : Process.step host parse parseJson realToString overflow s.process e =
      some process) :
    ∃ f s', Own f ∧ belongs owner s f = true ∧
      step clientHost host parse parseJson realToString overflow s f = some s' := by
  have hplain : belongs owner s (.process e) = true → ∃ f s', Own f ∧ belongs owner s f = true ∧
      step clientHost host parse parseJson realToString overflow s f = some s' := by
    intro hbelongs
    have hread : ¬s.readsPeer e = true := by
      rcases hown with rfl | ⟨worker, rfl | rfl | rfl | rfl⟩
      all_goals exact Bool.false_ne_true
    refine ⟨.process e, { s with process }, hown, hbelongs, ?_⟩
    rw [step, if_neg hread, hprocess]
    rfl
  rcases hown with rfl | ⟨worker, rfl | rfl | rfl | rfl⟩
  · exact hplain rfl
  · exact hplain rfl
  · exact hplain rfl
  · cases hnext : s.nextOwner owner worker with
    | none => exact hplain (decide_eq_true hnext)
    | some other =>
      refine ⟨.connect worker other, { s with
        process
        peer := Function.update s.peer s.process.server.bevs.length (some other) }, trivial,
        decide_eq_true hnext, ?_⟩
      rw [step, if_neg (h.not_connected honce hconnected hnext), hprocess]
      rfl
  · exact hplain rfl

theorem own_enabled {owner : Owner} (honce : AcceptedOnce owner)
    (h : Serving clientHost host parse nThreadCount es accepted most s) (howned : Owned owner s)
    (hleft : ¬Served owner nThreadCount host accepted s) :
    ∃ e s', Own e ∧ belongs owner s e = true ∧
      step clientHost host parse parseJson realToString overflow s e = some s' := by
  by_cases hconnected : Process.AllConnected nThreadCount accepted s.process
  · have hanswers : ¬Session.AllAnswered host s.abs := fun hall =>
      hleft ⟨hconnected, fun _ hlt _ howner => howned.paired hconnected hlt howner, hall⟩
    have hserves : ∃ e t, Session.ServesClients e ∧
        Session.step clientHost host parse s.abs e = some t :=
      Session.serves_enabled h.session hanswers
    obtain ⟨e, t, ⟨worker, rfl⟩ | ⟨bev, stack, rfl⟩, hstep⟩ := hserves
    · obtain ⟨_, u, hu, _⟩ := Session.step_server hstep
      obtain ⟨task, rest, hpending, _⟩ := Server.step_resume hu
      have hnone : s.abs.server.pending worker = [] := hconnected.idle worker
      rw [hnone] at hpending
      cases hpending
    · obtain ⟨s', hnext⟩ := request_enabled h.connected.running
        (fun worker => (hconnected.quiescent.thread worker).2) hstep
      exact ⟨.request bev stack, s', trivial, rfl, hnext⟩
  · have hbusy : ¬Process.AllConnected nThreadCount s.process.server.accepted s.process := by
      rwa [h.accepted]
    obtain ⟨e, process, hown, hprocess⟩ := Process.own_enabled h.connected h.dealt hbusy
    exact process_enabled honce howned h.connected hown hprocess

/-- The clients and the process, with each accepted socket for its owner. -/
def ownedSystem (clientHost : Node → ByteOrder) (host : ByteOrder) (parse : Parser)
    (parseJson : HttpReq.JsonParser) (realToString : Json.Double → Str)
    (overflow : ThreadPool.SignedOverflow) (nThreadCount : Int32) (owner : Owner) :
    System State Event :=
  (system clientHost host parse parseJson realToString overflow nThreadCount).restrict
    (belongs owner)

/-- No event deletes an object, no write to a pipe fails and the counter does not
overflow. -/
structure Undisturbed (events : List Event) : Prop where
  keeps : ∀ e ∈ events, KeepsObjects e
  writes : ∀ e ∈ events, e ≠ .process (.active false)
  few : (accepts events).length ≤ 2 ^ 31

theorem Undisturbed.of_append {later : List Event} (h : Undisturbed (events ++ later)) :
    Undisturbed events where
  keeps := fun e he => h.keeps e (List.mem_append_left _ he)
  writes := fun e he => h.writes e (List.mem_append_left _ he)
  few := by
    have hfew := h.few
    rw [accepts, List.flatMap_append, List.length_append] at hfew
    exact Nat.le_of_add_right_le hfew

/-- What holds of the process after an undisturbed run. -/
theorem Undisturbed.connected (h : Undisturbed events) (hcount : 1 ≤ nThreadCount.toInt)
    (hrun : (system clientHost host parse parseJson realToString overflow nThreadCount).run
      events = some s) (hstopped : s.process.stopped = none) :
    Process.Connected nThreadCount s.process ∧
      s.process.server.accepted = (accepts events).length ∧
      ∃ es, WorkerPool.Dealt nThreadCount es s.process.pool ∧
        (WorkerPool.dispatched es).length = (accepts events).length := by
  have hfew := h.few
  obtain ⟨ess, hacts, hprocess⟩ := process_run hrun
  obtain ⟨hkept, hwritten, haccepts⟩ := of_acts hacts h.keeps h.writes
  rw [← haccepts] at hfew ⊢
  obtain ⟨hconnected, haccepted⟩ :=
    Process.connected_run hcount hkept hfew hprocess hstopped
  exact ⟨hconnected, haccepted, _, WorkerPool.dealt_run hcount (Process.inPool_written hwritten)
    hfew (Process.pool_run hprocess), rfl⟩

/-- After an undisturbed run the bufferevents belong to the owners of their sockets. -/
theorem Undisturbed.owned {owner : Owner} (h : Undisturbed events)
    (hcount : 1 ≤ nThreadCount.toInt)
    (hrun : (ownedSystem clientHost host parse parseJson realToString overflow nThreadCount
      owner).run events = some s) (hstopped : s.process.stopped = none) : Owned owner s := by
  have hall : (ownedSystem clientHost host parse parseJson realToString overflow nThreadCount
      owner).run events = some s ∧
        (Undisturbed events → s.process.stopped = none → Owned owner s) := by
    refine System.run_induction (A := fun _ => True) (fun events s => (ownedSystem clientHost host
      parse parseJson realToString overflow nThreadCount owner).run events = some s ∧
        (Undisturbed events → s.process.stopped = none → Owned owner s))
      ⟨rfl, fun _ _ => Owned.init⟩ ?_ (fun _ _ => trivial) hrun
    rintro events s e s' - ⟨hbefore, hsofar⟩ hstep
    have hafter := (System.run_append hbefore [e]).trans (System.runFrom_singleton hstep)
    refine ⟨hafter, fun h hstopped => ?_⟩
    obtain ⟨hbelongs, hstep⟩ := System.restrict_step.mp hstep
    obtain ⟨hnext, _⟩ := h.connected hcount (System.runFrom_of_restrict hafter) hstopped
    have hrunning := running_before hstep hnext.running
    obtain ⟨hconnected, _⟩ := h.of_append.connected hcount (System.runFrom_of_restrict hbefore)
      hrunning.2.2
    have hkeep := h.keeps e (List.mem_append_right _ List.mem_cons_self)
    exact (hsofar h.of_append hrunning.2.2).step hconnected hkeep hbelongs hstopped hstep
  exact hall.2 h hstopped

/-- After any run of the clients and the process in which no object is deleted, no
write to a pipe fails, the counter does not overflow and no callback of the HTTP
server ends the process, the steps that the process takes on its own come to an end,
and in whatever order they are taken, they lead to a state in which every accepted
socket is connected on the worker whose turn it is, for its owner, and every request
of every owner has its one answer. -/
theorem cluster_settles {owner : Owner} (honce : AcceptedOnce owner)
    (hcount : 1 ≤ nThreadCount.toInt) (hkeeps : ∀ e ∈ events, KeepsObjects e)
    (hwrites : ∀ e ∈ events, e ≠ .process (.active false))
    (hfew : (accepts events).length ≤ 2 ^ 31)
    (hrun : (ownedSystem clientHost host parse parseJson realToString overflow nThreadCount
      owner).run events = some s) (hstopped : s.process.stopped = none) :
    (ownedSystem clientHost host parse parseJson realToString overflow nThreadCount
      owner).Settles Own (Served owner nThreadCount host (accepts events).length) s := by
  have hquiet : Undisturbed events := ⟨hkeeps, hwrites, hfew⟩
  have hplain := System.runFrom_of_restrict hrun
  obtain ⟨hconnected, haccepted, es, hdealt, hdispatched⟩ :=
    hquiet.connected hcount hplain hstopped
  obtain ⟨most, hbounded⟩ := bounded_run hplain
  have hserving : Serving clientHost host parse nThreadCount es (accepts events).length most s :=
    ⟨hconnected, hdealt, haccepted, ⟨events, after_run hplain⟩, hbounded⟩
  refine System.settles_of_measure (I := fun t =>
    Serving clientHost host parse nThreadCount es (accepts events).length most t ∧ Owned owner t)
    (owedSteps nThreadCount most) ?_ ?_
    ⟨hserving, hquiet.owned hcount hrun hstopped⟩
  · rintro t e t' ⟨h, howned⟩ hown hstep
    obtain ⟨hbelongs, hstep⟩ := System.restrict_step.mp hstep
    obtain ⟨hnext, hlt⟩ := h.step hcount (hdispatched.trans_le hfew) hfew hown hstep
    exact ⟨⟨hnext, howned.step h.connected (Own.keepsObjects hown) hbelongs
      hnext.connected.running.2.2 hstep⟩, hlt⟩
  · rintro t ⟨h, howned⟩ hleft
    obtain ⟨e, t', hown, hbelongs, hstep⟩ := own_enabled honce h howned hleft
    exact ⟨e, t', hown, System.restrict_step.mpr ⟨hbelongs, hstep⟩⟩

/-- Two nodes have sent their logins. One of them is connected, and the other one is
dispatched. -/
def loginsWaiting : List Event := [.client 0 (.connectToSerd 0 .pending),
  .client 1 (.connectToSerd 0 .pending), .process (.accept 7), .process (.active true),
  .client 0 .readTerminal, .client 1 .readTerminal, .process (.readByte 0),
  .process (.popFront 0), .connect 0 ⟨0, 0⟩, .process (.accept 8)]

/-- The first two sockets are those of the nodes. -/
def twoNodes : Owner
  | 0 => some ⟨0, 0⟩
  | 1 => some ⟨1, 0⟩
  | _ => none

theorem twoNodes_acceptedOnce : AcceptedOnce twoNodes := by
  intro j k other hj hk
  match j, k with
  | 0, 0 => rfl
  | 1, 1 => rfl
  | 0, 1 => cases hj; cases hk
  | 1, 0 => cases hj; cases hk
  | 0, _ + 2 => cases hk
  | 1, _ + 2 => cases hk
  | _ + 2, _ => cases hj

/-- The clients and the process on a reader that reads no doubles, with the sockets
of the nodes. -/
def twoNodesSystem : System State Event :=
  ownedSystem (fun _ => .little) .big ReqNodeLogin.parseFromIstream
    (Json.strictParse (fun _ => none) .null) (fun _ => []) .undefined 5 twoNodes

theorem cluster_settles_loginsWaiting : ∃ s, twoNodesSystem.run loginsWaiting = some s ∧
    twoNodesSystem.Settles Own (Served twoNodes 5 .big 2) s := by
  have hruns : (twoNodesSystem.run loginsWaiting).any
      (fun s => s.process.stopped = none) = true := by decide +kernel
  obtain ⟨s, hrun, hstopped⟩ := (Option.any_eq_true _ _).mp hruns
  have hkeeps : ∀ e ∈ loginsWaiting, KeepsObjects e := by
    intro e he
    simp only [loginsWaiting, List.mem_cons, List.not_mem_nil, or_false] at he
    rcases he with rfl | rfl | rfl | rfl | rfl | rfl | rfl | rfl | rfl | rfl
    all_goals exact trivial
  have hwrites : ∀ e ∈ loginsWaiting, e ≠ .process (.active false) := by
    intro e he
    simp only [loginsWaiting, List.mem_cons, List.not_mem_nil, or_false] at he
    rcases he with rfl | rfl | rfl | rfl | rfl | rfl | rfl | rfl | rfl | rfl
    all_goals exact fun hsame => nomatch hsame
  exact ⟨s, hrun, cluster_settles twoNodes_acceptedOnce (by decide) hkeeps hwrites (by decide)
    hrun (of_decide_eq_true hstopped)⟩

end NodeManager.Cluster
