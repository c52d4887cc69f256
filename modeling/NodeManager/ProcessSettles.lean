import NodeManager.AcceptOrder
import NodeManager.PoolSettles
import NodeManager.Process

/-!
# What the process makes of the accepted sockets

From the counter of `DispatchThread` over the pipes and the lists to the
bufferevents: each accepted socket gets one bufferevent, on the worker whose turn
it is, in the order of the accepts. The process brings this about by steps of its
own, which end, and it is never stuck before.
-/

namespace NodeManager.Process

open ByteMemory TransitionSystem
open Server (Alive Inv Connects)
open ThreadPool (poolAt)
open WorkerPool (Dealt dispatched totalOwed)

/-- The step of the pool that an event is, if it is one. -/
def Event.inPool : Event → List (WorkerPool.Event Addr)
  | .accept pNodeCon => [.dispatch pNodeCon]
  | .active written => [.active written]
  | .readByte worker => [.notify worker .readByte]
  | .popFront worker => [.notify worker .popFront]
  | .handlerConnect worker _ => [.notify worker .handlerConnect]
  | _ => []

/-- The connections that are accepted, oldest first. -/
def accepts (events : List Event) : List Addr := dispatched (events.flatMap Event.inPool)

/-- The event makes the server delete no object. -/
def KeepsObjects : Event → Prop
  | .handlerConnect _ created => created = true
  | .callback e => ¬Server.Disconnects e
  | _ => True

/-- The worker whose turn it is with a socket. -/
def turn (nThreadCount : Int32) (k : Sock) : Worker := k % nThreadCount.toInt.toNat

/-- What holds while no object is deleted. -/
structure Connected (nThreadCount : Int32) (s : State) : Prop where
  running : Running s
  exclusive : Exclusive s
  alive : Alive s.abs
  inv : Inv s.abs
  connects : Connects (turn nThreadCount) s.abs
  pool : s.pool.pool = poolAt nThreadCount s.server.accepted

/-- A step that the process takes without a new connection, input or request. -/
def Own (e : Event) : Prop :=
  e = .active true ∨ ∃ worker, e = .readByte worker ∨ e = .popFront worker ∨
    e = .handlerConnect worker true ∨ e = .callback (.resume worker)

/-- Nothing is going on, each worker has connected the sockets of its turns, and
its callbacks get the objects of their connections. -/
structure AllConnected (nThreadCount : Int32) (accepted : ℕ) (s : State) : Prop where
  quiescent : WorkerPool.Quiescent s.pool
  idle : ∀ worker, s.server.pending worker = []
  connected : ∀ worker, s.server.connectedSocks worker =
    (List.range accepted).filter (turn nThreadCount · = worker)
  live : ∀ v ∈ s.server.bevs, ∃ x, s.server.heap v.arg = some x ∧ x.sock = v.fd ∧
    x.base = v.base

variable {host : ByteOrder} {parse : Parser} {parseJson : HttpReq.JsonParser}
  {realToString : Json.Double → Str} {overflow : ThreadPool.SignedOverflow} {nThreadCount : Int32}
  {s s' : State} {events : List Event}

/-- The pool of the process goes on as a pool does. -/
theorem step_pool {e : Event} (h : step host parse parseJson realToString overflow s e = some s') :
    (WorkerPool.system Addr overflow nThreadCount).runFrom s.pool e.inPool = some s'.pool := by
  have hone : ∀ {f : WorkerPool.Event Addr} {pool : WorkerPool.State Addr},
      WorkerPool.step overflow s.pool f = some pool →
        (WorkerPool.system Addr overflow nThreadCount).runFrom s.pool [f] = some pool :=
    fun hf => System.runFrom_singleton hf
  cases e with
  | accept pNodeCon =>
    obtain ⟨_, pool, hpool, rfl⟩ := step_accept h
    refine hone (hpool.trans (congrArg some ?_))
    split
    · rfl
    · rfl
  | active written =>
    obtain ⟨pool, hpool, rfl⟩ := step_active h
    exact hone hpool
  | readByte worker =>
    obtain ⟨_, pool, hpool, rfl⟩ := step_readByte h
    exact hone hpool
  | popFront worker =>
    obtain ⟨pool, hpool, rfl⟩ := step_popFront h
    exact hone hpool
  | handlerConnect worker created =>
    obtain ⟨_, pool, _, hpool, rfl⟩ := step_handlerConnect h
    exact hone hpool
  | callback e =>
    obtain ⟨_, server, _, _, _, rfl⟩ := step_callback h
    rfl
  | httpReqGetAllNodes =>
    obtain ⟨_, rfl⟩ := step_httpReqGetAllNodes h
    refine congrArg some ?_
    split
    · rfl
    · rfl
  | httpReqStopNode stack body =>
    obtain ⟨_, rfl⟩ := step_httpReqStopNode h
    refine congrArg some ?_
    split
    · rfl
    · rfl

/-- The pool takes part in every run of the process. -/
theorem pool_run
    (hrun : (system host parse parseJson realToString overflow nThreadCount).run events = some s) :
    (WorkerPool.system Addr overflow nThreadCount).run (events.flatMap Event.inPool) =
      some s.pool := by
  refine System.run_induction (A := fun _ => True) (fun events s =>
    (WorkerPool.system Addr overflow nThreadCount).run (events.flatMap Event.inPool) =
      some s.pool) rfl ?_ (fun _ _ => trivial) hrun
  intro events s e s' _ h hstep
  rw [List.flatMap_append, System.run_append h, List.flatMap_singleton]
  exact step_pool hstep

/-- A write that fails is one of `Active`. -/
theorem inPool_written (hwrites : ∀ e ∈ events, e ≠ .active false) :
    ∀ f ∈ events.flatMap Event.inPool, f ≠ .active false := by
  rintro f hf rfl
  obtain ⟨e, he, hin⟩ := List.mem_flatMap.mp hf
  cases e with
  | active written =>
    rw [Event.inPool, List.mem_singleton, WorkerPool.Event.active.injEq] at hin
    exact hwrites _ he (by rw [hin])
  | accept a => cases List.mem_singleton.mp hin
  | readByte worker => cases List.mem_singleton.mp hin
  | popFront worker => cases List.mem_singleton.mp hin
  | handlerConnect worker created => cases List.mem_singleton.mp hin
  | _ => cases hin

/-- A step of the pool. -/
theorem step_of_inPool {e : Event} {f : WorkerPool.Event Addr} (hpool : e.inPool = [f])
    (h : step host parse parseJson realToString overflow s e = some s') :
    WorkerPool.step overflow s.pool f = some s'.pool := by
  have hrun : (WorkerPool.system Addr overflow 1).runFrom s.pool e.inPool = some s'.pool :=
    step_pool h
  rw [hpool, System.runFrom, Option.bind_eq_some_iff] at hrun
  obtain ⟨pool, hstep, hnil⟩ := hrun
  cases hnil
  exact hstep

/-- The counter only moves, and only goes wrong, when a connection is dispatched. -/
theorem pool_kept {e : Event} (hother : ∀ a, e ≠ .accept a)
    (h : step host parse parseJson realToString overflow s e = some s') :
    s'.pool.pool = s.pool.pool ∧ s'.pool.fault = s.pool.fault := by
  have hnotify : ∀ {worker : Worker} {f : Xthread.Event Addr}, e.inPool = [.notify worker f] →
      s'.pool.pool = s.pool.pool ∧ s'.pool.fault = s.pool.fault := by
    intro worker f hpool
    obtain ⟨_, t, _, hnext⟩ := WorkerPool.step_notify (step_of_inPool hpool h)
    rw [hnext]
    exact ⟨rfl, rfl⟩
  have hnone : e.inPool = [] →
      s'.pool.pool = s.pool.pool ∧ s'.pool.fault = s.pool.fault := by
    intro hpool
    have hrun : (WorkerPool.system Addr overflow 1).runFrom s.pool e.inPool = some s'.pool :=
      step_pool h
    rw [hpool] at hrun
    rw [← Option.some.inj hrun]
    exact ⟨rfl, rfl⟩
  cases e with
  | accept pNodeCon => exact absurd rfl (hother pNodeCon)
  | active written =>
    obtain ⟨index, t, _, _, hnext⟩ := WorkerPool.step_active (step_of_inPool rfl h)
    rw [hnext]
    exact ⟨rfl, rfl⟩
  | readByte worker => exact hnotify rfl
  | popFront worker => exact hnotify rfl
  | handlerConnect worker created => exact hnotify rfl
  | callback e => exact hnone rfl
  | httpReqGetAllNodes => exact hnone rfl
  | httpReqStopNode stack body => exact hnone rfl

theorem Connected.init : Connected nThreadCount (State.init nThreadCount) where
  running := ⟨rfl, rfl, rfl⟩
  exclusive := fun _ hbusy => absurd rfl hbusy
  alive := Alive.init
  inv := Inv.init
  connects := ⟨fun _ => rfl, fun hmem => nomatch hmem⟩
  pool := ThreadPool.init_eq_poolAt nThreadCount

/-- A step that the server does not see. -/
theorem Connected.same (h : Connected nThreadCount s) (hexclusive : Exclusive s')
    (habs : s'.abs = s.abs) (hpool : s'.pool.pool = s.pool.pool) (hfault : s'.pool.fault = none)
    (hstopped : s'.stopped = none) :
    Connected nThreadCount s' ∧ s'.server.accepted = s.server.accepted := by
  have hserver : s'.abs.fault = s.abs.fault ∧ s'.abs.accepted = s.abs.accepted := by
    rw [habs]
    exact ⟨rfl, rfl⟩
  have haccepted : s'.server.accepted = s.server.accepted := hserver.2
  refine ⟨⟨⟨hserver.1.trans h.running.1, hfault, hstopped⟩, hexclusive, habs ▸ h.alive,
    habs ▸ h.inv, habs ▸ h.connects, ?_⟩, haccepted⟩
  rw [hpool, haccepted, h.pool]

/-- A step of the server. -/
theorem Connected.next (h : Connected nThreadCount s) (hexclusive : Exclusive s')
    {f : Server.Event} (hquiet : ¬Server.Disconnects f)
    (hturn : ∀ a worker, f = .accept a worker → turn nThreadCount s.server.accepted = worker)
    (hstep : Server.step host parse s.abs f = some s'.abs)
    (hpool : s'.pool.pool = poolAt nThreadCount s'.server.accepted) (hfault : s'.pool.fault = none)
    (hstopped : s'.stopped = none) : Connected nThreadCount s' where
  running := ⟨(h.alive.step h.inv hquiet hstep).2.2, hfault, hstopped⟩
  exclusive := hexclusive
  alive := (h.alive.step h.inv hquiet hstep).1
  inv := h.inv.step hstep
  connects := h.connects.step h.alive h.inv hquiet hturn hstep
  pool := hpool

/-- The accepted socket is dispatched in turn. -/
theorem Connected.accept (h : Connected nThreadCount s) (hcount : 1 ≤ nThreadCount.toInt)
    (hfew : s.server.accepted < 2 ^ 31) (hfault : s'.pool.fault = none)
    (hstopped : s'.stopped = none) {a : Addr}
    (hstep : step host parse parseJson realToString overflow s (.accept a) = some s') :
    Connected nThreadCount s' ∧ s'.server.accepted = s.server.accepted + 1 := by
  obtain ⟨hexclusive, worker, hactive, hserver⟩ := matched_accept h.exclusive hfault hstep
  have haccepted : s'.server.accepted = s.server.accepted + 1 := by
    obtain ⟨_, hnext⟩ := Server.step_accept hserver
    have hsame := congrArg Server.State.accepted hnext
    exact hsame
  obtain ⟨_, t, _, hnext⟩ := WorkerPool.step_dispatch hcount hfew h.pool
    (step_of_inPool (e := .accept a) rfl hstep)
  refine ⟨h.next hexclusive (f := .accept a worker) id ?_ hserver ?_ hfault hstopped, haccepted⟩
  · rintro b w ⟨⟩
    rw [hnext] at hactive
    exact Option.some.inj hactive
  · rw [hnext, haccepted]

/-- The counter does not go wrong before it overflows. -/
theorem Connected.pool_fault (h : Connected nThreadCount s) (hcount : 1 ≤ nThreadCount.toInt)
    {e : Event} (hfew : s.server.accepted + (accepts [e]).length ≤ 2 ^ 31)
    (hstep : Process.step host parse parseJson realToString overflow s e = some s') :
    s'.pool.fault = none := by
  by_cases haccept : ∃ a, e = .accept a
  · obtain ⟨a, rfl⟩ := haccept
    obtain ⟨_, t, _, hnext⟩ := WorkerPool.step_dispatch hcount hfew h.pool
      (step_of_inPool (e := .accept a) rfl hstep)
    rw [hnext]
    exact h.running.2.1
  · rw [(pool_kept (fun a hsame => haccept ⟨a, hsame⟩) hstep).2]
    exact h.running.2.1

/-- An event that deletes nothing accepts a socket, or it is one step of the server at
most. Only `HandlerConnect` makes a bufferevent then. -/
theorem Connected.matched (h : Connected nThreadCount s) {e : Event} (hkeeps : KeepsObjects e)
    (hstopped : s'.stopped = none)
    (hstep : Process.step host parse parseJson realToString overflow s e = some s') :
    (∃ a, e = .accept a) ∨ (∀ a, e ≠ .accept a) ∧ Exclusive s' ∧ (s'.abs = s.abs ∨
      ∃ f, ¬Server.Disconnects f ∧ (∀ a worker, f ≠ .accept a worker) ∧
        (∀ worker, f = .handlerConnect worker true → e = .handlerConnect worker true) ∧
        Server.step host parse s.abs f = some s'.abs) := by
  have hplain : ∀ {f : Server.Event}, (∀ worker, f ≠ .handlerConnect worker true) →
      ∀ worker, f = .handlerConnect worker true → e = .handlerConnect worker true :=
    fun hother worker hsame => absurd hsame (hother worker)
  cases e with
  | accept a => exact Or.inl ⟨a, rfl⟩
  | active written =>
    obtain ⟨hexclusive, habs⟩ := matched_active h.exclusive hstep
    exact Or.inr ⟨fun _ => Event.noConfusion, hexclusive, Or.inl habs⟩
  | readByte worker =>
    obtain ⟨hexclusive, habs⟩ := matched_readByte h.exclusive hstep
    exact Or.inr ⟨fun _ => Event.noConfusion, hexclusive, Or.inl habs⟩
  | popFront worker =>
    obtain ⟨hexclusive, habs⟩ := matched_popFront h.exclusive hstep
    exact Or.inr ⟨fun _ => Event.noConfusion, hexclusive, Or.inl habs⟩
  | handlerConnect worker created =>
    obtain rfl : created = true := hkeeps
    obtain ⟨hexclusive, hmatched⟩ := matched_handlerConnect h.exclusive hstep
    refine Or.inr ⟨fun _ => Event.noConfusion, hexclusive, Or.inr ⟨_, Bool.noConfusion,
      fun _ _ => Server.Event.noConfusion, ?_, hmatched⟩⟩
    rintro other ⟨⟩
    rfl
  | callback e =>
    obtain ⟨hexclusive, hmatched⟩ := matched_callback h.exclusive hstep
    obtain ⟨_, _, hworker, _⟩ := step_callback hstep
    refine Or.inr ⟨fun _ => Event.noConfusion, hexclusive,
      Or.inr ⟨e, hkeeps, ?_, hplain ?_, hmatched⟩⟩
    · rintro a worker rfl
      cases hworker
    · rintro worker rfl
      cases hworker
  | httpReqGetAllNodes =>
    obtain ⟨hexclusive, hmatched⟩ := matched_httpReqGetAllNodes h.exclusive hstopped hstep
    exact Or.inr ⟨fun _ => Event.noConfusion, hexclusive, Or.inr ⟨.getAllNode, id,
      fun _ _ => Server.Event.noConfusion, hplain fun _ => Server.Event.noConfusion, hmatched⟩⟩
  | httpReqStopNode stack body =>
    obtain ⟨hexclusive, strIp, hmatched⟩ := matched_httpReqStopNode h.exclusive hstopped hstep
    exact Or.inr ⟨fun _ => Event.noConfusion, hexclusive, Or.inr ⟨.delNode strIp stack, id,
      fun _ _ => Server.Event.noConfusion, hplain fun _ => Server.Event.noConfusion, hmatched⟩⟩

theorem accepts_eq_nil {e : Event} (hother : ∀ a, e ≠ .accept a) : accepts [e] = [] := by
  cases e with
  | accept a => exact absurd rfl (hother a)
  | _ => rfl

/-- Every event that deletes nothing. -/
theorem Connected.step (h : Connected nThreadCount s) (hcount : 1 ≤ nThreadCount.toInt) {e : Event}
    (hkeeps : KeepsObjects e) (hfew : s.server.accepted + (accepts [e]).length ≤ 2 ^ 31)
    (hstopped : s'.stopped = none)
    (hstep : Process.step host parse parseJson realToString overflow s e = some s') :
    Connected nThreadCount s' ∧
      s'.server.accepted = s.server.accepted + (accepts [e]).length := by
  have hfault := h.pool_fault hcount hfew hstep
  rcases h.matched hkeeps hstopped hstep with ⟨a, rfl⟩ | ⟨hother, hexclusive, hcases⟩
  · exact h.accept hcount hfew hfault hstopped hstep
  · have hpool := (pool_kept hother hstep).1
    rw [accepts_eq_nil hother]
    rcases hcases with habs | ⟨f, hquiet, haccept, _, hmatched⟩
    · exact h.same hexclusive habs hpool hfault hstopped
    · have hsame : s'.abs.accepted = s.abs.accepted :=
        h.alive.accepted_step h.inv hquiet haccept hmatched
      have haccepted : s'.server.accepted = s.server.accepted := hsame
      refine ⟨h.next hexclusive hquiet (fun a worker hsame => absurd hsame (haccept a worker))
        hmatched ?_ hfault hstopped, haccepted⟩
      rw [hpool, haccepted, h.pool]

theorem accepts_append (es fs : List Event) : accepts (es ++ fs) = accepts es ++ accepts fs := by
  rw [accepts, accepts, accepts, List.flatMap_append]
  exact List.filterMap_append

/-- What holds of every run that deletes nothing. -/
theorem connected_run (hcount : 1 ≤ nThreadCount.toInt) (hkeeps : ∀ e ∈ events, KeepsObjects e)
    (hfew : (accepts events).length ≤ 2 ^ 31)
    (hrun : (system host parse parseJson realToString overflow nThreadCount).run events = some s)
    (hstopped : s.stopped = none) :
    Connected nThreadCount s ∧ s.server.accepted = (accepts events).length := by
  have hall : s.stopped = none → (accepts events).length ≤ 2 ^ 31 →
      Connected nThreadCount s ∧ s.server.accepted = (accepts events).length := by
    refine System.run_induction (fun events s => s.stopped = none →
      (accepts events).length ≤ 2 ^ 31 →
        Connected nThreadCount s ∧ s.server.accepted = (accepts events).length)
      (fun _ _ => ⟨Connected.init, rfl⟩) ?_ hkeeps hrun
    intro events s e s' hkeep h hstep hstopped hfew
    rw [accepts_append, List.length_append] at hfew ⊢
    obtain ⟨hconnected, haccepted⟩ := h (running_of_step hstep).2.2 (by omega)
    rw [← haccepted] at hfew ⊢
    exact hconnected.step hcount hkeep hfew hstopped hstep
  exact hall hstopped hfew

/-- In every interleaving, whatever writes to the pipes fail, as long as no object
is deleted, the counter does not overflow and no callback of the HTTP server ends
the process: no fault ends it either, the bufferevents on the base of a worker are
on the first of the accepted sockets whose turn it is, one on each and in their
order, and their callbacks get the objects of these connections. -/
theorem connected_inTurn (hcount : 1 ≤ nThreadCount.toInt)
    (hkeeps : ∀ e ∈ events, KeepsObjects e) (hfew : (accepts events).length ≤ 2 ^ 31)
    (hrun : (system host parse parseJson realToString overflow nThreadCount).run events = some s)
    (hstopped : s.stopped = none) :
    Running s ∧ (∀ worker, s.server.connectedSocks worker <+:
      (List.range (accepts events).length).filter (turn nThreadCount · = worker)) ∧
      ∀ v ∈ s.server.bevs, ∃ x, s.server.heap v.arg = some x ∧ x.sock = v.fd ∧
        x.base = v.base := by
  obtain ⟨h, haccepted⟩ := connected_run hcount hkeeps hfew hrun hstopped
  refine ⟨h.running, fun worker => ⟨s.abs.queuedSocks worker, ?_⟩, fun v hv => h.alive.argLive hv⟩
  rw [← haccepted]
  exact h.connects.order worker

/-- The first of two connections is connected, and the second one is on its list. -/
def twoAccepts : List Event := [.accept 7, .active true, .accept 8, .readByte 0, .popFront 0,
  .handlerConnect 0 true]

theorem twoAccepts_keepsObjects : ∀ e ∈ twoAccepts, KeepsObjects e := by
  intro e he
  simp only [twoAccepts, List.mem_cons, List.not_mem_nil, or_false] at he
  rcases he with rfl | rfl | rfl | rfl | rfl | rfl
  all_goals first | exact trivial | exact rfl

theorem twoAccepts_runs : ∃ s, (system .little ReqNodeLogin.parseFromIstream
    (Json.strictParse (fun _ => none) .null) (fun _ => []) .undefined 5).run twoAccepts = some s ∧
      s.stopped = none := by
  have hruns : ((system .little ReqNodeLogin.parseFromIstream
      (Json.strictParse (fun _ => none) .null) (fun _ => []) .undefined 5).run twoAccepts).any
        (fun s => s.stopped = none) = true := by decide +kernel
  obtain ⟨s, hrun, hstopped⟩ := (Option.any_eq_true _ _).mp hruns
  exact ⟨s, hrun, of_decide_eq_true hstopped⟩

theorem connected_inTurn_twoAccepts : ∃ s, (system .little ReqNodeLogin.parseFromIstream
    (Json.strictParse (fun _ => none) .null) (fun _ => []) .undefined 5).run twoAccepts = some s ∧
      ∀ worker, s.server.connectedSocks worker <+:
        (List.range 2).filter (turn 5 · = worker) := by
  obtain ⟨s, hrun, hstopped⟩ := twoAccepts_runs
  exact ⟨s, hrun, (connected_inTurn (by decide) twoAccepts_keepsObjects (by decide) hrun
    hstopped).2.1⟩

/-- What the pool and the callbacks still have to do. -/
def owedSteps (nThreadCount : Int32) (s : State) : ℕ :=
  totalOwed nThreadCount s.pool +
    ∑ worker ∈ Finset.range nThreadCount.toInt.toNat, (s.server.pending worker).length

/-- An own step is one of the pool or one of a callback. -/
theorem own_step {e : Event} (hown : Own e)
    (h : step host parse parseJson realToString overflow s e = some s') :
    s'.stopped = s.stopped ∧
      ((∃ f, WorkerPool.Pending f ∧ WorkerPool.step overflow s.pool f = some s'.pool ∧
          s'.server.pending = s.server.pending) ∨
        ∃ worker task rest, s'.pool = s.pool ∧ s.server.pending worker = task :: rest ∧
          s'.server.pending = Function.update s.server.pending worker rest) := by
  rcases hown with rfl | ⟨worker, rfl | rfl | rfl | rfl⟩
  · obtain ⟨pool, hpool, rfl⟩ := step_active h
    exact ⟨rfl, Or.inl ⟨_, Or.inl rfl, hpool, rfl⟩⟩
  · obtain ⟨_, pool, hpool, rfl⟩ := step_readByte h
    exact ⟨rfl, Or.inl ⟨_, Or.inr ⟨worker, .readByte, rfl⟩, hpool, rfl⟩⟩
  · obtain ⟨pool, hpool, rfl⟩ := step_popFront h
    exact ⟨rfl, Or.inl ⟨_, Or.inr ⟨worker, .popFront, rfl⟩, hpool, rfl⟩⟩
  · obtain ⟨pConnect, pool, _, hpool, rfl⟩ := step_handlerConnect h
    exact ⟨rfl, Or.inl ⟨_, Or.inr ⟨worker, .handlerConnect, rfl⟩, hpool,
      (s.server.handlerConnect_frame pConnect true).2⟩⟩
  · obtain ⟨_, server, _, _, hserver, rfl⟩ := step_callback h
    obtain ⟨task, rest, hpending, rfl⟩ := Server.step_resume hserver
    exact ⟨rfl, Or.inr ⟨worker, task, rest, rfl, hpending,
      (Server.perform_frames _ task).2.1⟩⟩

theorem Own.keepsObjects {e : Event} (hown : Own e) : KeepsObjects e ∧ accepts [e] = [] := by
  rcases hown with rfl | ⟨worker, rfl | rfl | rfl | rfl⟩
  · exact ⟨trivial, rfl⟩
  · exact ⟨trivial, rfl⟩
  · exact ⟨trivial, rfl⟩
  · exact ⟨rfl, rfl⟩
  · exact ⟨id, rfl⟩

/-- A worker in a callback is one of the pool. -/
theorem Connected.worker_lt (h : Connected nThreadCount s) (hcount : 1 ≤ nThreadCount.toInt)
    {worker : Worker} {task : Server.Task} (htask : task ∈ s.server.pending worker) :
    worker < nThreadCount.toInt.toNat := by
  obtain ⟨v, hv, hbase, _⟩ := h.inv.1.taskBev htask
  have hfd : v.fd ∈ s.abs.connectedSocks worker :=
    List.mem_map_of_mem (List.mem_filter.mpr ⟨List.mem_of_getElem? hv, decide_eq_true hbase⟩)
  have hmem := List.mem_append_left (s.abs.queuedSocks worker) hfd
  rw [h.connects.order, List.mem_filter, decide_eq_true_iff] at hmem
  rw [← hmem.2]
  exact Nat.mod_lt _ (by omega)

/-- Once nothing is going on, every socket is connected in its turn. -/
theorem Connected.allConnected (h : Connected nThreadCount s) {es : List (WorkerPool.Event Addr)}
    (hdealt : Dealt nThreadCount es s.pool) (hquiet : WorkerPool.Quiescent s.pool)
    (hidle : ∀ worker, s.server.pending worker = []) :
    AllConnected nThreadCount s.server.accepted s where
  quiescent := hquiet
  idle := hidle
  connected := by
    intro worker
    have hlist : s.abs.listConnect worker = [] := by
      rw [State.abs, withLists]
      dsimp only
      rw [queued, hdealt.listConnect_eq_nil hquiet, (hquiet.thread worker).2]
      rfl
    have hqueued : s.abs.queuedSocks worker = [] := by
      rw [Server.State.queuedSocks, hlist, List.filterMap_nil]
    have horder := h.connects.order worker
    rw [hqueued, List.append_nil] at horder
    exact horder
  live := fun _ hv => h.alive.argLive hv

/-- Until then an own step can happen. -/
theorem own_enabled (h : Connected nThreadCount s) {es : List (WorkerPool.Event Addr)}
    (hdealt : Dealt nThreadCount es s.pool)
    (hbusy : ¬AllConnected nThreadCount s.server.accepted s) :
    ∃ e s', Own e ∧ step host parse parseJson realToString overflow s e = some s' := by
  by_cases hidle : ∀ worker, s.server.pending worker = []
  · have hpool : ¬WorkerPool.Quiescent s.pool := fun hquiet =>
      hbusy (h.allConnected hdealt hquiet hidle)
    obtain ⟨f, pool, hpending, hf⟩ := WorkerPool.pending_enabled hdealt hpool
    rcases hpending with rfl | ⟨worker, f, rfl⟩
    · refine ⟨.active true, { s with pool }, Or.inl rfl, ?_⟩
      unfold step
      rw [if_neg (not_not.mpr h.running)]
      dsimp only
      rw [hf]
      rfl
    · obtain ⟨hnotify, t, ht, _⟩ := WorkerPool.step_notify hf
      cases f with
      | addConnect a => cases hnotify
      | active written => cases hnotify
      | readByte =>
        refine ⟨.readByte worker, { s with pool }, Or.inr ⟨worker, Or.inl rfl⟩, ?_⟩
        unfold step
        rw [if_neg (not_not.mpr h.running)]
        dsimp only
        rw [if_neg (not_not.mpr (hidle worker)), hf]
        rfl
      | popFront =>
        refine ⟨.popFront worker, { s with pool }, Or.inr ⟨worker, Or.inr (Or.inl rfl)⟩, ?_⟩
        unfold step
        rw [if_neg (not_not.mpr h.running)]
        dsimp only
        rw [hf]
        rfl
      | handlerConnect =>
        obtain ⟨a, hholding⟩ : ∃ a, (s.pool.thread worker).worker = .holding a := by
          cases hw : (s.pool.thread worker).worker with
          | holding a => exact ⟨a, rfl⟩
          | _ =>
            rw [Xthread.step, hw] at ht
            cases ht
        refine ⟨.handlerConnect worker true,
          { s with pool, server := s.server.handlerConnect a true },
          Or.inr ⟨worker, Or.inr (Or.inr (Or.inl rfl))⟩, ?_⟩
        unfold step
        rw [if_neg (not_not.mpr h.running)]
        dsimp only
        rw [hholding]
        dsimp only
        rw [hf]
        rfl
  · obtain ⟨worker, hne⟩ := not_forall.mp hidle
    obtain ⟨task, rest, hpending⟩ := List.exists_cons_of_ne_nil hne
    have hfree : (s.pool.thread worker).worker = .idle := by
      by_contra hwork
      exact hne (h.exclusive worker hwork)
    obtain ⟨server, hserver⟩ : ∃ server, Server.step host parse s.server (.resume worker) =
        some server := ⟨_, Server.step_resume_of host parse h.running.1 hpending⟩
    refine ⟨.callback (.resume worker), { s with server },
      Or.inr ⟨worker, Or.inr (Or.inr (Or.inr rfl))⟩, ?_⟩
    unfold step
    rw [if_neg (not_not.mpr h.running)]
    dsimp only [workerOf]
    rw [if_neg (not_not.mpr hfree), hserver]
    rfl

/-- An own step pays off some of what is owed. -/
theorem Connected.own (h : Connected nThreadCount s) (hcount : 1 ≤ nThreadCount.toInt)
    {es : List (WorkerPool.Event Addr)} (hdealt : Dealt nThreadCount es s.pool)
    (hfew : (dispatched es).length ≤ 2 ^ 31) (haccepted : s.server.accepted ≤ 2 ^ 31) {e : Event}
    (hown : Own e) (hstep : Process.step host parse parseJson realToString overflow s e = some s') :
    Connected nThreadCount s' ∧ Dealt nThreadCount es s'.pool ∧
      s'.server.accepted = s.server.accepted ∧
        owedSteps nThreadCount s' < owedSteps nThreadCount s := by
  obtain ⟨hstopped, heffect⟩ := own_step hown hstep
  obtain ⟨hkeeps, hnone⟩ := hown.keepsObjects
  have hnext : Connected nThreadCount s' ∧ s'.server.accepted = s.server.accepted := by
    have hstep' := h.step hcount hkeeps (by rwa [hnone]) (hstopped.trans h.running.2.2) hstep
    rwa [hnone] at hstep'
  obtain ⟨hconnected, hkept⟩ := hnext
  rcases heffect with ⟨f, hpending, hf, hsame⟩ | ⟨worker, task, rest, hsame, htasks, hrest⟩
  · refine ⟨hconnected, hdealt.pending hcount hfew hpending hf, hkept, ?_⟩
    rw [owedSteps, owedSteps, hsame]
    exact Nat.add_lt_add_right (WorkerPool.totalOwed_step hdealt hcount hpending hf) _
  · refine ⟨hconnected, hsame ▸ hdealt, hkept, ?_⟩
    have hlt := h.worker_lt hcount (htasks ▸ List.mem_cons_self : task ∈ s.server.pending worker)
    rw [owedSteps, owedSteps, hsame]
    refine Nat.add_lt_add_left (Finset.sum_lt_sum (fun other _ => ?_)
      ⟨worker, Finset.mem_range.mpr hlt, ?_⟩) _
    · rw [hrest]
      by_cases hown : other = worker
      · rw [hown, Function.update_self, htasks]
        exact Nat.le_succ _
      · rw [Function.update_of_ne hown]
    · rw [hrest, Function.update_self, htasks]
      exact Nat.lt_succ_self _

/-- After any run in which no object is deleted, no write to a pipe fails, the counter
does not overflow and no callback of the HTTP server ends the process, the steps that the process takes on its own come to an
end, and in whatever order they are taken, they lead to a state in which each
worker has one bufferevent on every accepted socket of its turns. -/
theorem process_settles (hcount : 1 ≤ nThreadCount.toInt)
    (hkeeps : ∀ e ∈ events, KeepsObjects e) (hwrites : ∀ e ∈ events, e ≠ .active false)
    (hfew : (accepts events).length ≤ 2 ^ 31)
    (hrun : (system host parse parseJson realToString overflow nThreadCount).run events = some s)
    (hstopped : s.stopped = none) :
    (system host parse parseJson realToString overflow nThreadCount).Settles Own
      (AllConnected nThreadCount (accepts events).length) s := by
  have hconnected := connected_run hcount hkeeps hfew hrun hstopped
  have hdealt := WorkerPool.dealt_run hcount (inPool_written hwrites) hfew (pool_run hrun)
  refine System.settles_of_measure (I := fun t => Connected nThreadCount t ∧
    Dealt nThreadCount (events.flatMap Event.inPool) t.pool ∧
      t.server.accepted = (accepts events).length) (owedSteps nThreadCount) ?_ ?_
        ⟨hconnected.1, hdealt, hconnected.2⟩
  · rintro t e t' ⟨h, hpool, haccepted⟩ hown hstep
    obtain ⟨hnext, hpool', hkept, hlt⟩ := h.own hcount hpool hfew (haccepted ▸ hfew) hown hstep
    exact ⟨⟨hnext, hpool', hkept.trans haccepted⟩, hlt⟩
  · rintro t ⟨h, hpool, haccepted⟩ hbusy
    exact own_enabled h hpool (by rwa [haccepted])

theorem process_settles_twoAccepts : ∃ s, (system .little ReqNodeLogin.parseFromIstream
    (Json.strictParse (fun _ => none) .null) (fun _ => []) .undefined 5).run twoAccepts = some s ∧
      (system .little ReqNodeLogin.parseFromIstream (Json.strictParse (fun _ => none) .null)
        (fun _ => []) .undefined 5).Settles Own (AllConnected 5 2) s := by
  have hwrites : ∀ e ∈ twoAccepts, e ≠ .active false := by
    intro e he
    simp only [twoAccepts, List.mem_cons, List.not_mem_nil, or_false] at he
    rcases he with rfl | rfl | rfl | rfl | rfl | rfl
    all_goals exact fun hsame => nomatch hsame
  obtain ⟨s, hrun, hstopped⟩ := twoAccepts_runs
  exact ⟨s, hrun, process_settles (by decide) twoAccepts_keepsObjects hwrites (by decide) hrun
    hstopped⟩

end NodeManager.Process
