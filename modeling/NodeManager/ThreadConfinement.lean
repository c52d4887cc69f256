import NodeManager.ServerInvariant

/-!
# Which thread works on a bufferevent

The main thread accepts connections and serves HTTP, and a worker runs its
notifications and the callbacks of the bufferevents on its base. The base of
each worker has no locks, so only that worker may work on a bufferevent of the
base. The registry hands the connection objects to the main thread, which then
writes the close request itself.
-/

namespace NodeManager.Server

open ByteMemory TransitionSystem

/-- A thread of the server. -/
inductive Thread
  | main
  | worker (worker : Worker)
  deriving DecidableEq

/-- What is done to a bufferevent. -/
inductive Operation
  | setcb
  | enable
  | read
  | write
  deriving DecidableEq

/-- The thread that an event is run by. -/
def thread (s : State) : Event → Thread
  | .accept _ _ => .main
  | .handlerConnect worker _ => .worker worker
  | .read bev _ _ => (s.bevs[bev]?).elim .main fun v => .worker v.base
  | .resume worker => .worker worker
  | .errorCallBack bev _ => (s.bevs[bev]?).elim .main fun v => .worker v.base
  | .getAllNode => .main
  | .delNode _ _ => .main

/-- The bufferevent operations of `HandlerConnect`. In a deleted object `m_pBase` is
read before it is known whether there is a bufferevent, and on which base it is. -/
def handlerConnectOperations (s : State) (pThis : Addr) (created : Bool) :
    List (Operation × Option Bev) :=
  match s.heap pThis with
  | none => [(.setcb, none), (.enable, none)]
  | some _ =>
    if created then [(.setcb, some s.bevs.length), (.enable, some s.bevs.length)] else []

/-- The bufferevent operations of `SendReqCloseNode`, which writes to `m_pBev`
whatever that is. -/
def sendReqCloseNodeOperations (s : State) (pThis : Addr) : List (Operation × Option Bev) :=
  [(.write, (s.heap pThis).bind NodeConnect.bev)]

/-- The bufferevent operations of one effect of `ReadCallBack`. -/
def taskOperations (task : Task) : List (Operation × Option Bev) :=
  match task.action with
  | .write _ => [(.write, some task.bev)]
  | _ => []

/-- The bufferevent operations of an event, in the order of the source, each with
its bufferevent unless the pointer to it is null or read out of a deleted object. -/
def operations (s : State) : Event → List (Operation × Option Bev)
  | .accept _ _ => []
  | .handlerConnect worker created =>
    (s.listConnect worker).head?.elim [] fun pConnect =>
      handlerConnectOperations s pConnect created
  | .read bev _ _ => [(.read, some bev)]
  | .resume worker => (s.pending worker).head?.elim [] taskOperations
  | .errorCallBack _ _ => []
  | .getAllNode => []
  | .delNode strIp _ =>
    (s.mapNode.lookup strIp).elim [] fun pNodeConn => sendReqCloseNodeOperations s pNodeConn

/-- Every bufferevent operation of the step is on a bufferevent, and is run by the
worker whose base that is on. -/
def Confined (s : State) (e : Event) (s' : State) : Prop :=
  ∀ op target, (op, target) ∈ operations s e →
    ∃ bev v, target = some bev ∧ s'.bevs[bev]? = some v ∧ thread s e = .worker v.base

/-- The frames written and the bufferevents made by a step are those of its
operations, and an operation on an unknown bufferevent is a fault. -/
structure Accounts (done : List (Operation × Option Bev)) (s s' : State) : Prop where
  written : ∀ bev, ∃ frames, s'.written bev = s.written bev ++ frames ∧
    frames.length = done.count (.write, some bev)
  made : s'.bevs.length = s.bevs.length + done.countP fun o => o.1 = .setcb ∧ o.2 ≠ none
  known : (∃ op, (op, none) ∈ done) → s'.fault ≠ none

/-- The step connects a live object, which was dispatched to this worker if a
bufferevent is made for it, and asks no ip to close that has an entry. -/
def StaysOnWorker (s : State) : Event → Prop
  | .handlerConnect worker created => ∀ pConnect ∈ (s.listConnect worker).head?,
      ∃ x, s.heap pConnect = some x ∧ (created = true → x.base = worker)
  | .delNode strIp _ => s.mapNode.lookup strIp = none
  | _ => True

section Accounts

variable {host : ByteOrder} {parse : Parser} {s s' : State}

/-- Neither a frame is written nor a bufferevent made. -/
theorem accounts_quiet {done : List (Operation × Option Bev)} (hwritten : s'.written = s.written)
    (hbevs : s'.bevs = s.bevs) (hquiet : ∀ o ∈ done, o.1 = .read ∧ o.2 ≠ none) :
    Accounts done s s' where
  written := by
    intro bev
    refine ⟨[], by rw [hwritten, List.append_nil], ?_⟩
    refine (List.count_eq_zero.mpr fun hmem => ?_).symm
    cases (hquiet _ hmem).1
  made := by
    have hnone : done.countP (fun o => o.1 = .setcb ∧ o.2 ≠ none) = 0 := by
      refine List.countP_eq_zero.mpr fun o hmem => ?_
      rw [(hquiet o hmem).1]
      exact fun h => (nomatch (of_decide_eq_true h).1)
    rw [hbevs, hnone, Nat.add_zero]
  known := fun ⟨_, hmem⟩ => absurd rfl (hquiet _ hmem).2

theorem accounts_nil (hwritten : s'.written = s.written) (hbevs : s'.bevs = s.bevs) :
    Accounts [] s s' :=
  accounts_quiet hwritten hbevs fun _ hmem => absurd hmem List.not_mem_nil

/-- An unknown bufferevent is worked on. -/
theorem accounts_fail {done : List (Operation × Option Bev)} (hwritten : s'.written = s.written)
    (hbevs : s'.bevs = s.bevs) (hunknown : ∀ o ∈ done, o.2 = none) (hfault : s'.fault ≠ none) :
    Accounts done s s' where
  written := by
    intro bev
    refine ⟨[], by rw [hwritten, List.append_nil], ?_⟩
    refine (List.count_eq_zero.mpr fun hmem => ?_).symm
    cases hunknown _ hmem
  made := by
    have hnone : done.countP (fun o => o.1 = .setcb ∧ o.2 ≠ none) = 0 :=
      List.countP_eq_zero.mpr fun o hmem h => (of_decide_eq_true h).2 (hunknown o hmem)
    rw [hbevs, hnone, Nat.add_zero]
  known := fun _ => hfault

/-- One frame is written. -/
theorem accounts_write {bev : Bev} {bytes : List UInt8}
    (hwritten : s'.written = Function.update s.written bev (s.written bev ++ [bytes]))
    (hbevs : s'.bevs = s.bevs) : Accounts [(.write, some bev)] s s' where
  written := by
    intro other
    rw [hwritten]
    by_cases hsame : other = bev
    · refine ⟨[bytes], ?_, ?_⟩
      · rw [hsame, Function.update_self]
      · rw [hsame, List.count_singleton_self]
        rfl
    · refine ⟨[], ?_, ?_⟩
      · rw [Function.update_of_ne hsame, List.append_nil]
      · refine (List.count_eq_zero.mpr fun hmem => hsame ?_).symm
        exact Option.some.inj (Prod.mk.inj (List.mem_singleton.mp hmem)).2
  made := by
    rw [hbevs]
    rfl
  known := fun ⟨_, hmem⟩ => nomatch (Prod.mk.inj (List.mem_singleton.mp hmem)).2

theorem accounts_delete {t : State} (hwritten : t.written = s.written) (hbevs : t.bevs = s.bevs)
    (a : Addr) : Accounts [] s (t.delete a) := by
  obtain ⟨hkept, _, hsame⟩ := t.delete_frame a
  exact accounts_nil (hkept.trans hwritten) (hsame.trans hbevs)

theorem accounts_handlerConnect {t : State} (hwritten : t.written = s.written)
    (hbevs : t.bevs = s.bevs) (hheap : t.heap = s.heap) (a : Addr) (created : Bool) :
    Accounts (handlerConnectOperations s a created) s (t.handlerConnect a created) := by
  unfold handlerConnectOperations
  rw [← hheap]
  cases hx : t.heap a with
  | none =>
    rw [State.handlerConnect_dead hx]
    refine accounts_fail hwritten hbevs (fun o hmem => ?_) (Option.some_ne_none _)
    rw [List.mem_cons, List.mem_singleton] at hmem
    rcases hmem with rfl | rfl <;> rfl
  | some x =>
    cases created with
    | false =>
      rw [State.handlerConnect_failed hx]
      exact accounts_delete hwritten hbevs a
    | true =>
      rw [State.handlerConnect_created hx]
      refine ⟨fun bev => ⟨[], ?_, rfl⟩, ?_, fun ⟨op, hmem⟩ => ?_⟩
      · rw [List.append_nil]
        exact congrFun hwritten bev
      · rw [List.length_append, hbevs]
        rfl
      · rw [if_pos rfl, List.mem_cons, List.mem_singleton] at hmem
        rcases hmem with heq | heq <;> cases heq

theorem accounts_sendReqCloseNode (host : ByteOrder) (stack : Stack) (s : State) (a : Addr) :
    Accounts (sendReqCloseNodeOperations s a) s (s.sendReqCloseNode host stack a) := by
  unfold sendReqCloseNodeOperations State.sendReqCloseNode
  cases s.heap a with
  | none =>
    exact accounts_fail rfl rfl (fun o hmem => List.mem_singleton.mp hmem ▸ rfl)
      (Option.some_ne_none _)
  | some x =>
    rw [NodeConnect.closeFrame_eq]
    dsimp only [Option.bind_some]
    cases x.bev with
    | none =>
      exact accounts_fail rfl rfl (fun o hmem => List.mem_singleton.mp hmem ▸ rfl)
        (Option.some_ne_none _)
    | some bev => exact accounts_write rfl rfl

theorem accounts_perform {t : State} (hwritten : t.written = s.written) (hbevs : t.bevs = s.bevs)
    (task : Task) : Accounts (taskOperations task) s (t.perform task) := by
  unfold taskOperations State.perform
  cases task.action with
  | decode msgId body => exact accounts_nil hwritten hbevs
  | setNodeName strName =>
    obtain ⟨hkept, _, hsame⟩ := t.setNodeName_frame task.arg strName
    exact accounts_nil (hkept.trans hwritten) (hsame.trans hbevs)
  | addNode info => exact accounts_nil hwritten hbevs
  | write bytes =>
    have hone : (t.buffereventWrite task.bev bytes).written =
        Function.update s.written task.bev (s.written task.bev ++ [bytes]) := by
      rw [← hwritten]
      rfl
    exact accounts_write hone hbevs

/-- What an event writes and makes is what its operations say. -/
theorem accounts_step {e : Event} (hstep : step host parse s e = some s') :
    Accounts (operations s e) s s' := by
  cases e with
  | accept pNodeCon worker =>
    obtain ⟨_, rfl⟩ := step_accept hstep
    exact accounts_nil rfl rfl
  | handlerConnect worker created =>
    obtain ⟨pConnect, rest, hlist, _, rfl⟩ := step_handlerConnect hstep
    rw [operations, hlist, List.head?_cons, Option.elim_some]
    set t : State := { s with listConnect := Function.update s.listConnect worker rest } with ht
    have hwritten : t.written = s.written := rfl
    have hbevs : t.bevs = s.bevs := rfl
    exact accounts_handlerConnect hwritten hbevs rfl pConnect created
  | read bev stack input =>
    obtain ⟨_, _, _, _, _, rfl⟩ := step_read hstep
    refine accounts_quiet rfl rfl fun o hmem => ?_
    rw [List.mem_singleton.mp hmem]
    exact ⟨rfl, Option.some_ne_none bev⟩
  | resume worker =>
    obtain ⟨task, rest, hpending, rfl⟩ := step_resume hstep
    rw [operations, hpending, List.head?_cons, Option.elim_some]
    set t : State := { s with pending := Function.update s.pending worker rest } with ht
    have hwritten : t.written = s.written := rfl
    exact accounts_perform hwritten rfl task
  | errorCallBack bev what =>
    obtain ⟨_, _, _, rfl⟩ := step_errorCallBack hstep
    split
    · exact accounts_delete rfl rfl _
    · exact accounts_nil rfl rfl
  | getAllNode =>
    obtain rfl := step_getAllNode hstep
    split
    · exact accounts_nil rfl rfl
    · exact accounts_nil rfl rfl
  | delNode strIp stack =>
    obtain rfl := step_delNode hstep
    rw [operations, State.delNode]
    cases s.mapNode.lookup strIp with
    | none => exact accounts_nil rfl rfl
    | some pNodeConn => exact accounts_sendReqCloseNode host stack s pNodeConn

end Accounts

section Threads

variable {host : ByteOrder} {parse : Parser} {s s' : State}

/-- Without operations there is nothing to confine. -/
theorem confined_of_nil {e : Event} (hnone : operations s e = []) : Confined s e s' := by
  intro op target hmem
  rw [hnone] at hmem
  cases hmem

/-- The effects of `ReadCallBack` are those of the worker that reads. -/
theorem confined_resume (h : Inv s) {worker : Worker}
    (hstep : step host parse s (.resume worker) = some s') :
    Confined s (.resume worker) s' := by
  intro op target hmem
  obtain ⟨task, rest, hpending, rfl⟩ := step_resume hstep
  rw [operations, hpending, List.head?_cons, Option.elim_some] at hmem
  have htask : task ∈ s.pending worker := hpending ▸ List.mem_cons_self
  obtain ⟨v, hv, hbase, _⟩ := h.1.taskBev htask
  cases haction : task.action with
  | decode msgId body =>
    rw [taskOperations, haction] at hmem
    cases hmem
  | setNodeName strName =>
    rw [taskOperations, haction] at hmem
    cases hmem
  | addNode info =>
    rw [taskOperations, haction] at hmem
    cases hmem
  | write bytes =>
    rw [taskOperations, haction] at hmem
    obtain ⟨rfl, rfl⟩ := Prod.mk.inj (List.mem_singleton.mp hmem)
    refine ⟨task.bev, v, rfl, ?_, congrArg Thread.worker hbase.symm⟩
    rw [State.perform, haction]
    exact hv

/-- A new bufferevent is set up by the worker of its base, if the object is live
and was dispatched to it. -/
theorem confined_handlerConnect {worker : Worker} {created : Bool}
    (hstep : step host parse s (.handlerConnect worker created) = some s') :
    Confined s (.handlerConnect worker created) s' ↔
      StaysOnWorker s (.handlerConnect worker created) := by
  obtain ⟨pConnect, rest, hlist, _, rfl⟩ := step_handlerConnect hstep
  have hguard : StaysOnWorker s (.handlerConnect worker created) ↔
      ∃ x, s.heap pConnect = some x ∧ (created = true → x.base = worker) := by
    rw [StaysOnWorker, hlist]
    simp only [List.head?_cons, Option.mem_def, Option.some.injEq, forall_eq']
  rw [hguard, Confined, operations, hlist, List.head?_cons, Option.elim_some,
    handlerConnectOperations]
  cases hx : s.heap pConnect with
  | none =>
    refine iff_of_false (fun hconfined => ?_) fun ⟨x, hnone, _⟩ => nomatch hnone
    obtain ⟨_, _, hunknown, _⟩ := hconfined .setcb none List.mem_cons_self
    cases hunknown
  | some x =>
    cases created with
    | false =>
      exact iff_of_true (fun _ _ hmem => absurd hmem List.not_mem_nil)
        ⟨x, rfl, fun hmade => nomatch hmade⟩
    | true =>
      have hlive : ({ s with listConnect := Function.update s.listConnect worker rest } :
          State).heap pConnect = some x := hx
      rw [State.handlerConnect_created hlive]
      have hnew : (s.bevs ++ [{ fd := x.sock, base := x.base, arg := pConnect }])[s.bevs.length]? =
          some { fd := x.sock, base := x.base, arg := pConnect } :=
        List.getElem?_concat_length
      constructor
      · intro hconfined
        obtain ⟨bev, v, hbev, hv, hthread⟩ :=
          hconfined .setcb (some s.bevs.length) List.mem_cons_self
        obtain rfl := Option.some.inj hbev
        obtain rfl := Option.some.inj (hv.symm.trans hnew)
        exact ⟨x, rfl, fun _ => (Thread.worker.inj hthread).symm⟩
      · rintro ⟨y, hy, hbase⟩ op target hmem
        obtain rfl := Option.some.inj hy
        have htarget : target = some s.bevs.length := by
          rw [if_pos rfl, List.mem_cons, List.mem_singleton] at hmem
          rcases hmem with heq | heq
          · exact (Prod.mk.inj heq).2
          · exact (Prod.mk.inj heq).2
        exact ⟨_, _, htarget, hnew, congrArg Thread.worker (hbase rfl).symm⟩

/-- The main thread writes where the ip has an entry. -/
theorem confined_delNode {strIp : Str} {stack : Stack} :
    Confined s (.delNode strIp stack) s' ↔ StaysOnWorker s (.delNode strIp stack) := by
  rw [StaysOnWorker]
  cases hlookup : s.mapNode.lookup strIp with
  | none =>
    refine iff_of_true (confined_of_nil ?_) rfl
    rw [operations, hlookup, Option.elim_none]
  | some pNodeConn =>
    refine iff_of_false (fun hconfined => ?_) (Option.some_ne_none pNodeConn)
    have hwrites : (Operation.write, (s.heap pNodeConn).bind NodeConnect.bev) ∈
        operations s (.delNode strIp stack) := by
      rw [operations, hlookup, Option.elim_some]
      exact List.mem_singleton_self _
    obtain ⟨_, _, _, _, hthread⟩ := hconfined _ _ hwrites
    cases hthread

/-- One step stays on the worker of the bufferevent exactly when it meets the
guard. -/
theorem confined_step (h : Inv s) {e : Event} (hstep : step host parse s e = some s') :
    Confined s e s' ↔ StaysOnWorker s e := by
  cases e with
  | accept pNodeCon worker => exact iff_of_true (confined_of_nil rfl) trivial
  | errorCallBack bev what => exact iff_of_true (confined_of_nil rfl) trivial
  | getAllNode => exact iff_of_true (confined_of_nil rfl) trivial
  | read bev stack input =>
    refine iff_of_true (fun op target hmem => ?_) trivial
    obtain ⟨rfl, rfl⟩ := Prod.mk.inj (List.mem_singleton.mp hmem)
    obtain ⟨v, _, hbev, _, _, rfl⟩ := step_read hstep
    refine ⟨bev, v, rfl, hbev, ?_⟩
    rw [thread, hbev, Option.elim_some]
  | resume worker => exact iff_of_true (confined_resume h hstep) trivial
  | handlerConnect worker created => exact confined_handlerConnect hstep
  | delNode strIp stack => exact confined_delNode

end Threads

/-- In a run of any events the operations of every step are what it writes and
makes, and every one of them is run by the worker of the bufferevent's base
exactly when every worker connects live objects only, and none that was
dispatched to another, and no ip with an entry is asked to close. -/
theorem confined_steps (host : ByteOrder) (parse : Parser) (es : List Event) :
    (system host parse).Steps (fun s e s' => Accounts (operations s e) s s') State.init es ∧
      ((system host parse).Steps Confined State.init es ↔
        (system host parse).Guarded StaysOnWorker State.init es) := by
  have hkeep : ∀ (s : State) (e : Event) (s' : State), True → Inv s →
      (system host parse).step s e = some s' → Inv s' := fun s e s' _ h hstep => h.step hstep
  have hiff : ∀ (s : State) (e : Event) (s' : State), True → Inv s →
      (system host parse).step s e = some s' → (Confined s e s' ↔ StaysOnWorker s e) :=
    fun s e s' _ h hstep => confined_step h hstep
  exact ⟨System.steps_of_step (fun s e s' hstep => accounts_step hstep) State.init es,
    System.steps_iff_guarded hkeep hiff Inv.init fun _ _ => trivial⟩

/-- A node logs in and the HTTP server is asked to stop it: the main thread
writes to the bufferevent of the worker. -/
theorem close_from_main : ¬∀ (host : ByteOrder) (parse : Parser) (es : List Event),
    (system host parse).Steps Confined State.init es := by
  intro h
  let es : List Event := [.accept 0 0, .handlerConnect 0 true,
    .read 0 .zeros (oneByteLogin 49), .resume 0, .resume 0, .resume 0, .resume 0]
  have hrun : ((system .little ReqNodeLogin.parseFromIstream).run es).any (fun s =>
      (Operation.write, some 0) ∈ operations s (.delNode [49] .zeros) ∧
        (step .little ReqNodeLogin.parseFromIstream s (.delNode [49] .zeros)).isSome =
          true) = true := by decide +kernel
  obtain ⟨s, hs, hboth⟩ := (Option.any_eq_true _ _).mp hrun
  obtain ⟨hwrites, hstops⟩ := of_decide_eq_true hboth
  obtain ⟨s', hstep⟩ := Option.isSome_iff_exists.mp hstops
  have hlast := (h .little ReqNodeLogin.parseFromIstream
    (es ++ [.delNode [49] .zeros])).of_runFrom hs
  obtain ⟨_, _, _, _, hthread⟩ := (hlast s' hstep).1 .write (some 0) hwrites
  cases hthread

end NodeManager.Server
