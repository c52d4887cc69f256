import NodeManager.ConnectionReplies
import NodeManager.WorkerPool

/-!
# The server process

The main thread with the listener and the HTTP server, the pool that it hands
the connections to, and the workers, each of them in one callback at a time. A
connection takes several steps from `AddConnect` to `HandlerConnect`, and an
HTTP request is a document to be parsed. The server as a transition system of
its own, with one step for each, is what this process implements.
-/

namespace NodeManager.Process

open ByteMemory TransitionSystem
open WorkerPool (system)

/-- The process. The lists `m_listconnect` are those of the pool; the ones of the
server state are not used. -/
structure State where
  server : Server.State
  pool : WorkerPool.State Addr
  /-- The replies of the HTTP server, oldest first. -/
  replies : List HttpReq.Reply
  /-- What has ended the process in a callback of the HTTP server. -/
  stopped : Option HttpReq.Stop

/-- The process after `XThreadPool::Init`, when the workers have been set up. -/
def State.init (nThreadCount : Int32) : State where
  server := Server.State.init
  pool := WorkerPool.State.init nThreadCount
  replies := []
  stopped := none

/-- The steps of the threads. -/
inductive Event
  /-- `ListenCallBack` creates an object and dispatches it up to `AddConnect`. -/
  | accept (pNodeCon : Addr)
  /-- `DispatchThread` calls `Active`. -/
  | active (written : Bool)
  /-- `Notify` reads a byte. -/
  | readByte (worker : Worker)
  /-- `Notify` takes a connection off the list. -/
  | popFront (worker : Worker)
  /-- `Notify` calls `HandlerConnect`. -/
  | handlerConnect (worker : Worker) (created : Bool)
  /-- A worker begins a callback of a bufferevent or goes on with it. -/
  | callback (e : Server.Event)
  /-- A request to `/v1/nodeManager/GetAllNodes`. -/
  | httpReqGetAllNodes
  /-- A request to `/v1/nodeManager/StopNode`. -/
  | httpReqStopNode (stack : Stack) (body : Str)

/-- The worker that runs a callback of a bufferevent. -/
def workerOf (s : Server.State) : Server.Event → Option Worker
  | .read bev _ _ => s.bevs[bev]?.map (·.base)
  | .errorCallBack bev _ => s.bevs[bev]?.map (·.base)
  | .resume worker => some worker
  | _ => none

variable (host : ByteOrder) (parse : Parser) (parseJson : HttpReq.JsonParser)
  (realToString : Json.Double → Str) (overflow : ThreadPool.SignedOverflow)

/-- No fault of the server or the pool and no callback of the HTTP server has ended
the process. -/
def Running (s : State) : Prop :=
  s.server.fault = none ∧ s.pool.fault = none ∧ s.stopped = none

instance (s : State) : Decidable (Running s) := inferInstanceAs (Decidable (_ ∧ _ ∧ _))

/-- The effect of an event that can happen. The main thread is between
`AddConnect` and `Active` while the pool is `active`, and a worker that is not
`idle` is in `Notify`. -/
def step (s : State) (e : Event) : Option State :=
  if ¬Running s then none
  else match e with
  | .accept pNodeCon =>
    if s.server.heap pNodeCon ≠ none then none
    else (WorkerPool.step overflow s.pool (.dispatch pNodeCon)).map fun pool =>
      match pool.active with
      | none => { s with pool }
      | some worker => { s with
          pool
          server := { s.server with
            heap := Function.update s.server.heap pNodeCon
              (some { sock := s.server.accepted, base := worker })
            accepted := s.server.accepted + 1 } }
  | .active written =>
    (WorkerPool.step overflow s.pool (.active written)).map fun pool => { s with pool }
  | .readByte worker =>
    if s.server.pending worker ≠ [] then none
    else (WorkerPool.step overflow s.pool (.notify worker .readByte)).map fun pool =>
      { s with pool }
  | .popFront worker =>
    (WorkerPool.step overflow s.pool (.notify worker .popFront)).map fun pool => { s with pool }
  | .handlerConnect worker created =>
    match (s.pool.thread worker).worker with
    | .holding pConnect =>
      (WorkerPool.step overflow s.pool (.notify worker .handlerConnect)).map fun pool =>
        { s with pool, server := s.server.handlerConnect pConnect created }
    | _ => none
  | .callback e =>
    match workerOf s.server e with
    | none => none
    | some worker =>
      if (s.pool.thread worker).worker ≠ .idle then none
      else (Server.step host parse s.server e).map fun server => { s with server }
  | .httpReqGetAllNodes =>
    if s.pool.active ≠ none then none
    else match HttpReq.httpReqGetAllNodesCb realToString s.server with
    | .error stop => some { s with stopped := some stop }
    | .ok reply => some { s with replies := s.replies ++ [reply] }
  | .httpReqStopNode stack body =>
    if s.pool.active ≠ none then none
    else match HttpReq.httpReqStopNodeCb host parseJson realToString stack s.server body with
    | .error stop => some { s with stopped := some stop }
    | .ok (server, replies) => some { s with server, replies := s.replies ++ replies }

/-- The process from the end of `XThreadPool::Init`. -/
def system (nThreadCount : Int32) : System State Event :=
  ⟨State.init nThreadCount, step host parse parseJson realToString overflow⟩

/-- The connections that a thread has yet to connect. -/
def queued (t : Xthread.State Addr) : List Addr := t.worker.inHand ++ t.listConnect

/-- The state with other lists. -/
def withLists (l : Worker → List Addr) (s : Server.State) : Server.State :=
  { s with listConnect := l }

/-- The state that the server is in: what a worker has in hand is still on its
list there. -/
def State.abs (s : State) : Server.State :=
  withLists (fun worker => queued (s.pool.thread worker)) s.server

/-- The steps of the server that an event of the process is. -/
def Matches : Event → List Server.Event → Prop
  | .accept pNodeCon, es => ∃ worker, es = [.accept pNodeCon worker]
  | .active _, es => es = []
  | .readByte _, es => es = []
  | .popFront _, es => es = []
  | .handlerConnect worker created, es => es = [.handlerConnect worker created]
  | .callback e, es => es = [e]
  | .httpReqGetAllNodes, es => es = [.getAllNode]
  | .httpReqStopNode stack _, es => ∃ strIp, es = [.delNode strIp stack]

/-- A worker in `Notify` is in no other callback. -/
def Exclusive (s : State) : Prop :=
  ∀ worker, (s.pool.thread worker).worker ≠ .idle → s.server.pending worker = []

section Frame

variable {host parse}

theorem delete_withLists (s : Server.State) (l : Worker → List Addr) (a : Addr) :
    (withLists l s).delete a = withLists l (s.delete a) := by
  have hheap : (withLists l s).heap a = s.heap a := rfl
  rw [Server.State.delete, Server.State.delete, hheap]
  cases s.heap a <;> rfl

theorem setNodeName_withLists (s : Server.State) (l : Worker → List Addr) (a : Addr)
    (strName : Str) :
    (withLists l s).setNodeName a strName = withLists l (s.setNodeName a strName) := by
  have hheap : (withLists l s).heap a = s.heap a := rfl
  rw [Server.State.setNodeName, Server.State.setNodeName, hheap]
  cases s.heap a <;> rfl

theorem handlerConnect_withLists (s : Server.State) (l : Worker → List Addr) (a : Addr)
    (created : Bool) :
    (withLists l s).handlerConnect a created = withLists l (s.handlerConnect a created) := by
  have hheap : (withLists l s).heap a = s.heap a := rfl
  rw [Server.State.handlerConnect, Server.State.handlerConnect, hheap]
  cases s.heap a with
  | none => rfl
  | some x =>
    cases created with
    | true => rfl
    | false => exact delete_withLists s l a

theorem delNode_withLists (s : Server.State) (l : Worker → List Addr) (stack : Stack)
    (strIp : Str) :
    (withLists l s).delNode host stack strIp = withLists l (s.delNode host stack strIp) := by
  have hmap : (withLists l s).mapNode = s.mapNode := rfl
  rw [Server.State.delNode, Server.State.delNode, hmap]
  cases s.mapNode.lookup strIp with
  | none => rfl
  | some a =>
    have hheap : (withLists l s).heap a = s.heap a := rfl
    dsimp only
    rw [Server.State.sendReqCloseNode, Server.State.sendReqCloseNode, hheap]
    cases s.heap a with
    | none => rfl
    | some x =>
      dsimp only
      split
      · rfl
      · rfl
      · rfl

theorem perform_withLists (s : Server.State) (l : Worker → List Addr) (task : Server.Task) :
    (withLists l s).perform task = withLists l (s.perform task) := by
  unfold Server.State.perform
  cases task.action with
  | decode msgId body => rfl
  | setNodeName strName => exact setNodeName_withLists s l task.arg strName
  | addNode info => rfl
  | write bytes => rfl

/-- A callback of a bufferevent does not look at the lists. -/
theorem step_withLists {s t : Server.State} {e : Server.Event} (l : Worker → List Addr)
    (hcallback : (workerOf s e).isSome = true) (h : Server.step host parse s e = some t) :
    Server.step host parse (withLists l s) e = some (withLists l t) := by
  have hbefore := Server.fault_of_step h
  have hok : (withLists l s).fault = none := hbefore
  cases e with
  | read bev stack input =>
    obtain ⟨v, actions, hv, hidle, hactions, rfl⟩ := Server.step_read h
    have hopen := Server.open_of_step hv (Or.inl ⟨stack, input, rfl⟩) h
    exact Server.step_read_of (s := withLists l s) hok hv hopen hidle hactions
  | resume worker =>
    obtain ⟨task, rest, hpending, rfl⟩ := Server.step_resume h
    have hstep := Server.step_resume_of host parse (s := withLists l s) hok hpending
    rw [hstep]
    exact congrArg some (perform_withLists
      { s with pending := Function.update s.pending worker rest } l task)
  | errorCallBack bev what =>
    obtain ⟨v, hv, hidle, rfl⟩ := Server.step_errorCallBack h
    have hopen := Server.open_of_step hv (Or.inr ⟨what, rfl⟩) h
    have hbev : (withLists l s).bevs[bev]? = some v := hv
    have hready : ¬(v.freed = true ∨ (withLists l s).pending v.base ≠ []) :=
      not_or.mpr ⟨Bool.eq_false_iff.mp hopen, not_not.mpr hidle⟩
    rw [Server.step, if_neg (not_not.mpr hok), hbev]
    dsimp only
    rw [if_neg hready]
    split
    · exact congrArg some (delete_withLists s l v.arg)
    · rfl
  | _ => cases hcallback

end Frame

section Lists

variable {t t' : Xthread.State Addr}

theorem queued_addConnect {a : Addr} (h : Xthread.step t (.addConnect a) = some t') :
    queued t' = queued t ++ [a] ∧ t'.worker = t.worker := by
  rcases Xthread.step_cases h with ⟨_, he, _, rfl⟩ | ⟨_, he, _⟩ | ⟨_, he, _⟩ | ⟨he, _⟩ |
    ⟨_, _, he, _⟩ | ⟨_, he, _⟩
  · cases he
    exact ⟨(List.append_assoc ..).symm, rfl⟩
  all_goals cases he

theorem queued_active {written : Bool} (h : Xthread.step t (.active written) = some t') :
    queued t' = queued t ∧ t'.worker = t.worker := by
  rcases Xthread.step_cases h with ⟨_, he, _⟩ | ⟨_, he, _, rfl⟩ | ⟨_, he, _⟩ | ⟨he, _⟩ |
    ⟨_, _, he, _⟩ | ⟨_, he, _⟩
  · cases he
  · exact ⟨rfl, rfl⟩
  all_goals cases he

theorem queued_readByte (h : Xthread.step t .readByte = some t') :
    queued t' = queued t ∧ t.worker = .idle := by
  rcases Xthread.step_cases h with ⟨_, he, _⟩ | ⟨_, he, _⟩ | ⟨_, _, hw, _, rfl⟩ | ⟨he, _⟩ |
    ⟨_, _, he, _⟩ | ⟨_, he, _⟩
  · cases he
  · cases he
  · rw [queued, queued, hw]
    exact ⟨rfl, rfl⟩
  all_goals cases he

theorem queued_popFront (h : Xthread.step t .popFront = some t') :
    queued t' = queued t ∧ t.worker ≠ .idle := by
  rcases Xthread.step_cases h with ⟨_, he, _⟩ | ⟨_, he, _⟩ | ⟨_, he, _⟩ | ⟨_, hw, hl, rfl⟩ |
    ⟨_, _, _, hw, hl, rfl⟩ | ⟨_, he, _⟩
  · cases he
  · cases he
  · cases he
  · rw [queued, queued, hw]
    exact ⟨rfl, fun hidle => nomatch hidle⟩
  · rw [queued, queued, hw, hl]
    exact ⟨rfl, fun hidle => nomatch hidle⟩
  · cases he

theorem queued_handlerConnect {a : Addr} (hholding : t.worker = .holding a)
    (h : Xthread.step t .handlerConnect = some t') :
    queued t = a :: queued t' ∧ t'.worker = .idle := by
  rcases Xthread.step_cases h with ⟨_, he, _⟩ | ⟨_, he, _⟩ | ⟨_, he, _⟩ | ⟨he, _⟩ |
    ⟨_, _, he, _⟩ | ⟨_, _, _, rfl⟩
  · cases he
  · cases he
  · cases he
  · cases he
  · cases he
  · rw [queued, queued, hholding]
    exact ⟨rfl, rfl⟩

/-- One thread goes on. -/
theorem lists_update (thread : Worker → Xthread.State Addr) (index : Worker)
    (t : Xthread.State Addr) :
    (fun worker => queued (Function.update thread index t worker)) =
      Function.update (fun worker => queued (thread worker)) index (queued t) :=
  funext fun worker => Function.apply_update (fun _ => queued) thread index t worker

/-- One thread goes on with what it has to connect. -/
theorem lists_kept {thread : Worker → Xthread.State Addr} {index : Worker}
    (hsame : queued t = queued (thread index)) :
    (fun worker => queued (Function.update thread index t worker)) =
      fun worker => queued (thread worker) := by
  rw [lists_update, hsame, Function.update_eq_self]

end Lists

section Inversion

variable {host parse parseJson realToString overflow} {s s' : State}

theorem running_of_step {e : Event}
    (h : step host parse parseJson realToString overflow s e = some s') : Running s := by
  by_contra hstopped
  unfold step at h
  rw [if_pos hstopped] at h
  cases h

theorem step_accept {pNodeCon : Addr}
    (h : step host parse parseJson realToString overflow s (.accept pNodeCon) = some s') :
    s.server.heap pNodeCon = none ∧ ∃ pool,
      WorkerPool.step overflow s.pool (.dispatch pNodeCon) = some pool ∧
      s' = match pool.active with
        | none => { s with pool }
        | some worker => { s with
            pool
            server := { s.server with
              heap := Function.update s.server.heap pNodeCon
                (some { sock := s.server.accepted, base := worker })
              accepted := s.server.accepted + 1 } } := by
  have hok := running_of_step h
  unfold step at h
  rw [if_neg (not_not.mpr hok)] at h
  dsimp only at h
  split at h
  · cases h
  · next hfree =>
    obtain ⟨pool, hpool, rfl⟩ := Option.map_eq_some_iff.mp h
    exact ⟨not_not.mp hfree, pool, hpool, rfl⟩

theorem step_active {written : Bool}
    (h : step host parse parseJson realToString overflow s (.active written) = some s') :
    ∃ pool, WorkerPool.step overflow s.pool (.active written) = some pool ∧
      s' = { s with pool } := by
  have hok := running_of_step h
  unfold step at h
  rw [if_neg (not_not.mpr hok)] at h
  obtain ⟨pool, hpool, rfl⟩ := Option.map_eq_some_iff.mp h
  exact ⟨pool, hpool, rfl⟩

theorem step_readByte {worker : Worker}
    (h : step host parse parseJson realToString overflow s (.readByte worker) = some s') :
    s.server.pending worker = [] ∧ ∃ pool,
      WorkerPool.step overflow s.pool (.notify worker .readByte) = some pool ∧
      s' = { s with pool } := by
  have hok := running_of_step h
  unfold step at h
  rw [if_neg (not_not.mpr hok)] at h
  dsimp only at h
  split at h
  · cases h
  · next hidle =>
    obtain ⟨pool, hpool, rfl⟩ := Option.map_eq_some_iff.mp h
    exact ⟨not_not.mp hidle, pool, hpool, rfl⟩

theorem step_popFront {worker : Worker}
    (h : step host parse parseJson realToString overflow s (.popFront worker) = some s') :
    ∃ pool, WorkerPool.step overflow s.pool (.notify worker .popFront) = some pool ∧
      s' = { s with pool } := by
  have hok := running_of_step h
  unfold step at h
  rw [if_neg (not_not.mpr hok)] at h
  obtain ⟨pool, hpool, rfl⟩ := Option.map_eq_some_iff.mp h
  exact ⟨pool, hpool, rfl⟩

theorem step_handlerConnect {worker : Worker} {created : Bool}
    (h : step host parse parseJson realToString overflow s (.handlerConnect worker created) =
      some s') :
    ∃ pConnect pool, (s.pool.thread worker).worker = .holding pConnect ∧
      WorkerPool.step overflow s.pool (.notify worker .handlerConnect) = some pool ∧
      s' = { s with pool, server := s.server.handlerConnect pConnect created } := by
  have hok := running_of_step h
  unfold step at h
  rw [if_neg (not_not.mpr hok)] at h
  dsimp only at h
  split at h
  · next pConnect hholding =>
    obtain ⟨pool, hpool, rfl⟩ := Option.map_eq_some_iff.mp h
    exact ⟨pConnect, pool, hholding, hpool, rfl⟩
  · cases h

theorem step_callback {e : Server.Event}
    (h : step host parse parseJson realToString overflow s (.callback e) = some s') :
    ∃ worker server, workerOf s.server e = some worker ∧ (s.pool.thread worker).worker = .idle ∧
      Server.step host parse s.server e = some server ∧ s' = { s with server } := by
  have hok := running_of_step h
  unfold step at h
  rw [if_neg (not_not.mpr hok)] at h
  dsimp only at h
  split at h
  · cases h
  · next worker hworker =>
    split at h
    · cases h
    · next hidle =>
      obtain ⟨server, hserver, rfl⟩ := Option.map_eq_some_iff.mp h
      exact ⟨worker, server, hworker, not_not.mp hidle, hserver, rfl⟩

theorem step_httpReqGetAllNodes
    (h : step host parse parseJson realToString overflow s .httpReqGetAllNodes = some s') :
    s.pool.active = none ∧ s' = match HttpReq.httpReqGetAllNodesCb realToString s.server with
      | .error stop => { s with stopped := some stop }
      | .ok reply => { s with replies := s.replies ++ [reply] } := by
  have hok := running_of_step h
  unfold step at h
  rw [if_neg (not_not.mpr hok)] at h
  dsimp only at h
  split at h
  · cases h
  · next hidle =>
    refine ⟨not_not.mp hidle, ?_⟩
    split at h
    · exact (Option.some.inj h).symm
    · exact (Option.some.inj h).symm

theorem step_httpReqStopNode {stack : Stack} {body : Str}
    (h : step host parse parseJson realToString overflow s (.httpReqStopNode stack body) =
      some s') :
    s.pool.active = none ∧
      s' = match HttpReq.httpReqStopNodeCb host parseJson realToString stack s.server body with
        | .error stop => { s with stopped := some stop }
        | .ok (server, replies) => { s with server, replies := s.replies ++ replies } := by
  have hok := running_of_step h
  unfold step at h
  rw [if_neg (not_not.mpr hok)] at h
  dsimp only at h
  split at h
  · cases h
  · next hidle =>
    refine ⟨not_not.mp hidle, ?_⟩
    split at h
    · exact (Option.some.inj h).symm
    · exact (Option.some.inj h).symm

end Inversion

section Steps

variable {host parse parseJson realToString overflow} {s s' : State}

/-- One thread goes on, and is still in no other callback if it is in `Notify`. -/
theorem Exclusive.update (h : Exclusive s) {server : Server.State}
    {pool : WorkerPool.State Addr} {index : Worker} {t : Xthread.State Addr}
    {replies : List HttpReq.Reply} {stopped : Option HttpReq.Stop}
    (hpending : server.pending = s.server.pending)
    (hthread : pool.thread = Function.update s.pool.thread index t)
    (hbusy : t.worker ≠ .idle → s.server.pending index = []) :
    Exclusive ⟨server, pool, replies, stopped⟩ := by
  intro worker hworker
  dsimp only at hworker ⊢
  rw [hthread] at hworker
  rw [hpending]
  by_cases hsame : worker = index
  · rw [hsame, Function.update_self] at hworker
    rw [hsame]
    exact hbusy hworker
  · rw [Function.update_of_ne hsame] at hworker
    exact h worker hworker

theorem matched_accept (hexclusive : Exclusive s) (hpool : s'.pool.fault = none) {pNodeCon : Addr}
    (h : step host parse parseJson realToString overflow s (.accept pNodeCon) = some s') :
    Exclusive s' ∧ ∃ worker, s'.pool.active = some worker ∧
      Server.step host parse s.abs (.accept pNodeCon worker) = some s'.abs := by
  have hok := running_of_step h
  obtain ⟨hfree, pool, hdispatch, rfl⟩ := step_accept h
  obtain ⟨hidle, ⟨fault, rfl⟩ | ⟨pool', index, t, ht, rfl⟩⟩ :=
    WorkerPool.step_dispatch_cases hdispatch
  · rw [hidle] at hpool
    cases hpool
  · obtain ⟨hqueued, hworker⟩ := queued_addConnect ht
    refine ⟨hexclusive.update rfl rfl fun hbusy => hexclusive index (hworker ▸ hbusy), index, rfl,
      ?_⟩
    have hfault : s.abs.fault = none := hok.1
    have hheap : s.abs.heap pNodeCon = none := hfree
    rw [Server.step, if_neg (not_not.mpr hfault)]
    dsimp only
    rw [if_neg (not_not.mpr hheap), State.abs, State.abs]
    dsimp only
    rw [lists_update, hqueued]
    rfl

/-- A step of the dispatcher or of `Notify` that leaves the lists as they are. -/
theorem abs_thread {index : Worker} {t : Xthread.State Addr} {pool : WorkerPool.State Addr}
    (hthread : pool.thread = Function.update s.pool.thread index t)
    (hsame : queued t = queued (s.pool.thread index)) :
    ({ s with pool } : State).abs = s.abs := by
  rw [State.abs, State.abs]
  dsimp only
  rw [hthread, lists_kept hsame]

theorem matched_active (hexclusive : Exclusive s) {written : Bool}
    (h : step host parse parseJson realToString overflow s (.active written) = some s') :
    Exclusive s' ∧ s'.abs = s.abs := by
  obtain ⟨pool, hpool, rfl⟩ := step_active h
  obtain ⟨index, t, _, ht, rfl⟩ := WorkerPool.step_active hpool
  obtain ⟨hqueued, hworker⟩ := queued_active ht
  exact ⟨hexclusive.update rfl rfl fun hbusy => hexclusive index (hworker ▸ hbusy),
    abs_thread rfl hqueued⟩

theorem matched_readByte (hexclusive : Exclusive s) {worker : Worker}
    (h : step host parse parseJson realToString overflow s (.readByte worker) = some s') :
    Exclusive s' ∧ s'.abs = s.abs := by
  obtain ⟨hidle, pool, hpool, rfl⟩ := step_readByte h
  obtain ⟨_, t, ht, rfl⟩ := WorkerPool.step_notify hpool
  exact ⟨hexclusive.update rfl rfl fun _ => hidle, abs_thread rfl (queued_readByte ht).1⟩

theorem matched_popFront (hexclusive : Exclusive s) {worker : Worker}
    (h : step host parse parseJson realToString overflow s (.popFront worker) = some s') :
    Exclusive s' ∧ s'.abs = s.abs := by
  obtain ⟨pool, hpool, rfl⟩ := step_popFront h
  obtain ⟨_, t, ht, rfl⟩ := WorkerPool.step_notify hpool
  obtain ⟨hqueued, hbusy⟩ := queued_popFront ht
  exact ⟨hexclusive.update rfl rfl fun _ => hexclusive worker hbusy, abs_thread rfl hqueued⟩

theorem matched_handlerConnect (hexclusive : Exclusive s) {worker : Worker} {created : Bool}
    (h : step host parse parseJson realToString overflow s (.handlerConnect worker created) =
      some s') :
    Exclusive s' ∧
      Server.step host parse s.abs (.handlerConnect worker created) = some s'.abs := by
  have hok := running_of_step h
  obtain ⟨pConnect, pool, hholding, hpool, rfl⟩ := step_handlerConnect h
  obtain ⟨_, t, ht, rfl⟩ := WorkerPool.step_notify hpool
  obtain ⟨hqueued, hidle⟩ := queued_handlerConnect hholding ht
  have hbusy : (s.pool.thread worker).worker ≠ .idle := by
    rw [hholding]
    exact fun h => nomatch h
  have hpending := (s.server.handlerConnect_frame pConnect created).2
  refine ⟨hexclusive.update hpending rfl fun hne => absurd hidle hne, ?_⟩
  have hfault : s.abs.fault = none := hok.1
  have hlist : s.abs.listConnect worker = pConnect :: queued t := hqueued
  have hnone : s.abs.pending worker = [] := hexclusive worker hbusy
  rw [Server.step, if_neg (not_not.mpr hfault), hlist]
  dsimp only
  rw [if_neg (not_not.mpr hnone)]
  refine congrArg some ?_
  have hlists : ({ s.abs with
      listConnect := Function.update s.abs.listConnect worker (queued t) } : Server.State) =
        withLists (fun w => queued (Function.update s.pool.thread worker t w)) s.server := by
    rw [lists_update]
    rfl
  rw [hlists, handlerConnect_withLists]
  rfl

/-- A callback of one worker leaves those of the others alone. -/
theorem pending_callback {server t : Server.State} {e : Server.Event} {worker other : Worker}
    (hworker : workerOf server e = some worker) (hother : other ≠ worker)
    (h : Server.step host parse server e = some t) : t.pending other = server.pending other := by
  cases e with
  | read bev stack input =>
    obtain ⟨v, actions, hv, _, _, rfl⟩ := Server.step_read h
    rw [workerOf, hv, Option.map_some] at hworker
    cases hworker
    exact Function.update_of_ne hother ..
  | resume worker' =>
    obtain ⟨task, rest, _, rfl⟩ := Server.step_resume h
    cases hworker
    rw [(Server.perform_frames _ task).2.1]
    exact Function.update_of_ne hother ..
  | errorCallBack bev what =>
    obtain ⟨v, _, _, rfl⟩ := Server.step_errorCallBack h
    split
    · rw [(server.delete_frame v.arg).2.1]
    · rfl
  | _ => cases hworker

theorem matched_callback (hexclusive : Exclusive s) {e : Server.Event}
    (h : step host parse parseJson realToString overflow s (.callback e) = some s') :
    Exclusive s' ∧ Server.step host parse s.abs e = some s'.abs := by
  obtain ⟨worker, t, hworker, hidle, ht, rfl⟩ := step_callback h
  refine ⟨fun other hbusy => ?_, step_withLists _ (by rw [hworker]; rfl) ht⟩
  have hother : other ≠ worker := by
    rintro rfl
    exact hbusy hidle
  exact (pending_callback hworker hother ht).trans (hexclusive other hbusy)

theorem matched_httpReqGetAllNodes (hexclusive : Exclusive s) (hstopped : s'.stopped = none)
    (h : step host parse parseJson realToString overflow s .httpReqGetAllNodes = some s') :
    Exclusive s' ∧ Server.step host parse s.abs .getAllNode = some s'.abs := by
  have hok := running_of_step h
  obtain ⟨_, rfl⟩ := step_httpReqGetAllNodes h
  cases hreply : HttpReq.httpReqGetAllNodesCb realToString s.server with
  | error stop =>
    rw [hreply] at hstopped
    cases hstopped
  | ok reply =>
    refine ⟨hexclusive, ?_⟩
    have hlisted : s.abs.getAllNode ≠ none := by
      intro hnone
      have hsame : s.server.getAllNode = none := hnone
      rw [HttpReq.httpReqGetAllNodesCb, HttpReq.successJson_eq, hsame] at hreply
      cases hreply
    have hfault : s.abs.fault = none := hok.1
    obtain ⟨listing, hlisting⟩ := Option.ne_none_iff_exists'.mp hlisted
    rw [Server.step, if_neg (not_not.mpr hfault), hlisting]
    rfl

theorem matched_httpReqStopNode (hexclusive : Exclusive s) (hstopped : s'.stopped = none)
    {stack : Stack} {body : Str}
    (h : step host parse parseJson realToString overflow s (.httpReqStopNode stack body) =
      some s') :
    Exclusive s' ∧ ∃ strIp, Server.step host parse s.abs (.delNode strIp stack) = some s'.abs := by
  have hok := running_of_step h
  obtain ⟨_, rfl⟩ := step_httpReqStopNode h
  cases hreply : HttpReq.httpReqStopNodeCb host parseJson realToString stack s.server body with
  | error stop =>
    rw [hreply] at hstopped
    cases hstopped
  | ok result =>
    obtain ⟨server, replies⟩ := result
    obtain ⟨strIp, hstep⟩ := HttpReq.httpReqStopNodeCb_step host parseJson realToString parse hreply
    obtain rfl := Server.step_delNode hstep
    refine ⟨fun worker hbusy => ?_, strIp, ?_⟩
    · exact (congrFun (Server.delNode_frames host s.server stack strIp).2.1 worker).trans
        (hexclusive worker hbusy)
    · have hfault : s.abs.fault = none := hok.1
      rw [Server.step, if_neg (not_not.mpr hfault)]
      exact congrArg some (delNode_withLists s.server _ stack strIp)

end Steps

/-- While the process runs, each of its steps is the step of the server that it
stands for. -/
theorem matched_step {s s' : State} {e : Event} (hexclusive : Exclusive s)
    (hpool : s'.pool.fault = none) (hstopped : s'.stopped = none)
    (h : step host parse parseJson realToString overflow s e = some s') :
    Exclusive s' ∧ ∃ es, Matches e es ∧
      (Server.system host parse).runFrom s.abs es = some s'.abs := by
  have hone : ∀ {f : Server.Event}, Server.step host parse s.abs f = some s'.abs →
      (Server.system host parse).runFrom s.abs [f] = some s'.abs :=
    fun hf => System.runFrom_singleton hf
  have hnone : s'.abs = s.abs →
      (Server.system host parse).runFrom s.abs [] = some s'.abs := by
    intro hsame
    rw [System.runFrom_nil, hsame]
  cases e with
  | accept pNodeCon =>
    obtain ⟨hnext, worker, _, hstep⟩ := matched_accept hexclusive hpool h
    exact ⟨hnext, _, ⟨worker, rfl⟩, hone hstep⟩
  | active written =>
    obtain ⟨hnext, hsame⟩ := matched_active hexclusive h
    exact ⟨hnext, [], rfl, hnone hsame⟩
  | readByte worker =>
    obtain ⟨hnext, hsame⟩ := matched_readByte hexclusive h
    exact ⟨hnext, [], rfl, hnone hsame⟩
  | popFront worker =>
    obtain ⟨hnext, hsame⟩ := matched_popFront hexclusive h
    exact ⟨hnext, [], rfl, hnone hsame⟩
  | handlerConnect worker created =>
    obtain ⟨hnext, hstep⟩ := matched_handlerConnect hexclusive h
    exact ⟨hnext, _, rfl, hone hstep⟩
  | callback e =>
    obtain ⟨hnext, hstep⟩ := matched_callback hexclusive h
    exact ⟨hnext, _, rfl, hone hstep⟩
  | httpReqGetAllNodes =>
    obtain ⟨hnext, hstep⟩ := matched_httpReqGetAllNodes hexclusive hstopped h
    exact ⟨hnext, _, rfl, hone hstep⟩
  | httpReqStopNode stack body =>
    obtain ⟨hnext, strIp, hstep⟩ := matched_httpReqStopNode hexclusive hstopped h
    exact ⟨hnext, _, ⟨strIp, rfl⟩, hone hstep⟩

/-- An event that ends the process in the dispatcher or in the HTTP server is no
step of the server. -/
theorem ended_step {s s' : State} {e : Event} (hexclusive : Exclusive s)
    (hended : ¬(s'.pool.fault = none ∧ s'.stopped = none))
    (h : step host parse parseJson realToString overflow s e = some s') :
    Exclusive s' ∧ s'.abs = s.abs := by
  obtain ⟨_, hpool, hstopped⟩ := running_of_step h
  cases e with
  | accept pNodeCon =>
    obtain ⟨_, pool, hdispatch, rfl⟩ := step_accept h
    obtain ⟨hidle, ⟨fault, rfl⟩ | ⟨pool', index, t, _, rfl⟩⟩ :=
      WorkerPool.step_dispatch_cases hdispatch
    · dsimp only
      rw [hidle]
      exact ⟨hexclusive, rfl⟩
    · exact absurd ⟨hpool, hstopped⟩ hended
  | active written => exact matched_active hexclusive h
  | readByte worker => exact matched_readByte hexclusive h
  | popFront worker => exact matched_popFront hexclusive h
  | handlerConnect worker created =>
    obtain ⟨_, pool, _, hnotify, rfl⟩ := step_handlerConnect h
    obtain ⟨_, t, _, rfl⟩ := WorkerPool.step_notify hnotify
    exact absurd ⟨hpool, hstopped⟩ hended
  | callback e =>
    obtain ⟨_, t, _, _, _, rfl⟩ := step_callback h
    exact absurd ⟨hpool, hstopped⟩ hended
  | httpReqGetAllNodes =>
    obtain ⟨_, rfl⟩ := step_httpReqGetAllNodes h
    split
    · exact ⟨hexclusive, rfl⟩
    · next reply hreply =>
      rw [hreply] at hended
      exact absurd ⟨hpool, hstopped⟩ hended
  | httpReqStopNode stack body =>
    obtain ⟨_, rfl⟩ := step_httpReqStopNode h
    split
    · exact ⟨hexclusive, rfl⟩
    · next server replies hreply =>
      rw [hreply] at hended
      exact absurd ⟨hpool, hstopped⟩ hended

/-- Each step of the process is the step of the server that it stands for, but
for one that ends the process. -/
theorem matched_or_ended {s s' : State} {e : Event} (hexclusive : Exclusive s)
    (h : step host parse parseJson realToString overflow s e = some s') :
    Exclusive s' ∧ ∃ es, (Matches e es ∨ ¬Running s' ∧ es = []) ∧
      (Server.system host parse).runFrom s.abs es = some s'.abs := by
  by_cases hfine : s'.pool.fault = none ∧ s'.stopped = none
  · obtain ⟨hnext, es, hmatched, hruns⟩ :=
      matched_step host parse parseJson realToString overflow hexclusive hfine.1 hfine.2 h
    exact ⟨hnext, es, Or.inl hmatched, hruns⟩
  · obtain ⟨hnext, hsame⟩ :=
      ended_step host parse parseJson realToString overflow hexclusive hfine h
    refine ⟨hnext, [], Or.inr ⟨fun hrunning => hfine hrunning.2, rfl⟩, ?_⟩
    rw [System.runFrom_nil, hsame]

/-- In every interleaving of the main thread and the workers, whatever writes to
the pipes fail, the process does what the server does: step by step and in the
same order, with a dispatch for each accepted connection, one `HandlerConnect` for
each that a worker takes, the same callbacks, and the requests of the HTTP server
as calls of `GetAllNode` and `DelNode`. -/
theorem process_refines {nThreadCount : Int32} {events : List Event} {s : State}
    (hrun : (system host parse parseJson realToString overflow nThreadCount).run events = some s)
    (hrunning : Running s) :
    ∃ fss, List.Forall₂ Matches events fss ∧
      (Server.system host parse).run fss.flatten = some s.abs := by
  have hinit : Exclusive (State.init nThreadCount) := fun _ hbusy => absurd rfl hbusy
  exact (System.run_of_simulation State.abs rfl hinit (fun _ _ _ h => running_of_step h)
    (fun _ _ _ hexclusive hs' h => matched_step host parse parseJson realToString overflow
      hexclusive hs'.2.1 hs'.2.2 h) hrun hrunning).2

/-- A node logs in, is listed and is asked to stop. -/
def oneNode : List Event :=
  let login : List UInt8 := [0, 100, 2, 1, 0, 3, 0, 101] ++ List.replicate 16 0 ++ [10, 1, 49]
  [.accept 7, .active true, .readByte 0, .popFront 0, .handlerConnect 0 true,
    .callback (.read 0 .zeros login), .callback (.resume 0), .callback (.resume 0),
    .callback (.resume 0), .callback (.resume 0), .httpReqGetAllNodes,
    .httpReqStopNode .zeros (Json.chars "\x7b\"ip\":\"1\"\x7d")]

theorem process_refines_oneNode : ∃ s,
    (system .little ReqNodeLogin.parseFromIstream (Json.strictParse (fun _ => none) .null)
      (fun _ => []) .undefined 5).run oneNode = some s ∧ s.replies.length = 2 ∧
      ∃ fss, List.Forall₂ Matches oneNode fss ∧
        (Server.system .little ReqNodeLogin.parseFromIstream).run fss.flatten = some s.abs := by
  have hruns : ((system .little ReqNodeLogin.parseFromIstream
      (Json.strictParse (fun _ => none) .null) (fun _ => []) .undefined 5).run oneNode).any
        (fun s => s.replies.length = 2 ∧ Running s) = true := by decide +kernel
  obtain ⟨s, hrun, hall⟩ := (Option.any_eq_true _ _).mp hruns
  obtain ⟨hreplies, hrunning⟩ := of_decide_eq_true hall
  exact ⟨s, hrun, hreplies, process_refines _ _ _ _ _ hrun hrunning⟩

end NodeManager.Process
