import Mathlib.Data.List.AList
import NodeManager.Library.TransitionSystem
import NodeManager.NodeConnect

/-!
# The server as a transition system

The connection objects on the heap, the bufferevents whose callbacks point at
them, the worker threads with the callback each of them is in, and the map
`Global::m_mapNode`. Objects are created and deleted at addresses, so a
pointer can outlive its object and can come to point at another one. An
access to a deleted object is a fault that ends the run.
-/

namespace NodeManager

open ByteMemory TransitionSystem

/-- Address of a `NodeConnect` object. -/
abbrev Addr := ℕ

/-- An accepted socket; no socket is closed, so their numbers never repeat. -/
abbrev Sock := ℕ

/-- A bufferevent, numbered in the order of creation. -/
abbrev Bev := ℕ

/-- A worker thread of the pool together with its event base. -/
abbrev Worker := ℕ

/-- A `NodeConnect` object. -/
structure NodeConnect where
  /-- `m_sock`. -/
  sock : Sock
  /-- The worker whose base is `m_pBase`. -/
  base : Worker
  /-- `m_pBev`. -/
  bev : Option Bev := none
  /-- `m_strNodeName`. -/
  strNodeName : Str := []
  deriving DecidableEq

/-- A bufferevent with `BEV_OPT_CLOSE_ON_FREE`. -/
structure BufferEvent where
  /-- The socket it owns. -/
  fd : Sock
  /-- The worker whose base runs its callbacks. -/
  base : Worker
  /-- The last argument of its callbacks. -/
  arg : Addr
  /-- Whether `bufferevent_free` was called, which no server function does. -/
  freed : Bool := false
  deriving DecidableEq

namespace Server

/-- What a worker still has to do of a callback. -/
structure Task where
  bev : Bev
  /-- `pThis`. -/
  arg : Addr
  action : NodeConnect.Action
  deriving DecidableEq

/-- The undefined behaviour that ends a run. A run goes on after a data race and
after a read behind `databuff`, whose bytes are those of the stack. -/
inductive Fault
  /-- A member of a deleted object is accessed. -/
  | useAfterFree
  /-- A deleted object is deleted. -/
  | doubleFree
  /-- A null bufferevent is written to. -/
  | nullBev
  /-- A byte buffer operation goes wrong. -/
  | buffer (fault : ByteMemory.Fault)
  deriving DecidableEq

/-- What one call of `ReadCallBack` received. -/
structure Received where
  bev : Bev
  /-- The socket of the bufferevent. -/
  fd : Sock
  /-- The head that the callback decodes. -/
  head : StructProtocolHead
  /-- What the message tells of its node, if it is a login. -/
  login : Option NodeInfo

/-- The last of the reads from a bufferevent. -/
def lastRead (reads : List Received) (bev : Bev) : Option Received :=
  (reads.filter fun r => r.bev = bev).getLast?

/-- The logins among the reads, with their bufferevents. -/
def readLogins (reads : List Received) : List (Bev × NodeInfo) :=
  reads.filterMap fun r => r.login.map fun info => (r.bev, info)

/-- The sockets on which logins that name an ip were read. -/
def loginSocks (reads : List Received) (ip : Str) : List Sock :=
  (reads.filter fun r => r.login.map NodeInfo.strIp = some ip).map Received.fd

section Reads

variable {reads : List Received} {r : Received} {bev : Bev}

theorem lastRead_append_self (hbev : r.bev = bev) : lastRead (reads ++ [r]) bev = some r := by
  have hkept : [r].filter (fun r => r.bev = bev) = [r] := by
    simp only [List.filter_cons, hbev, decide_true, if_true, List.filter_nil]
  rw [lastRead, List.filter_append, hkept, List.getLast?_concat]

theorem lastRead_append_of_ne (hbev : r.bev ≠ bev) :
    lastRead (reads ++ [r]) bev = lastRead reads bev := by
  have hgone : [r].filter (fun r => r.bev = bev) = [] := by
    simp only [List.filter_cons, hbev, decide_false, Bool.false_eq_true, if_false, List.filter_nil]
  rw [lastRead, List.filter_append, hgone, List.append_nil, lastRead]

theorem mem_of_lastRead (h : lastRead reads bev = some r) : r ∈ reads ∧ r.bev = bev := by
  obtain ⟨hmem, hbev⟩ := List.mem_filter.mp (List.mem_of_getLast? h)
  exact ⟨hmem, of_decide_eq_true hbev⟩

end Reads

/-- The state of the server, with the history that its specifications need. -/
structure State where
  /-- The objects that are live. -/
  heap : Addr → Option NodeConnect
  /-- The bufferevents created so far. -/
  bevs : List BufferEvent
  /-- The frames written to each bufferevent. -/
  written : Bev → List (List UInt8)
  /-- `m_listconnect` of each worker. -/
  listConnect : Worker → List Addr
  /-- The rest of the callback that each worker is in. -/
  pending : Worker → List Task
  /-- `Global::m_mapNode`. -/
  mapNode : AList fun _ : Str => Addr
  /-- History: the number of accepted sockets. -/
  accepted : ℕ
  /-- History: the sockets whose object was deleted. -/
  deleted : List Sock
  /-- History: the sockets closed other than by `bufferevent_free`, which no
  server function does. -/
  closed : List Sock
  /-- History: what the callbacks received, in the order of arrival. -/
  reads : List Received
  /-- History: the socket and the name of the last login registered for an ip. -/
  lastLogin : Str → Option (Sock × Str)
  /-- The undefined behaviour that has ended the run. -/
  fault : Option Fault

/-- The server before the first connection. -/
def State.init : State where
  heap := fun _ => none
  bevs := []
  written := fun _ => []
  listConnect := fun _ => []
  pending := fun _ => []
  mapNode := ∅
  accepted := 0
  deleted := []
  closed := []
  reads := []
  lastLogin := fun _ => none
  fault := none

namespace State

variable (s : State)

/-- The run ends in undefined behaviour. -/
def fail (f : Fault) : State := { s with fault := some f }

/-- `delete pThis`. -/
def delete (pThis : Addr) : State :=
  match s.heap pThis with
  | none => s.fail .doubleFree
  | some x =>
    { s with heap := Function.update s.heap pThis none, deleted := s.deleted ++ [x.sock] }

/-- `NodeConnect::SetNodeName`. -/
def setNodeName (pThis : Addr) (strName : Str) : State :=
  match s.heap pThis with
  | none => s.fail .useAfterFree
  | some x =>
    { s with heap := Function.update s.heap pThis (some { x with strNodeName := strName }) }

/-- The login that was read last from a bufferevent has been registered. -/
def registered (bev : Bev) : Str → Option (Sock × Str) :=
  match (lastRead s.reads bev).bind fun r => r.login.map fun login => (r.fd, login) with
  | none => s.lastLogin
  | some (fd, login) => Function.update s.lastLogin login.strIp (some (fd, login.strName))

/-- `Global::AddNode(info.strIp, pThis)` in the callback of a bufferevent, whose
argument is never null. -/
def addNode (bev : Bev) (pNodeConn : Addr) (info : NodeInfo) : State :=
  { s with
    mapNode := s.mapNode.insert info.strIp pNodeConn
    lastLogin := s.registered bev }

/-- `bufferevent_write`. -/
def buffereventWrite (bev : Bev) (bytes : List UInt8) : State :=
  { s with written := Function.update s.written bev (s.written bev ++ [bytes]) }

/-- `NodeConnect::HandlerConnect`, where `bufferevent_socket_new` succeeds or
fails. -/
def handlerConnect (pThis : Addr) (created : Bool) : State :=
  match s.heap pThis with
  | none => s.fail .useAfterFree
  | some x =>
    if created then
      { s with
        heap := Function.update s.heap pThis (some { x with bev := some s.bevs.length })
        bevs := s.bevs ++ [{ fd := x.sock, base := x.base, arg := pThis }] }
    else s.delete pThis

/-- `NodeConnect::SendReqCloseNode`. -/
def sendReqCloseNode (host : ByteOrder) (stack : Stack) (pThis : Addr) : State :=
  match s.heap pThis with
  | none => s.fail .useAfterFree
  | some x =>
    match NodeConnect.closeFrame host stack, x.bev with
    | .error f, _ => s.fail (.buffer f)
    | .ok _, none => s.fail .nullBev
    | .ok bufferSend, some bev => s.buffereventWrite bev bufferSend

/-- `Global::DelNode`; the entry stays in the map. -/
def delNode (host : ByteOrder) (stack : Stack) (strIp : Str) : State :=
  match s.mapNode.lookup strIp with
  | none => s
  | some pNodeConn => s.sendReqCloseNode host stack pNodeConn

/-- `Global::GetAllNode`, unless it reads a name out of a deleted object. The
entries go to a JSON object, so their order does not matter. -/
def getAllNode : Option (List (Str × Str)) :=
  s.mapNode.entries.mapM fun kv => (s.heap kv.2).map fun x => (kv.1, x.strNodeName)

/-- One effect of `NodeConnect::ReadCallBack`. -/
def perform (task : Task) : State :=
  match task.action with
  | .decode _ _ => s
  | .setNodeName strName => s.setNodeName task.arg strName
  | .addNode info => s.addNode task.bev task.arg info
  | .write bytes => s.buffereventWrite task.bev bytes

end State

/-- What can happen to the server. -/
inductive Event
  /-- `ListenCallBack` creates an object and dispatches it to a worker. -/
  | accept (pNodeCon : Addr) (worker : Worker)
  /-- The worker takes a connection off its list and calls `HandlerConnect`. -/
  | handlerConnect (worker : Worker) (created : Bool)
  /-- `ReadCallBack` starts on the contents of the input buffer. -/
  | read (bev : Bev) (stack : Stack) (input : List UInt8)
  /-- The worker goes on with its callback by one effect. -/
  | resume (worker : Worker)
  /-- `ErrorCallBack`. -/
  | errorCallBack (bev : Bev) (what : UInt16)
  /-- `Global::GetAllNode`, called by the HTTP server. -/
  | getAllNode
  /-- `Global::DelNode`, called by the HTTP server. -/
  | delNode (strIp : Str) (stack : Stack)

variable (host : ByteOrder) (parse : Parser)

/-- The body that `HandleNodeOnlineReq` gets of a read. -/
def loginBody (stack : Stack) (input : List UInt8) : Option (List UInt8) :=
  let head := DataHeadCodec.headAt host (databuff input)
  if input = [] ∨ head.ucType ≠ ProtocolType.pb.code then none
  else if head.usMsgId = MsgID.reqNodeLogin.code then
    some (bytesFrom stack (databuff input) bodyMsgPos head.usLen.toNat)
  else none

/-- The logins that an event reads, with their bufferevents. -/
def Event.logins : Event → List (Bev × NodeInfo)
  | .read bev stack input =>
    ((loginBody host stack input).map fun body =>
      (bev, PbCodec.handleNodeOnlineReq parse body)).toList
  | _ => []

/-- What a read receives on a socket. -/
def received (bev : Bev) (fd : Sock) (stack : Stack) (input : List UInt8) : Received where
  bev := bev
  fd := fd
  head := DataHeadCodec.headAt host (databuff input)
  login := (loginBody host stack input).map (PbCodec.handleNodeOnlineReq parse)

/-- The effect of an event that can happen. A worker takes up a new callback
only when it is done with the last one. -/
def step (s : State) (e : Event) : Option State :=
  if s.fault ≠ none then none
  else match e with
  | .accept pNodeCon worker =>
    if s.heap pNodeCon ≠ none then none
    else some { s with
      heap := Function.update s.heap pNodeCon (some { sock := s.accepted, base := worker })
      listConnect := Function.update s.listConnect worker (s.listConnect worker ++ [pNodeCon])
      accepted := s.accepted + 1 }
  | .handlerConnect worker created =>
    match s.listConnect worker with
    | [] => none
    | pConnect :: rest =>
      if s.pending worker ≠ [] then none
      else some ({ s with listConnect := Function.update s.listConnect worker rest }.handlerConnect
        pConnect created)
  | .read bev stack input =>
    match s.bevs[bev]? with
    | none => none
    | some v =>
      if v.freed ∨ s.pending v.base ≠ [] then none
      else match NodeConnect.readCallBack host parse stack input with
      | .error f => some (s.fail (.buffer f))
      | .ok actions => some { s with
          pending := Function.update s.pending v.base (actions.map (Task.mk bev v.arg))
          reads := s.reads ++ [received host parse bev v.fd stack input] }
  | .resume worker =>
    match s.pending worker with
    | [] => none
    | task :: rest =>
      some ({ s with pending := Function.update s.pending worker rest }.perform task)
  | .errorCallBack bev what =>
    match s.bevs[bev]? with
    | none => none
    | some v =>
      if v.freed ∨ s.pending v.base ≠ [] then none
      else if NodeConnect.errorCallBackDeletes what then some (s.delete v.arg)
      else some s
  | .getAllNode =>
    match s.getAllNode with
    | none => some (s.fail .useAfterFree)
    | some _ => some s
  | .delNode strIp stack => some (s.delNode host stack strIp)

/-- The server from its start. -/
def system : System State Event := ⟨State.init, step host parse⟩

section Steps

variable {host parse} {s s' : State}

theorem fault_of_step {e : Event} (h : step host parse s e = some s') : s.fault = none := by
  by_contra hfault
  unfold step at h
  rw [if_pos hfault] at h
  cases h

theorem step_accept {pNodeCon : Addr} {worker : Worker}
    (h : step host parse s (.accept pNodeCon worker) = some s') :
    s.heap pNodeCon = none ∧ s' = { s with
      heap := Function.update s.heap pNodeCon (some { sock := s.accepted, base := worker })
      listConnect := Function.update s.listConnect worker (s.listConnect worker ++ [pNodeCon])
      accepted := s.accepted + 1 } := by
  have hok := fault_of_step h
  rw [step, if_neg (not_not.mpr hok)] at h
  split at h
  · cases h
  · next hfree => exact ⟨not_not.mp hfree, (Option.some.inj h).symm⟩

theorem step_handlerConnect {worker : Worker} {created : Bool}
    (h : step host parse s (.handlerConnect worker created) = some s') :
    ∃ pConnect rest, s.listConnect worker = pConnect :: rest ∧ s.pending worker = [] ∧
      s' = { s with listConnect := Function.update s.listConnect worker rest }.handlerConnect
        pConnect created := by
  have hok := fault_of_step h
  rw [step, if_neg (not_not.mpr hok)] at h
  split at h
  · cases h
  · next pConnect rest hlist =>
    split at h
    · cases h
    · next hidle => exact ⟨pConnect, rest, hlist, not_not.mp hidle, (Option.some.inj h).symm⟩

theorem step_read {bev : Bev} {stack : Stack} {input : List UInt8}
    (h : step host parse s (.read bev stack input) = some s') :
    ∃ v actions, s.bevs[bev]? = some v ∧ s.pending v.base = [] ∧
      NodeConnect.readCallBack host parse stack input = .ok actions ∧ s' = { s with
        pending := Function.update s.pending v.base (actions.map (Task.mk bev v.arg))
        reads := s.reads ++ [received host parse bev v.fd stack input] } := by
  have hok := fault_of_step h
  rw [step, if_neg (not_not.mpr hok)] at h
  split at h
  · cases h
  · next v hbev =>
    split at h
    · cases h
    · next hready =>
      rw [NodeConnect.readCallBack_eq] at h
      exact ⟨v, _, hbev, not_not.mp (not_or.mp hready).2, NodeConnect.readCallBack_eq _ _ _ _,
        (Option.some.inj h).symm⟩

theorem step_resume {worker : Worker} (h : step host parse s (.resume worker) = some s') :
    ∃ task rest, s.pending worker = task :: rest ∧
      s' = { s with pending := Function.update s.pending worker rest }.perform task := by
  have hok := fault_of_step h
  rw [step, if_neg (not_not.mpr hok)] at h
  split at h
  · cases h
  · next task rest hpending => exact ⟨task, rest, hpending, (Option.some.inj h).symm⟩

theorem step_errorCallBack {bev : Bev} {what : UInt16}
    (h : step host parse s (.errorCallBack bev what) = some s') :
    ∃ v, s.bevs[bev]? = some v ∧ s.pending v.base = [] ∧
      s' = if NodeConnect.errorCallBackDeletes what then s.delete v.arg else s := by
  have hok := fault_of_step h
  rw [step, if_neg (not_not.mpr hok)] at h
  split at h
  · cases h
  · next v hbev =>
    split at h
    · cases h
    · next hready =>
      refine ⟨v, hbev, not_not.mp (not_or.mp hready).2, ?_⟩
      split at h
      · next hdelete => rw [if_pos hdelete, Option.some.inj h]
      · next hkeep => rw [if_neg hkeep, Option.some.inj h]

/-- Only a bufferevent that is not freed calls back. -/
theorem open_of_step {e : Event} {bev : Bev} {v : BufferEvent} (hbev : s.bevs[bev]? = some v)
    (he : (∃ stack input, e = .read bev stack input) ∨ ∃ what, e = .errorCallBack bev what)
    (h : step host parse s e = some s') : v.freed = false := by
  have hok := fault_of_step h
  refine Bool.eq_false_iff.mpr fun hfreed => ?_
  rcases he with ⟨stack, input, rfl⟩ | ⟨what, rfl⟩
  all_goals
    rw [step, if_neg (not_not.mpr hok), hbev] at h
    dsimp only at h
    rw [if_pos (Or.inl hfreed)] at h
    cases h

theorem step_getAllNode (h : step host parse s .getAllNode = some s') :
    s' = if s.getAllNode = none then s.fail .useAfterFree else s := by
  have hok := fault_of_step h
  rw [step, if_neg (not_not.mpr hok)] at h
  split at h
  · next hnone => rw [if_pos hnone, Option.some.inj h]
  · next listing hsome => rw [hsome, if_neg (Option.some_ne_none listing), Option.some.inj h]

theorem step_delNode {strIp : Str} {stack : Stack}
    (h : step host parse s (.delNode strIp stack) = some s') : s' = s.delNode host stack strIp := by
  have hok := fault_of_step h
  rw [step, if_neg (not_not.mpr hok)] at h
  exact (Option.some.inj h).symm

/-- A worker that is done takes up the next read. -/
theorem step_read_of {bev : Bev} {v : BufferEvent} {stack : Stack} {input : List UInt8}
    {actions : List NodeConnect.Action} (hok : s.fault = none) (hbev : s.bevs[bev]? = some v)
    (hopen : v.freed = false) (hidle : s.pending v.base = [])
    (hactions : NodeConnect.readCallBack host parse stack input = .ok actions) :
    step host parse s (.read bev stack input) = some { s with
      pending := Function.update s.pending v.base (actions.map (Task.mk bev v.arg))
      reads := s.reads ++ [received host parse bev v.fd stack input] } := by
  have hready : ¬(v.freed = true ∨ s.pending v.base ≠ []) := by
    rw [hopen, hidle]
    exact not_or.mpr ⟨Bool.false_ne_true, not_not.mpr rfl⟩
  rw [step, if_neg (not_not.mpr hok), hbev]
  dsimp only
  rw [if_neg hready, hactions]

/-- A worker in a callback goes on with its next effect. -/
theorem step_resume_of (host : ByteOrder) (parse : Parser) {worker : Worker} {task : Task}
    {rest : List Task} (hok : s.fault = none) (hpending : s.pending worker = task :: rest) :
    step host parse s (.resume worker) =
      some ({ s with pending := Function.update s.pending worker rest }.perform task) := by
  rw [step, if_neg (not_not.mpr hok), hpending]

end Steps

namespace State

variable {s : State} {a : Addr} {x : NodeConnect}

theorem delete_live (h : s.heap a = some x) : s.delete a =
    { s with heap := Function.update s.heap a none, deleted := s.deleted ++ [x.sock] } := by
  rw [delete, h]

theorem delete_dead (h : s.heap a = none) : s.delete a = s.fail .doubleFree := by
  rw [delete, h]

theorem setNodeName_live (h : s.heap a = some x) (strName : Str) : s.setNodeName a strName =
    { s with heap := Function.update s.heap a (some { x with strNodeName := strName }) } := by
  rw [setNodeName, h]

theorem setNodeName_dead (h : s.heap a = none) (strName : Str) :
    s.setNodeName a strName = s.fail .useAfterFree := by
  rw [setNodeName, h]

theorem handlerConnect_created (h : s.heap a = some x) : s.handlerConnect a true = { s with
    heap := Function.update s.heap a (some { x with bev := some s.bevs.length })
    bevs := s.bevs ++ [{ fd := x.sock, base := x.base, arg := a }] } := by
  rw [handlerConnect, h]
  rfl

theorem handlerConnect_failed (h : s.heap a = some x) :
    s.handlerConnect a false = s.delete a := by
  rw [handlerConnect, h]
  rfl

theorem handlerConnect_dead (h : s.heap a = none) (created : Bool) :
    s.handlerConnect a created = s.fail .useAfterFree := by
  rw [handlerConnect, h]

/-- Deleting an object leaves the bufferevents alone, and what the workers do. -/
theorem delete_frame (s : State) (a : Addr) : (s.delete a).written = s.written ∧
    (s.delete a).pending = s.pending ∧ (s.delete a).bevs = s.bevs := by
  unfold delete
  cases s.heap a <;> exact ⟨rfl, rfl, rfl⟩

theorem setNodeName_frame (s : State) (a : Addr) (strName : Str) :
    (s.setNodeName a strName).written = s.written ∧
      (s.setNodeName a strName).pending = s.pending ∧ (s.setNodeName a strName).bevs = s.bevs := by
  unfold setNodeName
  cases s.heap a <;> exact ⟨rfl, rfl, rfl⟩

/-- Connecting an object writes nothing. -/
theorem handlerConnect_frame (s : State) (a : Addr) (created : Bool) :
    (s.handlerConnect a created).written = s.written ∧
      (s.handlerConnect a created).pending = s.pending := by
  cases ha : s.heap a with
  | none =>
    rw [handlerConnect_dead ha]
    exact ⟨rfl, rfl⟩
  | some x =>
    cases created with
    | true =>
      rw [handlerConnect_created ha]
      exact ⟨rfl, rfl⟩
    | false =>
      rw [handlerConnect_failed ha]
      exact ⟨(s.delete_frame a).1, (s.delete_frame a).2.1⟩

/-- Nothing but a read adds to what was received. -/
theorem delete_reads (s : State) (a : Addr) : (s.delete a).reads = s.reads := by
  unfold delete
  cases s.heap a <;> rfl

theorem setNodeName_reads (s : State) (a : Addr) (strName : Str) :
    (s.setNodeName a strName).reads = s.reads := by
  unfold setNodeName
  cases s.heap a <;> rfl

theorem handlerConnect_reads (s : State) (a : Addr) (created : Bool) :
    (s.handlerConnect a created).reads = s.reads := by
  cases ha : s.heap a with
  | none => rw [handlerConnect_dead ha, fail]
  | some x =>
    cases created with
    | true => rw [handlerConnect_created ha]
    | false => rw [handlerConnect_failed ha, delete_reads]

theorem perform_reads (s : State) (task : Task) : (s.perform task).reads = s.reads := by
  unfold perform
  cases task.action with
  | decode msgId body => rfl
  | setNodeName strName => exact s.setNodeName_reads task.arg strName
  | addNode info => rfl
  | write bytes => rfl

theorem perform_pending (s : State) (task : Task) : (s.perform task).pending = s.pending := by
  unfold perform
  cases task.action with
  | decode msgId body => rfl
  | setNodeName strName => exact (s.setNodeName_frame task.arg strName).2.1
  | addNode info => rfl
  | write bytes => rfl

theorem delNode_reads (s : State) (host : ByteOrder) (stack : Stack) (strIp : Str) :
    (s.delNode host stack strIp).reads = s.reads := by
  unfold delNode sendReqCloseNode
  split
  · rfl
  · split
    · rfl
    · split <;> rfl

/-- Asking a node to close does not touch what the workers have to do. -/
theorem delNode_pending (s : State) (host : ByteOrder) (stack : Stack) (strIp : Str) :
    (s.delNode host stack strIp).pending = s.pending := by
  unfold delNode sendReqCloseNode
  split
  · rfl
  · split
    · rfl
    · split <;> rfl

/-- The close frame goes to the bufferevent of the object that the ip is
mapped to. -/
theorem delNode_of_bev {strIp : Str} {bev : Bev} {host : ByteOrder} (stack : Stack)
    (hlookup : s.mapNode.lookup strIp = some a) (h : s.heap a = some x) (hbev : x.bev = some bev) :
    ∃ frame, NodeConnect.closeFrame host stack = .ok frame ∧
      s.delNode host stack strIp = s.buffereventWrite bev frame := by
  refine ⟨_, NodeConnect.closeFrame_eq host stack, ?_⟩
  rw [delNode, hlookup]
  dsimp only
  rw [sendReqCloseNode, h]
  dsimp only
  rw [NodeConnect.closeFrame_eq, hbev]

theorem delNode_unmapped {strIp : Str} {host : ByteOrder} (stack : Stack)
    (hlookup : s.mapNode.lookup strIp = none) : s.delNode host stack strIp = s := by
  rw [delNode, hlookup]

theorem mem_lookup_of_mem_entries {kv : Sigma fun _ : Str => Addr} (h : kv ∈ s.mapNode.entries) :
    s.mapNode.lookup kv.1 = some kv.2 :=
  AList.mem_lookup_iff.mpr h

/-- The listing reads only the objects that the map points at. -/
theorem getAllNode_eq (hlive : ∀ ip a, s.mapNode.lookup ip = some a → ∃ x, s.heap a = some x) :
    ∃ listing, s.getAllNode = some listing ∧ ∀ ip name, (ip, name) ∈ listing ↔
      ∃ a x, s.mapNode.lookup ip = some a ∧ s.heap a = some x ∧ x.strNodeName = name := by
  have hentries : ∀ kv ∈ s.mapNode.entries, ∃ x, s.heap kv.2 = some x := fun kv hkv =>
    hlive kv.1 kv.2 (mem_lookup_of_mem_entries hkv)
  have hlisting : ∀ entries : List (Sigma fun _ : Str => Addr),
      (∀ kv ∈ entries, ∃ x, s.heap kv.2 = some x) → ∃ listing,
        (entries.mapM fun kv => (s.heap kv.2).map fun x => (kv.1, x.strNodeName)) =
          some listing ∧ ∀ ip name, (ip, name) ∈ listing ↔
            ∃ kv ∈ entries, ∃ x, kv.1 = ip ∧ s.heap kv.2 = some x ∧ x.strNodeName = name := by
    intro entries hall
    induction entries with
    | nil => exact ⟨[], rfl, by simp only [List.not_mem_nil, false_and, exists_false, implies_true]⟩
    | cons kv entries ih =>
      obtain ⟨x, hx⟩ := hall kv List.mem_cons_self
      obtain ⟨listing, hrest, hmem⟩ := ih fun kv hkv => hall kv (List.mem_cons_of_mem _ hkv)
      refine ⟨(kv.1, x.strNodeName) :: listing, ?_, ?_⟩
      · rw [List.mapM_cons, hx, hrest]
        rfl
      · intro ip name
        rw [List.mem_cons, hmem, Prod.mk.injEq]
        constructor
        · rintro (⟨rfl, rfl⟩ | ⟨kv', hkv', x', hfound⟩)
          · exact ⟨kv, List.mem_cons_self, x, rfl, hx, rfl⟩
          · exact ⟨kv', List.mem_cons_of_mem _ hkv', x', hfound⟩
        · rintro ⟨kv', hkv', x', rfl, hx', rfl⟩
          rcases List.mem_cons.mp hkv' with rfl | hkv'
          · rw [hx] at hx'
            cases hx'
            exact Or.inl ⟨rfl, rfl⟩
          · exact Or.inr ⟨kv', hkv', x', rfl, hx', rfl⟩
  obtain ⟨listing, hsome, hmem⟩ := hlisting s.mapNode.entries hentries
  refine ⟨listing, hsome, fun ip name => (hmem ip name).trans ?_⟩
  constructor
  · rintro ⟨kv, hkv, x, rfl, hx, hname⟩
    exact ⟨kv.2, x, mem_lookup_of_mem_entries hkv, hx, hname⟩
  · rintro ⟨a, x, hlookup, hx, hname⟩
    exact ⟨⟨ip, a⟩, AList.mem_lookup_iff.mp hlookup, x, rfl, hx, hname⟩

/-- A map of live objects can be listed. -/
theorem getAllNode_ne_none
    (hlive : ∀ ip a, s.mapNode.lookup ip = some a → ∃ x, s.heap a = some x) :
    s.getAllNode ≠ none := by
  obtain ⟨listing, hlisting, _⟩ := getAllNode_eq hlive
  rw [hlisting]
  exact Option.some_ne_none listing

end State

end Server

end NodeManager
