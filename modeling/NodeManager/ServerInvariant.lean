import NodeManager.Server

/-!
# How objects, sockets and bufferevents hang together

What holds in every run of the server, whatever is deleted: the live objects
have distinct sockets, an object knows a bufferevent on its socket as soon as
there is one, a worker only runs callbacks of bufferevents on its base, and
nothing is ever freed or closed.
-/

namespace NodeManager.Server

open ByteMemory TransitionSystem

/-- The links between the components of a state that creating, deleting and
connecting objects maintain. -/
structure Linked (heap : Addr → Option NodeConnect) (bevs : List BufferEvent) (accepted : ℕ)
    (reads : List Received) (lastLogin : Str → Option (Sock × Str))
    (pending : Worker → List Task) : Prop where
  /-- The socket of an object has been accepted. -/
  sockLt : ∀ {a x}, heap a = some x → x.sock < accepted
  /-- Distinct objects have distinct sockets. -/
  sockInj : ∀ {a a' x x'}, heap a = some x → heap a' = some x' → x.sock = x'.sock → a = a'
  /-- The socket of a bufferevent has been accepted. -/
  fdLt : ∀ {v}, v ∈ bevs → v.fd < accepted
  /-- No bufferevent is freed. -/
  notFreed : ∀ {v}, v ∈ bevs → v.freed = false
  /-- A read was made from a bufferevent. -/
  readFd : ∀ {r}, r ∈ reads → ∃ v, bevs[r.bev]? = some v ∧ v.fd = r.fd
  /-- A login arrived on a bufferevent. -/
  loginFd : ∀ {ip k name}, lastLogin ip = some (k, name) → ∃ v ∈ bevs, v.fd = k
  /-- The bufferevent of an object is on its socket. -/
  bevFd : ∀ {a x b}, heap a = some x → x.bev = some b → ∃ v, bevs[b]? = some v ∧ v.fd = x.sock
  /-- An object with a bufferevent on its socket knows one. -/
  bevSet : ∀ {a x v}, heap a = some x → v ∈ bevs → v.fd = x.sock → x.bev ≠ none
  /-- A worker runs callbacks of bufferevents on its base. -/
  taskBev : ∀ {w t}, t ∈ pending w → ∃ v, bevs[t.bev]? = some v ∧ v.base = w ∧ v.arg = t.arg
  /-- A worker registers the login that it read last. -/
  taskLogin : ∀ {w t info}, t ∈ pending w → t.action = .addNode info →
    ∃ r, lastRead reads t.bev = some r ∧ r.login = some info

/-- A worker that is done with some of its tasks has the others left. -/
theorem mem_of_schedule {pending : Worker → List Task} {worker w : Worker} {tasks : List Task}
    {t : Task} (htasks : ∀ t ∈ tasks, t ∈ pending worker)
    (ht : t ∈ Function.update pending worker tasks w) : t ∈ pending w := by
  by_cases hsame : w = worker
  · rw [hsame, Function.update_self] at ht
    exact hsame ▸ htasks t ht
  · rwa [Function.update_of_ne hsame] at ht

namespace Linked

variable {heap : Addr → Option NodeConnect} {bevs : List BufferEvent} {accepted : ℕ}
  {reads : List Received} {lastLogin : Str → Option (Sock × Str)} {pending : Worker → List Task}

/-- Objects may disappear or change apart from their links. -/
theorem keep (h : Linked heap bevs accepted reads lastLogin pending)
    {heap' : Addr → Option NodeConnect} (hkeep : ∀ {a x'}, heap' a = some x' →
      ∃ x, heap a = some x ∧ x'.sock = x.sock ∧ x'.bev = x.bev) :
    Linked heap' bevs accepted reads lastLogin pending where
  sockLt := by
    intro a x' hx'
    obtain ⟨x, hx, hsock, _⟩ := hkeep hx'
    exact hsock ▸ h.sockLt hx
  sockInj := by
    intro a a' x' y' hx' hy' hsame
    obtain ⟨x, hx, hxsock, _⟩ := hkeep hx'
    obtain ⟨y, hy, hysock, _⟩ := hkeep hy'
    exact h.sockInj hx hy (by rw [← hxsock, ← hysock, hsame])
  fdLt := h.fdLt
  notFreed := h.notFreed
  readFd := h.readFd
  loginFd := h.loginFd
  bevFd := by
    intro a x' b hx' hb
    obtain ⟨x, hx, hsock, hbev⟩ := hkeep hx'
    rw [hsock]
    exact h.bevFd hx (hbev ▸ hb)
  bevSet := by
    intro a x' v hx' hv hfd
    obtain ⟨x, hx, hsock, hbev⟩ := hkeep hx'
    rw [hbev]
    exact h.bevSet hx hv (hfd.trans hsock)
  taskBev := h.taskBev
  taskLogin := h.taskLogin

theorem delete (h : Linked heap bevs accepted reads lastLogin pending) (a : Addr) :
    Linked (Function.update heap a none) bevs accepted reads lastLogin pending := by
  refine h.keep ?_
  intro a' x' hx'
  by_cases hsame : a' = a
  · rw [hsame, Function.update_self] at hx'
    cases hx'
  · rw [Function.update_of_ne hsame] at hx'
    exact ⟨x', hx', rfl, rfl⟩

theorem setNodeName (h : Linked heap bevs accepted reads lastLogin pending) {a : Addr}
    {x : NodeConnect} (hx : heap a = some x) (strName : Str) :
    Linked (Function.update heap a (some { x with strNodeName := strName })) bevs accepted
      reads lastLogin pending := by
  refine h.keep ?_
  intro a' x' hx'
  by_cases hsame : a' = a
  · rw [hsame, Function.update_self] at hx'
    cases hx'
    exact ⟨x, hsame ▸ hx, rfl, rfl⟩
  · rw [Function.update_of_ne hsame] at hx'
    exact ⟨x', hx', rfl, rfl⟩

/-- A new object gets the socket that was just accepted. -/
theorem accept (h : Linked heap bevs accepted reads lastLogin pending) (a : Addr)
    (worker : Worker) :
    Linked (Function.update heap a (some { sock := accepted, base := worker })) bevs
      (accepted + 1) reads lastLogin pending := by
  have hcases : ∀ {a' x'},
      Function.update heap a (some { sock := accepted, base := worker }) a' = some x' →
        a' = a ∧ x'.sock = accepted ∧ x'.bev = none ∨ heap a' = some x' := by
    intro a' x' hx'
    by_cases hsame : a' = a
    · rw [hsame, Function.update_self] at hx'
      cases hx'
      exact Or.inl ⟨hsame, rfl, rfl⟩
    · rw [Function.update_of_ne hsame] at hx'
      exact Or.inr hx'
  refine ⟨?_, ?_, fun hv => Nat.lt_succ_of_lt (h.fdLt hv), h.notFreed, h.readFd, h.loginFd, ?_, ?_,
    h.taskBev, h.taskLogin⟩
  · intro a' x' hx'
    rcases hcases hx' with ⟨_, hsock, _⟩ | hold
    · exact hsock ▸ Nat.lt_succ_self accepted
    · exact Nat.lt_succ_of_lt (h.sockLt hold)
  · intro a' a'' x' x'' hx' hx'' hsame
    rcases hcases hx' with ⟨ha', hsock', _⟩ | hold'
    · rcases hcases hx'' with ⟨ha'', _, _⟩ | hold''
      · rw [ha', ha'']
      · exact absurd (hsame.symm.trans hsock') (h.sockLt hold'').ne
    · rcases hcases hx'' with ⟨_, hsock'', _⟩ | hold''
      · exact absurd (hsame.trans hsock'') (h.sockLt hold').ne
      · exact h.sockInj hold' hold'' hsame
  · intro a' x' b hx' hb
    rcases hcases hx' with ⟨_, _, hnone⟩ | hold
    · rw [hnone] at hb
      cases hb
    · exact h.bevFd hold hb
  · intro a' x' v hx' hv hfd
    rcases hcases hx' with ⟨_, hsock, _⟩ | hold
    · exact absurd (hfd.trans hsock) (h.fdLt hv).ne
    · exact h.bevSet hold hv hfd

/-- A new bufferevent goes on the socket of its object. -/
theorem connect (h : Linked heap bevs accepted reads lastLogin pending) {a : Addr} {x : NodeConnect}
    (hx : heap a = some x) : Linked
      (Function.update heap a (some { x with bev := some bevs.length }))
      (bevs ++ [{ fd := x.sock, base := x.base, arg := a }]) accepted reads lastLogin
      pending := by
  have hcases : ∀ {a' x'},
      Function.update heap a (some { x with bev := some bevs.length }) a' = some x' →
        a' = a ∧ x'.sock = x.sock ∧ x'.bev = some bevs.length ∨ a' ≠ a ∧ heap a' = some x' := by
    intro a' x' hx'
    by_cases hsame : a' = a
    · rw [hsame, Function.update_self] at hx'
      cases hx'
      exact Or.inl ⟨hsame, rfl, rfl⟩
    · rw [Function.update_of_ne hsame] at hx'
      exact Or.inr ⟨hsame, hx'⟩
  have hold : ∀ {b : Bev} {v : BufferEvent}, bevs[b]? = some v →
      (bevs ++ [{ fd := x.sock, base := x.base, arg := a }])[b]? = some v := by
    intro b v hb
    obtain ⟨hlt, _⟩ := List.getElem?_eq_some_iff.mp hb
    rw [List.getElem?_append_left hlt, hb]
  have hmem : ∀ {v}, v ∈ bevs ++ [{ fd := x.sock, base := x.base, arg := a }] →
      v ∈ bevs ∨ v = { fd := x.sock, base := x.base, arg := a } := by
    intro v hv
    rcases List.mem_append.mp hv with hv | hv
    · exact Or.inl hv
    · exact Or.inr (List.mem_singleton.mp hv)
  refine ⟨?_, ?_, ?_, ?_, ?_, ?_, ?_, ?_, ?_, h.taskLogin⟩
  · intro a' x' hx'
    rcases hcases hx' with ⟨_, hsock, _⟩ | ⟨_, hx'⟩
    · exact hsock ▸ h.sockLt hx
    · exact h.sockLt hx'
  · intro a' a'' x' x'' hx' hx'' hsame
    rcases hcases hx' with ⟨ha', hsock', _⟩ | ⟨_, hx'⟩
    · rcases hcases hx'' with ⟨ha'', _, _⟩ | ⟨_, hx''⟩
      · rw [ha', ha'']
      · rw [ha']
        exact h.sockInj hx hx'' (hsock'.symm.trans hsame)
    · rcases hcases hx'' with ⟨ha'', hsock'', _⟩ | ⟨_, hx''⟩
      · rw [ha'']
        exact h.sockInj hx' hx (hsame.trans hsock'')
      · exact h.sockInj hx' hx'' hsame
  · intro v hv
    rcases hmem hv with hv | rfl
    · exact h.fdLt hv
    · exact h.sockLt hx
  · intro v hv
    rcases hmem hv with hv | rfl
    · exact h.notFreed hv
    · rfl
  · intro r hr
    obtain ⟨v, hv, hfd⟩ := h.readFd hr
    exact ⟨v, hold hv, hfd⟩
  · intro ip k name hlogin
    obtain ⟨v, hv, hfd⟩ := h.loginFd hlogin
    exact ⟨v, List.mem_append_left _ hv, hfd⟩
  · intro a' x' b hx' hb
    rcases hcases hx' with ⟨_, hsock, hbev⟩ | ⟨_, hx'⟩
    · rw [hbev, Option.some.injEq] at hb
      subst hb
      exact ⟨_, List.getElem?_concat_length, hsock.symm⟩
    · obtain ⟨v, hv, hfd⟩ := h.bevFd hx' hb
      exact ⟨v, hold hv, hfd⟩
  · intro a' x' v hx' hv hfd
    rcases hcases hx' with ⟨_, _, hbev⟩ | ⟨hne, hx'⟩
    · rw [hbev]
      exact Option.some_ne_none _
    · rcases hmem hv with hv | rfl
      · exact h.bevSet hx' hv hfd
      · exact absurd (h.sockInj hx' hx hfd.symm) hne
  · intro w t ht
    obtain ⟨v, hv, hbase, harg⟩ := h.taskBev ht
    exact ⟨v, hold hv, hbase, harg⟩

/-- A login that was read last from a bufferevent is registered. -/
theorem login (h : Linked heap bevs accepted reads lastLogin pending) {r : Received}
    (hr : r ∈ reads) (strIp strName : Str) :
    Linked heap bevs accepted reads
      (Function.update lastLogin strIp (some (r.fd, strName))) pending := by
  refine ⟨h.sockLt, h.sockInj, h.fdLt, h.notFreed, h.readFd, ?_, h.bevFd, h.bevSet, h.taskBev,
    h.taskLogin⟩
  intro ip k name hlogin
  by_cases hsame : ip = strIp
  · rw [hsame, Function.update_self, Option.some.injEq, Prod.mk.injEq] at hlogin
    obtain ⟨v, hv, hfd⟩ := h.readFd hr
    exact ⟨v, List.mem_of_getElem? hv, hfd.trans hlogin.1⟩
  · rw [Function.update_of_ne hsame] at hlogin
    exact h.loginFd hlogin

/-- A worker may be done with some of its tasks. -/
theorem schedule (h : Linked heap bevs accepted reads lastLogin pending) {worker : Worker}
    {tasks : List Task} (htasks : ∀ t ∈ tasks, t ∈ pending worker) :
    Linked heap bevs accepted reads lastLogin (Function.update pending worker tasks) :=
  ⟨h.sockLt, h.sockInj, h.fdLt, h.notFreed, h.readFd, h.loginFd, h.bevFd, h.bevSet,
    fun ht => h.taskBev (mem_of_schedule htasks ht),
    fun ht => h.taskLogin (mem_of_schedule htasks ht)⟩

/-- A worker that is done has no task for the bufferevents on its base. -/
theorem bev_ne (h : Linked heap bevs accepted reads lastLogin pending) {bev : Bev}
    {v : BufferEvent} (hbev : bevs[bev]? = some v) (hidle : pending v.base = []) {w : Worker}
    {t : Task} (ht : t ∈ pending w) : bev ≠ t.bev := by
  rintro rfl
  obtain ⟨v', hv', hbase, _⟩ := h.taskBev ht
  obtain rfl := Option.some.inj (hbev.symm.trans hv')
  rw [← hbase, hidle] at ht
  cases ht

/-- A worker that is done reads from a bufferevent on its base. -/
theorem receive (h : Linked heap bevs accepted reads lastLogin pending) {r : Received}
    {v : BufferEvent} {tasks : List Task} (hbev : bevs[r.bev]? = some v) (hfd : v.fd = r.fd)
    (hidle : pending v.base = []) (htasks : ∀ t ∈ tasks, t.bev = r.bev ∧ v.arg = t.arg)
    (hlogin : ∀ t ∈ tasks, ∀ info, t.action = .addNode info → r.login = some info) :
    Linked heap bevs accepted (reads ++ [r]) lastLogin
      (Function.update pending v.base tasks) := by
  refine ⟨h.sockLt, h.sockInj, h.fdLt, h.notFreed, ?_, h.loginFd, h.bevFd, h.bevSet, ?_, ?_⟩
  · intro r' hr'
    rcases List.mem_append.mp hr' with hold | hnew
    · exact h.readFd hold
    · rw [List.mem_singleton.mp hnew]
      exact ⟨v, hbev, hfd⟩
  · intro w t ht
    by_cases hsame : w = v.base
    · rw [hsame, Function.update_self] at ht
      obtain ⟨htbev, harg⟩ := htasks t ht
      exact ⟨v, htbev ▸ hbev, hsame.symm, harg⟩
    · rw [Function.update_of_ne hsame] at ht
      exact h.taskBev ht
  · intro w t info ht haction
    by_cases hsame : w = v.base
    · rw [hsame, Function.update_self] at ht
      exact ⟨r, lastRead_append_self (htasks t ht).1.symm, hlogin t ht info haction⟩
    · rw [Function.update_of_ne hsame] at ht
      rw [lastRead_append_of_ne (h.bev_ne hbev hidle ht)]
      exact h.taskLogin ht haction

end Linked

section Callback

variable {host : ByteOrder} {parse : Parser} {stack : Stack} {input : List UInt8}
  {actions : List NodeConnect.Action}

/-- The callback registers the login that it received, and sets the name that
stands in it. -/
theorem mem_readCallBack_login
    (h : NodeConnect.readCallBack host parse stack input = .ok actions) :
    (∀ info, .addNode info ∈ actions ↔
      (loginBody host stack input).map (PbCodec.handleNodeOnlineReq parse) = some info) ∧
    ∀ strName, .setNodeName strName ∈ actions ↔ ∃ info,
      (loginBody host stack input).map (PbCodec.handleNodeOnlineReq parse) = some info ∧
        info.strName = strName := by
  rw [NodeConnect.readCallBack_eq, Except.ok.injEq] at h
  subst h
  rw [loginBody]
  dsimp only
  by_cases hskip : input = [] ∨
      (DataHeadCodec.headAt host (databuff input)).ucType ≠ ProtocolType.pb.code
  · rw [if_pos hskip, if_pos hskip]
    simp only [List.not_mem_nil, Option.map_none, reduceCtorEq, false_and, exists_false,
      implies_true, and_self]
  · rw [if_neg hskip, if_neg hskip, NodeConnect.handle]
    by_cases hbeat : (DataHeadCodec.headAt host (databuff input)).usMsgId =
        MsgID.reqHeartBeat.code
    · have hother : MsgID.reqHeartBeat.code ≠ MsgID.reqNodeLogin.code := by decide
      rw [if_pos hbeat, hbeat, if_neg hother]
      simp only [List.mem_cons, List.not_mem_nil, reduceCtorEq, or_self, Option.map_none,
        false_and, exists_false, implies_true, and_self]
    · rw [if_neg hbeat]
      by_cases hlogin : (DataHeadCodec.headAt host (databuff input)).usMsgId =
          MsgID.reqNodeLogin.code
      · rw [if_pos hlogin, if_pos hlogin]
        simp only [List.mem_cons, List.not_mem_nil, reduceCtorEq, or_false, false_or,
          NodeConnect.Action.addNode.injEq, NodeConnect.Action.setNodeName.injEq,
          Option.map_some, Option.some.injEq, exists_eq_left']
        exact ⟨fun info => eq_comm, fun strName => eq_comm⟩
      · rw [if_neg hlogin, if_neg hlogin]
        simp only [List.mem_cons, List.not_mem_nil, reduceCtorEq, or_self, Option.map_none,
          false_and, exists_false, implies_true, and_self]

end Callback

/-- The invariant of every run. -/
def Inv (s : State) : Prop :=
  Linked s.heap s.bevs s.accepted s.reads s.lastLogin s.pending ∧ s.closed = []

theorem Inv.init : Inv State.init := by
  refine ⟨⟨?_, ?_, ?_, ?_, ?_, ?_, ?_, ?_, ?_, ?_⟩, rfl⟩
  all_goals
    intros
    simp only [State.init, List.not_mem_nil, reduceCtorEq] at *

variable {host : ByteOrder} {parse : Parser} {s s' : State}

theorem Inv.delete (h : Inv s) (a : Addr) : Inv (s.delete a) := by
  cases ha : s.heap a with
  | none =>
    rw [State.delete_dead ha]
    exact h
  | some x =>
    rw [State.delete_live ha]
    exact ⟨h.1.delete a, h.2⟩

theorem Inv.handlerConnect (h : Inv s) (a : Addr) (created : Bool) :
    Inv (s.handlerConnect a created) := by
  cases ha : s.heap a with
  | none =>
    rw [State.handlerConnect_dead ha]
    exact h
  | some x =>
    cases created with
    | true =>
      rw [State.handlerConnect_created ha]
      exact ⟨h.1.connect ha, h.2⟩
    | false =>
      rw [State.handlerConnect_failed ha]
      exact h.delete a

/-- Registering what was read last remembers the socket of a bufferevent. -/
theorem Inv.addNode (h : Inv s) (bev : Bev) (a : Addr) (info : NodeInfo) :
    Inv (s.addNode bev a info) := by
  refine ⟨?_, h.2⟩
  dsimp only [State.addNode]
  unfold State.registered
  split
  · exact h.1
  · next fd login hread =>
    obtain ⟨r, hlast, hlogin⟩ := Option.bind_eq_some_iff.mp hread
    obtain ⟨info', _, hpair⟩ := Option.map_eq_some_iff.mp hlogin
    obtain ⟨rfl, rfl⟩ := Prod.mk.inj hpair
    exact h.1.login (mem_of_lastRead hlast).1 info'.strIp info'.strName

/-- A worker that comes to the registration registers the login that it read. -/
theorem Inv.registered (h : Inv s) {w : Worker} {t : Task} {info : NodeInfo} {v : BufferEvent}
    (ht : t ∈ s.pending w) (haction : t.action = .addNode info) (hbev : s.bevs[t.bev]? = some v) :
    s.registered t.bev = Function.update s.lastLogin info.strIp (some (v.fd, info.strName)) := by
  obtain ⟨r, hlast, hlogin⟩ := h.1.taskLogin ht haction
  obtain ⟨hmem, hrbev⟩ := mem_of_lastRead hlast
  obtain ⟨v', hv', hfd⟩ := h.1.readFd hmem
  rw [hrbev, hbev] at hv'
  obtain rfl := Option.some.inj hv'
  rw [State.registered, hlast, Option.bind_some, hlogin, Option.map_some, hfd]

/-- A worker is done with its first task. -/
theorem Inv.popped (h : Inv s) {worker : Worker} {task : Task} {rest : List Task}
    (hpending : s.pending worker = task :: rest) :
    Inv { s with pending := Function.update s.pending worker rest } :=
  ⟨h.1.schedule fun _ ht => hpending ▸ List.mem_cons_of_mem task ht, h.2⟩

theorem Inv.perform (h : Inv s) (task : Task) : Inv (s.perform task) := by
  unfold State.perform
  cases task.action with
  | decode msgId body => exact h
  | setNodeName strName =>
    dsimp only
    cases ha : s.heap task.arg with
    | none =>
      rw [State.setNodeName_dead ha]
      exact h
    | some x =>
      rw [State.setNodeName_live ha]
      exact ⟨h.1.setNodeName ha strName, h.2⟩
  | addNode info => exact h.addNode task.bev task.arg info
  | write bytes => exact h

theorem Inv.sendReqCloseNode (h : Inv s) (stack : Stack) (a : Addr) :
    Inv (s.sendReqCloseNode host stack a) := by
  unfold State.sendReqCloseNode
  split
  · exact h
  · split
    · exact h
    · exact h
    · exact h

/-- Every event keeps the invariant. -/
theorem Inv.step {e : Event} (h : Inv s) (hstep : Server.step host parse s e = some s') :
    Inv s' := by
  cases e with
  | accept pNodeCon worker =>
    obtain ⟨_, rfl⟩ := step_accept hstep
    exact ⟨h.1.accept pNodeCon worker, h.2⟩
  | handlerConnect worker created =>
    obtain ⟨pConnect, rest, _, _, rfl⟩ := step_handlerConnect hstep
    have hpopped : Inv { s with listConnect := Function.update s.listConnect worker rest } := h
    exact hpopped.handlerConnect pConnect created
  | read bev stack input =>
    obtain ⟨v, actions, hbev, hidle, hactions, rfl⟩ := step_read hstep
    refine ⟨h.1.receive hbev rfl hidle ?_ ?_, h.2⟩
    · intro t ht
      obtain ⟨action, _, rfl⟩ := List.mem_map.mp ht
      exact ⟨rfl, rfl⟩
    · intro t ht info haction
      obtain ⟨action, hmem, rfl⟩ := List.mem_map.mp ht
      exact ((mem_readCallBack_login hactions).1 info).mp (haction ▸ hmem)
  | resume worker =>
    obtain ⟨task, rest, hpending, rfl⟩ := step_resume hstep
    exact (h.popped hpending).perform task
  | errorCallBack bev what =>
    obtain ⟨v, _, _, rfl⟩ := step_errorCallBack hstep
    split
    · exact h.delete v.arg
    · exact h
  | getAllNode =>
    obtain rfl := step_getAllNode hstep
    split
    · exact h
    · exact h
  | delNode strIp stack =>
    obtain rfl := step_delNode hstep
    unfold State.delNode
    split
    · exact h
    · exact h.sendReqCloseNode stack _

/-- A step receives what its event reads. -/
theorem readLogins_step {e : Event} (hstep : Server.step host parse s e = some s') :
    readLogins s'.reads = readLogins s.reads ++ e.logins host parse := by
  have hquiet : e.logins host parse = [] → s'.reads = s.reads →
      readLogins s'.reads = readLogins s.reads ++ e.logins host parse := by
    intro hnone hsame
    rw [hnone, hsame, List.append_nil]
  cases e with
  | accept pNodeCon worker =>
    obtain ⟨_, rfl⟩ := step_accept hstep
    exact hquiet rfl rfl
  | handlerConnect worker created =>
    obtain ⟨pConnect, rest, _, _, rfl⟩ := step_handlerConnect hstep
    exact hquiet rfl (State.handlerConnect_reads _ pConnect created)
  | read bev stack input =>
    obtain ⟨v, actions, _, _, _, rfl⟩ := step_read hstep
    rw [readLogins, List.filterMap_append, Event.logins, received]
    cases loginBody host stack input <;> rfl
  | resume worker =>
    obtain ⟨task, rest, _, rfl⟩ := step_resume hstep
    exact hquiet rfl (State.perform_reads _ task)
  | errorCallBack bev what =>
    obtain ⟨v, _, _, rfl⟩ := step_errorCallBack hstep
    refine hquiet rfl ?_
    split
    · exact s.delete_reads v.arg
    · rfl
  | getAllNode =>
    obtain rfl := step_getAllNode hstep
    refine hquiet rfl ?_
    split
    · rfl
    · rfl
  | delNode strIp stack =>
    obtain rfl := step_delNode hstep
    exact hquiet rfl (s.delNode_reads host stack strIp)

/-- The logins of a run are those that its events read. -/
theorem readLogins_run {es : List Event} (hrun : (system host parse).run es = some s) :
    readLogins s.reads = es.flatMap (Event.logins host parse) := by
  refine System.run_induction (A := fun _ => True)
    (fun es s => readLogins s.reads = es.flatMap (Event.logins host parse)) rfl ?_
    (fun _ _ => trivial) hrun
  intro es s e s' _ h hstep
  rw [readLogins_step hstep, h, List.flatMap_append, List.flatMap_singleton]

/-- A login whose message has this byte as its ip and as its name. -/
def oneByteLogin (b : UInt8) : List UInt8 :=
  [0, 100, 2, 1, 0, 6, 0, 101] ++ List.replicate 16 0 ++ [10, 1, b, 34, 1, b]

end NodeManager.Server
