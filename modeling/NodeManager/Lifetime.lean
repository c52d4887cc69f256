import NodeManager.ServerInvariant

/-!
# The lifetime of a connection object

Two code paths delete an object: `ErrorCallBack`, which leaves the
bufferevent behind with a dangling argument and the socket open, and
`HandlerConnect` when no bufferevent could be created, which leaves the
socket open. Until one of them is taken every pointer that the server holds
is to a live object.
-/

namespace NodeManager.Server

open ByteMemory TransitionSystem

/-- The event makes the server delete an object. -/
def Disconnects : Event → Prop
  | .handlerConnect _ created => created = false
  | .errorCallBack _ what => NodeConnect.errorCallBackDeletes what = true
  | _ => False

/-- The socket was closed, directly or by freeing its bufferevent. -/
def SocketClosed (s : State) (k : Sock) : Prop :=
  k ∈ s.closed ∨ ∃ v ∈ s.bevs, v.fd = k ∧ v.freed = true

/-- Callbacks get live objects, and deleted objects leave no open socket. -/
structure LifetimeOk (s : State) : Prop where
  /-- The argument of a bufferevent is the live object of its connection. -/
  argLive : ∀ v ∈ s.bevs, v.freed = false → ∃ x, s.heap v.arg = some x ∧ x.sock = v.fd
  /-- No callback ran on a deleted object, and none was deleted twice. -/
  noFault : s.fault = none
  /-- The socket of a deleted object is closed. -/
  closed : ∀ k ∈ s.deleted, SocketClosed s k

/-- The queued connections, the map entries and the arguments of the
bufferevents are live objects. -/
structure PointsToLive (heap : Addr → Option NodeConnect) (bevs : List BufferEvent)
    (listConnect : Worker → List Addr) (mapNode : AList fun _ : Str => Addr) : Prop where
  queued : ∀ {w a}, a ∈ listConnect w → ∃ x, heap a = some x
  mapped : ∀ {ip a}, mapNode.lookup ip = some a → ∃ x, heap a = some x ∧ x.bev ≠ none
  argLive : ∀ {v}, v ∈ bevs → ∃ x, heap v.arg = some x ∧ x.sock = v.fd ∧ x.base = v.base

/-- All pointers that the server holds are to live objects. -/
def Alive (s : State) : Prop := PointsToLive s.heap s.bevs s.listConnect s.mapNode

namespace PointsToLive

variable {heap heap' : Addr → Option NodeConnect} {bevs : List BufferEvent}
  {listConnect : Worker → List Addr} {mapNode : AList fun _ : Str => Addr} {a : Addr}
  {x x' : NodeConnect}

/-- Objects may appear, and may change apart from socket and base. -/
theorem keep (h : PointsToLive heap bevs listConnect mapNode)
    (hkeep : ∀ {a x}, heap a = some x → ∃ x', heap' a = some x' ∧ x'.sock = x.sock ∧
      x'.base = x.base ∧ (x.bev ≠ none → x'.bev ≠ none)) :
    PointsToLive heap' bevs listConnect mapNode where
  queued := by
    intro w a hmem
    obtain ⟨x, hx⟩ := h.queued hmem
    obtain ⟨x', hx', _⟩ := hkeep hx
    exact ⟨x', hx'⟩
  mapped := by
    intro ip a hlookup
    obtain ⟨x, hx, hne⟩ := h.mapped hlookup
    obtain ⟨x', hx', _, _, hbev⟩ := hkeep hx
    exact ⟨x', hx', hbev hne⟩
  argLive := by
    intro v hv
    obtain ⟨x, hx, hfd, hb⟩ := h.argLive hv
    obtain ⟨x', hx', hsock, hbase, _⟩ := hkeep hx
    exact ⟨x', hx', hsock.trans hfd, hbase.trans hb⟩

theorem update (h : PointsToLive heap bevs listConnect mapNode) (hx : heap a = some x)
    (hsock : x'.sock = x.sock) (hbase : x'.base = x.base) (hbev : x.bev ≠ none → x'.bev ≠ none) :
    PointsToLive (Function.update heap a (some x')) bevs listConnect mapNode := by
  refine h.keep ?_
  intro a' y hy
  by_cases hsame : a' = a
  · rw [hsame, hx, Option.some.injEq] at hy
    subst hy
    exact ⟨x', by rw [hsame, Function.update_self], hsock, hbase, hbev⟩
  · exact ⟨y, by rw [Function.update_of_ne hsame, hy], rfl, rfl, id⟩

/-- A new object at a free address is queued for a worker. -/
theorem enqueue (h : PointsToLive heap bevs listConnect mapNode) (hfree : heap a = none)
    (worker : Worker) : PointsToLive (Function.update heap a (some x')) bevs
      (Function.update listConnect worker (listConnect worker ++ [a])) mapNode := by
  have hkept : PointsToLive (Function.update heap a (some x')) bevs listConnect mapNode := by
    refine h.keep ?_
    intro a' y hy
    have hne : a' ≠ a := by
      intro hsame
      rw [hsame, hfree] at hy
      cases hy
    exact ⟨y, by rw [Function.update_of_ne hne, hy], rfl, rfl, id⟩
  refine ⟨?_, hkept.mapped, hkept.argLive⟩
  intro w a' hmem
  by_cases hw : w = worker
  · rw [hw, Function.update_self] at hmem
    rcases List.mem_append.mp hmem with hold | hnew
    · exact hkept.queued hold
    · rw [List.mem_singleton.mp hnew]
      exact ⟨x', Function.update_self ..⟩
  · rw [Function.update_of_ne hw] at hmem
    exact hkept.queued hmem

/-- The connections that are still to be taken off a list stay queued. -/
theorem dequeue (h : PointsToLive heap bevs listConnect mapNode) {worker : Worker}
    {rest : List Addr} (hlist : listConnect worker = a :: rest) :
    PointsToLive heap bevs (Function.update listConnect worker rest) mapNode := by
  refine ⟨?_, h.mapped, h.argLive⟩
  intro w a' hmem
  by_cases hw : w = worker
  · rw [hw, Function.update_self] at hmem
    exact h.queued (hlist ▸ List.mem_cons_of_mem a hmem)
  · rw [Function.update_of_ne hw] at hmem
    exact h.queued hmem

/-- The new bufferevent of an object gets the object as its argument. -/
theorem connect (h : PointsToLive heap bevs listConnect mapNode) (hx : heap a = some x) :
    PointsToLive (Function.update heap a (some { x with bev := some bevs.length }))
      (bevs ++ [{ fd := x.sock, base := x.base, arg := a }]) listConnect mapNode := by
  have hkept : PointsToLive (Function.update heap a (some { x with bev := some bevs.length }))
      bevs listConnect mapNode := h.update hx rfl rfl fun _ => Option.some_ne_none _
  refine ⟨hkept.queued, hkept.mapped, ?_⟩
  intro v hv
  rcases List.mem_append.mp hv with hold | hnew
  · exact hkept.argLive hold
  · rw [List.mem_singleton.mp hnew]
    exact ⟨_, Function.update_self .., rfl, rfl⟩

/-- An object with a bufferevent may be registered. -/
theorem register (h : PointsToLive heap bevs listConnect mapNode) (hx : heap a = some x)
    (hbev : x.bev ≠ none) (strIp : Str) :
    PointsToLive heap bevs listConnect (mapNode.insert strIp a) := by
  refine ⟨h.queued, ?_, h.argLive⟩
  intro ip a' hlookup
  by_cases hip : ip = strIp
  · rw [hip, AList.lookup_insert, Option.some.injEq] at hlookup
    exact ⟨x, hlookup ▸ hx, hbev⟩
  · rw [AList.lookup_insert_ne hip] at hlookup
    exact h.mapped hlookup

end PointsToLive

section Effects

variable {s : State}

theorem Alive.init : Alive State.init :=
  ⟨fun h => (nomatch h), fun h => (nomatch h), fun h => (nomatch h)⟩

/-- The object of a pending task is live and has a bufferevent. -/
theorem Alive.task (h : Alive s) (hinv : Inv s) {w : Worker} {t : Task} (ht : t ∈ s.pending w) :
    ∃ x, s.heap t.arg = some x ∧ x.bev ≠ none ∧ x.base = w := by
  obtain ⟨v, hv, hw, harg⟩ := hinv.1.taskBev ht
  obtain ⟨x, hx, hfd, hbase⟩ := h.argLive (List.mem_of_getElem? hv)
  rw [harg] at hx
  exact ⟨x, hx, hinv.1.bevSet hx (List.mem_of_getElem? hv) hfd.symm, hbase.trans hw⟩

/-- An effect of a callback on a live object finds what it needs. -/
theorem Alive.perform (h : Alive s) {t : Task} {x : NodeConnect} (hx : s.heap t.arg = some x)
    (hbev : x.bev ≠ none) : Alive (s.perform t) ∧ (s.perform t).deleted = s.deleted ∧
      (s.perform t).fault = s.fault := by
  unfold State.perform
  cases t.action with
  | decode msgId body => exact ⟨h, rfl, rfl⟩
  | setNodeName strName =>
    dsimp only
    rw [State.setNodeName_live hx]
    have hkept : ({ x with strNodeName := strName } : NodeConnect).bev ≠ none := hbev
    exact ⟨h.update hx rfl rfl fun _ => hkept, rfl, rfl⟩
  | addNode info => exact ⟨h.register hx hbev info.strIp, rfl, rfl⟩
  | write bytes =>
    have hwritten : Alive (s.buffereventWrite t.bev bytes) := h
    exact ⟨hwritten, rfl, rfl⟩

/-- A close request finds a live object with a bufferevent. -/
theorem Alive.delNode (h : Alive s) (host : ByteOrder) (stack : Stack) (ip : Str) :
    ∃ written, s.delNode host stack ip = { s with written } := by
  cases hlookup : s.mapNode.lookup ip with
  | none => exact ⟨s.written, State.delNode_unmapped stack hlookup⟩
  | some a =>
    obtain ⟨x, hx, hbev⟩ := h.mapped hlookup
    obtain ⟨b, hb⟩ := Option.ne_none_iff_exists'.mp hbev
    obtain ⟨frame, _, hdel⟩ := State.delNode_of_bev stack hlookup hx hb
    exact ⟨_, hdel⟩

theorem Alive.getAllNode (h : Alive s) : s.getAllNode ≠ none := by
  refine State.getAllNode_ne_none fun ip a hlookup => ?_
  obtain ⟨x, hx, _⟩ := h.mapped hlookup
  exact ⟨x, hx⟩

end Effects

variable {host : ByteOrder} {parse : Parser} {s s' : State}

/-- A worker finds the object that it takes off its list live. -/
theorem Alive.step_created (h : Alive s) {worker : Worker}
    (hstep : Server.step host parse s (.handlerConnect worker true) = some s') :
    ∃ pConnect rest x, s.listConnect worker = pConnect :: rest ∧ s.heap pConnect = some x ∧
      s' = { s with
        listConnect := Function.update s.listConnect worker rest
        heap := Function.update s.heap pConnect (some { x with bev := some s.bevs.length })
        bevs := s.bevs ++ [{ fd := x.sock, base := x.base, arg := pConnect }] } := by
  obtain ⟨pConnect, rest, hlist, _, rfl⟩ := step_handlerConnect hstep
  obtain ⟨x, hx⟩ := h.queued (hlist ▸ List.mem_cons_self : pConnect ∈ s.listConnect worker)
  have hpopped : { s with
    listConnect := Function.update s.listConnect worker rest }.heap pConnect = some x := hx
  exact ⟨pConnect, rest, x, hlist, hx, State.handlerConnect_created hpopped⟩

/-- An event that deletes nothing keeps all pointers to live objects. -/
theorem Alive.step (h : Alive s) (hinv : Inv s) {e : Event} (hquiet : ¬Disconnects e)
    (hstep : Server.step host parse s e = some s') :
    Alive s' ∧ s'.deleted = s.deleted ∧ s'.fault = none := by
  have hf := fault_of_step hstep
  cases e with
  | accept pNodeCon worker =>
    obtain ⟨hfree, rfl⟩ := step_accept hstep
    exact ⟨h.enqueue hfree worker, rfl, hf⟩
  | handlerConnect worker created =>
    cases created with
    | false => exact absurd rfl hquiet
    | true =>
      obtain ⟨pConnect, rest, x, hlist, hx, rfl⟩ := h.step_created hstep
      exact ⟨(h.dequeue hlist).connect hx, rfl, hf⟩
  | read bev stack input =>
    obtain ⟨v, actions, _, _, _, rfl⟩ := step_read hstep
    have hread : Alive { s with
        pending := Function.update s.pending v.base (actions.map (Task.mk bev v.arg)) } := h
    exact ⟨hread, rfl, hf⟩
  | resume worker =>
    obtain ⟨task, rest, hpending, rfl⟩ := step_resume hstep
    obtain ⟨x, hx, hbev, _⟩ := h.task hinv (hpending ▸ List.mem_cons_self)
    have hresumed : Alive { s with pending := Function.update s.pending worker rest } := h
    obtain ⟨halive, hdeleted, hfault⟩ := hresumed.perform hx hbev
    exact ⟨halive, hdeleted, hfault.trans hf⟩
  | errorCallBack bev what =>
    obtain ⟨v, _, _, rfl⟩ := step_errorCallBack hstep
    have hkeep : ¬NodeConnect.errorCallBackDeletes what = true := hquiet
    rw [if_neg hkeep]
    exact ⟨h, rfl, hf⟩
  | getAllNode =>
    obtain rfl := step_getAllNode hstep
    rw [if_neg h.getAllNode]
    exact ⟨h, rfl, hf⟩
  | delNode strIp stack =>
    obtain rfl := step_delNode hstep
    obtain ⟨written, hdel⟩ := h.delNode host stack strIp
    rw [hdel]
    have hwritten : Alive { s with written } := h
    exact ⟨hwritten, rfl, hf⟩

/-- An event that deletes an object does delete one. -/
theorem Alive.deleted_of_disconnect (h : Alive s) {e : Event} (hdeletes : Disconnects e)
    (hstep : Server.step host parse s e = some s') : s'.deleted ≠ [] := by
  cases e with
  | handlerConnect worker created =>
    obtain ⟨pConnect, rest, hlist, _, rfl⟩ := step_handlerConnect hstep
    obtain ⟨x, hx⟩ := h.queued (hlist ▸ List.mem_cons_self : pConnect ∈ s.listConnect worker)
    have hfailed : created = false := hdeletes
    have hpopped : { s with
      listConnect := Function.update s.listConnect worker rest }.heap pConnect = some x := hx
    rw [hfailed, State.handlerConnect_failed hpopped, State.delete_live hpopped]
    exact List.append_ne_nil_of_right_ne_nil _ (List.cons_ne_nil _ _)
  | errorCallBack bev what =>
    obtain ⟨v, hv, _, rfl⟩ := step_errorCallBack hstep
    obtain ⟨x, hx, _⟩ := h.argLive (List.mem_of_getElem? hv)
    have hdelete : NodeConnect.errorCallBackDeletes what = true := hdeletes
    rw [if_pos hdelete, State.delete_live hx]
    exact List.append_ne_nil_of_right_ne_nil _ (List.cons_ne_nil _ _)
  | accept => exact absurd hdeletes id
  | read => exact absurd hdeletes id
  | resume => exact absurd hdeletes id
  | getAllNode => exact absurd hdeletes id
  | delNode => exact absurd hdeletes id

/-- The deleted sockets only become more. -/
theorem deleted_subset {e : Event} (hstep : Server.step host parse s e = some s')
    (hnone : s'.deleted = []) : s.deleted = [] := by
  have hdelete : ∀ (t : State) a, (t.delete a).deleted = [] → t.deleted = [] := by
    intro t a hnil
    unfold State.delete at hnil
    split at hnil
    · exact hnil
    · exact (List.append_eq_nil_iff.mp hnil).1
  cases e with
  | accept pNodeCon worker =>
    obtain ⟨_, rfl⟩ := step_accept hstep
    exact hnone
  | handlerConnect worker created =>
    obtain ⟨pConnect, rest, _, _, rfl⟩ := step_handlerConnect hstep
    unfold State.handlerConnect at hnone
    split at hnone
    · exact hnone
    · split at hnone
      · exact hnone
      · have hpopped := hdelete { s with
          listConnect := Function.update s.listConnect worker rest } pConnect hnone
        exact hpopped
  | read bev stack input =>
    obtain ⟨v, actions, _, _, _, rfl⟩ := step_read hstep
    exact hnone
  | resume worker =>
    obtain ⟨task, rest, _, rfl⟩ := step_resume hstep
    unfold State.perform at hnone
    split at hnone
    · exact hnone
    · unfold State.setNodeName at hnone
      split at hnone
      · exact hnone
      · exact hnone
    · exact hnone
    · exact hnone
  | errorCallBack bev what =>
    obtain ⟨v, _, _, rfl⟩ := step_errorCallBack hstep
    split at hnone
    · exact hdelete _ _ hnone
    · exact hnone
  | getAllNode =>
    obtain rfl := step_getAllNode hstep
    split at hnone
    · exact hnone
    · exact hnone
  | delNode strIp stack =>
    obtain rfl := step_delNode hstep
    unfold State.delNode State.sendReqCloseNode at hnone
    split at hnone
    · exact hnone
    · split at hnone
      · exact hnone
      · split at hnone
        · exact hnone
        · exact hnone
        · exact hnone

/-- The server closes no socket. -/
theorem Inv.open (h : Inv s) (k : Sock) : ¬SocketClosed s k := by
  rintro (hclosed | ⟨v, hv, _, hfreed⟩)
  · rw [h.2] at hclosed
    cases hclosed
  · rw [h.1.notFreed hv] at hfreed
    cases hfreed

/-- Every deletion leaves a socket open. -/
theorem LifetimeOk.deleted_nil (hok : LifetimeOk s) (h : Inv s) : s.deleted = [] :=
  List.eq_nil_iff_forall_not_mem.mpr fun k hk => h.open k (hok.closed k hk)

/-- A state in which nothing has been deleted has only live pointers. -/
def Undisturbed (s : State) : Prop := Inv s ∧ (s.deleted = [] → Alive s)

/-- One step keeps the lifetimes right exactly when it deletes nothing. -/
theorem lifetimeOk_step (h : Undisturbed s) (hok : LifetimeOk s) {e : Event}
    (hstep : step host parse s e = some s') : LifetimeOk s' ↔ ¬Disconnects e := by
  have halive := h.2 (hok.deleted_nil h.1)
  constructor
  · intro hok' hdeletes
    exact halive.deleted_of_disconnect hdeletes hstep (hok'.deleted_nil (h.1.step hstep))
  · intro hquiet
    obtain ⟨halive', hdeleted, hfault⟩ := halive.step h.1 hquiet hstep
    refine ⟨fun v hv _ => ?_, hfault, ?_⟩
    · obtain ⟨x, hx, hfd, _⟩ := halive'.argLive hv
      exact ⟨x, hx, hfd⟩
    · rw [hdeleted, hok.deleted_nil h.1]
      exact fun k hk => nomatch hk

/-- In a run of any events the callbacks always have live objects and no
socket of a deleted object stays open exactly when no event deletes an
object, that is, as long as no connection ends. -/
theorem lifetime_along (host : ByteOrder) (parse : Parser) (es : List Event) :
    (system host parse).Along LifetimeOk State.init es ↔
      (system host parse).Guarded (fun _ e => ¬Disconnects e) State.init es := by
  have hkeep : ∀ (s : State) (e : Event) (s' : State), True → Undisturbed s →
      (system host parse).step s e = some s' → Undisturbed s' := by
    intro s e s' _ h hstep
    refine ⟨h.1.step hstep, fun hnone => ?_⟩
    have halive := h.2 (deleted_subset hstep hnone)
    by_cases hquiet : Disconnects e
    · exact absurd hnone (halive.deleted_of_disconnect hquiet hstep)
    · exact (halive.step h.1 hquiet hstep).1
  have hiff : ∀ (s : State) (e : Event) (s' : State), True → Undisturbed s → LifetimeOk s →
      (system host parse).step s e = some s' → (LifetimeOk s' ↔ ¬Disconnects e) :=
    fun s e s' _ h hok hstep => lifetimeOk_step h hok hstep
  have hinit : LifetimeOk State.init :=
    ⟨fun v hv => (nomatch hv), rfl, fun k hk => (nomatch hk)⟩
  exact System.along_iff_guarded hkeep hiff ⟨Inv.init, fun _ => Alive.init⟩ hinit
    fun _ _ => trivial

/-- An end of file deletes the object; the bufferevent keeps pointing at it,
and the socket stays open. -/
theorem lifetime_after_eof : ¬∀ (host : ByteOrder) (parse : Parser) (es : List Event),
    (system host parse).Along LifetimeOk State.init es := by
  intro h
  let parse : Parser := fun _ => (false, {})
  let es : List Event := [.accept 0 0, .handlerConnect 0 true,
    .errorCallBack 0 bevEventEof]
  have hrun : ((system .little parse).run es).any (fun s =>
      s.heap 0 = none ∧ s.bevs = [⟨0, 0, 0, false⟩]) = true := by decide +kernel
  obtain ⟨s, hs, hboth⟩ := (Option.any_eq_true _ _).mp hrun
  obtain ⟨hgone, hbevs⟩ := of_decide_eq_true hboth
  have hok := (h .little parse es).of_runFrom hs
  obtain ⟨x, hx, _⟩ := hok.argLive ⟨0, 0, 0, false⟩ (by rw [hbevs]; exact List.mem_cons_self) rfl
  rw [hgone] at hx
  cases hx

end NodeManager.Server
