import NodeManager.Lifetime

/-!
# From the accepted sockets to the bufferevents

As long as no object is deleted, each worker makes one bufferevent for every
socket that was dispatched to it, in the order in which they were accepted and
on its own base. What it has not connected yet is on its list.
-/

namespace NodeManager.Server

open ByteMemory TransitionSystem

/-- What never changes in an object. -/
def identity (x : NodeConnect) : Sock × Worker := (x.sock, x.base)

/-- The sockets of the objects on the list of a worker. -/
def State.queuedSocks (s : State) (worker : Worker) : List Sock :=
  (s.listConnect worker).filterMap fun a => (s.heap a).map (·.sock)

/-- The sockets of the bufferevents on the base of a worker. -/
def State.connectedSocks (s : State) (worker : Worker) : List Sock :=
  (s.bevs.filter (·.base = worker)).map (·.fd)

/-- The sockets in their turn are connected or queued by the worker whose turn
it was. -/
structure Connects (turn : Sock → Worker) (s : State) : Prop where
  order : ∀ worker, s.connectedSocks worker ++ s.queuedSocks worker =
    (List.range s.accepted).filter (turn · = worker)
  based : ∀ {worker a x}, a ∈ s.listConnect worker → s.heap a = some x → x.base = worker

/-- The objects have their identities, and nothing is connected or queued. -/
structure SameLinks (s s' : State) : Prop where
  bevs : s'.bevs = s.bevs
  listConnect : s'.listConnect = s.listConnect
  accepted : s'.accepted = s.accepted
  heap : ∀ a, (s'.heap a).map identity = (s.heap a).map identity

section Steps

variable {host : ByteOrder} {parse : Parser} {turn : Sock → Worker} {s s' : State}

theorem SameLinks.of_heap (hheap : s'.heap = s.heap) (hbevs : s'.bevs = s.bevs)
    (hlist : s'.listConnect = s.listConnect) (haccepted : s'.accepted = s.accepted) :
    SameLinks s s' := ⟨hbevs, hlist, haccepted, fun a => by rw [hheap]⟩

/-- One object changes apart from its identity. -/
theorem map_identity_update {heap : Addr → Option NodeConnect} {a : Addr} {x x' : NodeConnect}
    (hx : heap a = some x) (hsame : identity x' = identity x) (b : Addr) :
    (Function.update heap a (some x') b).map identity = (heap b).map identity := by
  by_cases hb : b = a
  · rw [hb, Function.update_self, hx, Option.map_some, Option.map_some, hsame]
  · rw [Function.update_of_ne hb]

theorem sock_of_identity {o o' : Option NodeConnect}
    (h : o'.map identity = o.map identity) : o'.map (·.sock) = o.map (·.sock) := by
  have hfst := congrArg (Option.map Prod.fst) h
  rw [Option.map_map, Option.map_map] at hfst
  exact hfst

/-- An effect of a callback on a live object. -/
theorem sameLinks_perform {t : Task} {x : NodeConnect} (hx : s.heap t.arg = some x) :
    SameLinks s (s.perform t) := by
  unfold State.perform
  cases t.action with
  | decode msgId body => exact .of_heap rfl rfl rfl rfl
  | setNodeName strName =>
    dsimp only
    rw [State.setNodeName_live hx]
    exact ⟨rfl, rfl, rfl, map_identity_update hx rfl⟩
  | addNode info => exact .of_heap rfl rfl rfl rfl
  | write bytes => exact .of_heap rfl rfl rfl rfl

/-- What neither accepts nor connects keeps the links. -/
theorem Alive.sameLinks (h : Alive s) (hinv : Inv s) {e : Event} (hquiet : ¬Disconnects e)
    (hstep : Server.step host parse s e = some s') :
    (∃ a worker, e = .accept a worker) ∨ (∃ worker, e = .handlerConnect worker true) ∨
      SameLinks s s' := by
  cases e with
  | accept pNodeCon worker => exact Or.inl ⟨pNodeCon, worker, rfl⟩
  | handlerConnect worker created =>
    cases created with
    | false => exact absurd rfl hquiet
    | true => exact Or.inr (Or.inl ⟨worker, rfl⟩)
  | read bev stack input =>
    obtain ⟨v, actions, _, _, _, rfl⟩ := step_read hstep
    exact Or.inr (Or.inr (.of_heap rfl rfl rfl rfl))
  | resume worker =>
    obtain ⟨task, rest, hpending, rfl⟩ := step_resume hstep
    obtain ⟨x, hx, _⟩ := h.task hinv (hpending ▸ List.mem_cons_self)
    have hresumed : { s with
      pending := Function.update s.pending worker rest }.heap task.arg = some x := hx
    obtain ⟨hbevs, hlist, haccepted, hheap⟩ := sameLinks_perform hresumed
    exact Or.inr (Or.inr ⟨hbevs, hlist, haccepted, hheap⟩)
  | errorCallBack bev what =>
    obtain ⟨v, _, _, rfl⟩ := step_errorCallBack hstep
    have hkeep : ¬NodeConnect.errorCallBackDeletes what = true := hquiet
    rw [if_neg hkeep]
    exact Or.inr (Or.inr (.of_heap rfl rfl rfl rfl))
  | getAllNode =>
    obtain rfl := step_getAllNode hstep
    rw [if_neg h.getAllNode]
    exact Or.inr (Or.inr (.of_heap rfl rfl rfl rfl))
  | delNode strIp stack =>
    obtain rfl := step_delNode hstep
    obtain ⟨written, hdel⟩ := h.delNode host stack strIp
    rw [hdel]
    exact Or.inr (Or.inr (.of_heap rfl rfl rfl rfl))

theorem Connects.sameLinks (h : Connects turn s) (hsame : SameLinks s s') : Connects turn s' where
  order := by
    intro worker
    have hsocks : ∀ a, (s'.heap a).map (·.sock) = (s.heap a).map (·.sock) := fun a =>
      sock_of_identity (hsame.heap a)
    simp only [State.connectedSocks, State.queuedSocks, hsame.bevs, hsame.listConnect, hsocks,
      hsame.accepted]
    exact h.order worker
  based := by
    intro worker a x' hmem hx'
    rw [hsame.listConnect] at hmem
    have hidentity := hsame.heap a
    rw [hx', Option.map_some] at hidentity
    obtain ⟨x, hx, heq⟩ := Option.map_eq_some_iff.mp hidentity.symm
    exact (congrArg Prod.snd heq).symm.trans (h.based hmem hx)

/-- The accepted socket goes to the worker whose turn it is. -/
theorem Connects.accept (h : Connects turn s) (halive : Alive s) {a : Addr} {worker : Worker}
    (hturn : turn s.accepted = worker)
    (hstep : Server.step host parse s (.accept a worker) = some s') : Connects turn s' := by
  obtain ⟨hfree, rfl⟩ := step_accept hstep
  have hother : ∀ {w b}, b ∈ s.listConnect w → b ≠ a := by
    rintro w b hmem rfl
    obtain ⟨x, hx⟩ := halive.queued hmem
    rw [hfree] at hx
    cases hx
  have hkept : ∀ w, (s.listConnect w).filterMap (fun b => (Function.update s.heap a
      (some { sock := s.accepted, base := worker }) b).map (·.sock)) = s.queuedSocks w := by
    intro w
    refine List.filterMap_congr fun b hb => ?_
    rw [Function.update_of_ne (hother hb)]
  refine ⟨fun w => ?_, fun {w b x} hmem hx => ?_⟩
  · have horder := h.order w
    rw [State.connectedSocks] at horder ⊢
    rw [State.queuedSocks]
    dsimp only
    rw [List.range_succ, List.filter_append, ← horder, List.append_assoc]
    refine congrArg _ ?_
    by_cases hw : w = worker
    · have hnew : [s.accepted].filter (turn · = w) = [s.accepted] := by
        rw [List.filter_singleton, hturn, decide_eq_true hw.symm, cond_true]
      rw [hw, Function.update_self, List.filterMap_append, hkept, ← hw, hnew, hw]
      simp only [List.filterMap_cons, List.filterMap_nil, Function.update_self, Option.map_some]
    · have hnone : [s.accepted].filter (turn · = w) = [] := by
        rw [List.filter_singleton, hturn, decide_eq_false (Ne.symm hw), cond_false]
      rw [Function.update_of_ne hw, hkept, hnone, List.append_nil]
  · dsimp only at hmem hx
    by_cases hb : b = a
    · have hw : w = worker := by
        by_contra hne
        rw [Function.update_of_ne hne] at hmem
        exact hother hmem hb
      rw [hb, Function.update_self] at hx
      cases hx
      exact hw.symm
    · rw [Function.update_of_ne hb] at hx
      by_cases hw : w = worker
      · rw [hw, Function.update_self] at hmem
        rcases List.mem_append.mp hmem with hold | hnew
        · exact hw ▸ h.based hold hx
        · exact absurd (List.mem_singleton.mp hnew) hb
      · rw [Function.update_of_ne hw] at hmem
        exact h.based hmem hx

/-- The worker connects the first object of its list. -/
theorem Connects.connect (h : Connects turn s) (halive : Alive s) {worker : Worker}
    (hstep : Server.step host parse s (.handlerConnect worker true) = some s') :
    Connects turn s' := by
  obtain ⟨a, rest, x, hlist, hx, rfl⟩ := halive.step_created hstep
  have hbase : x.base = worker := h.based (hlist ▸ List.mem_cons_self) hx
  have hsame : identity { x with bev := some s.bevs.length } = identity x := rfl
  have hsocks : ∀ b, (Function.update s.heap a (some { x with bev := some s.bevs.length }) b).map
      (·.sock) = (s.heap b).map (·.sock) := fun b =>
    sock_of_identity (map_identity_update hx hsame b)
  refine ⟨fun w => ?_, fun {w b y} hmem hy => ?_⟩
  · have horder := h.order w
    simp only [State.connectedSocks, State.queuedSocks, hsocks, List.filter_append,
      List.map_append] at horder ⊢
    rw [← horder, List.append_assoc]
    refine congrArg _ ?_
    by_cases hw : w = worker
    · rw [hw, Function.update_self, hlist, List.filterMap_cons, hx, List.filter_singleton,
        decide_eq_true hbase]
      rfl
    · have hne : ¬x.base = w := fun hsame => hw (hsame.symm.trans hbase)
      rw [Function.update_of_ne hw, List.filter_singleton, decide_eq_false hne]
      rfl
  · dsimp only at hmem hy
    have hqueued : b ∈ s.listConnect w := by
      by_cases hw : w = worker
      · rw [hw, Function.update_self] at hmem
        rw [hw, hlist]
        exact List.mem_cons_of_mem a hmem
      · rwa [Function.update_of_ne hw] at hmem
    by_cases hb : b = a
    · rw [hb, Function.update_self] at hy
      cases hy
      have hbased : x.base = w := h.based hqueued (hb ▸ hx)
      exact hbased
    · rw [Function.update_of_ne hb] at hy
      exact h.based hqueued hy

/-- Every event that deletes nothing keeps the turns, if it accepts in turn. -/
theorem Connects.step (h : Connects turn s) (halive : Alive s) (hinv : Inv s) {e : Event}
    (hquiet : ¬Disconnects e) (hturn : ∀ a worker, e = .accept a worker → turn s.accepted = worker)
    (hstep : Server.step host parse s e = some s') : Connects turn s' := by
  rcases halive.sameLinks hinv hquiet hstep with ⟨a, worker, rfl⟩ | ⟨worker, rfl⟩ | hsame
  · exact h.accept halive (hturn a worker rfl) hstep
  · exact h.connect halive hstep
  · exact h.sameLinks hsame

/-- Only `ListenCallBack` accepts. -/
theorem Alive.accepted_step (h : Alive s) (hinv : Inv s) {e : Event} (hquiet : ¬Disconnects e)
    (hother : ∀ a worker, e ≠ .accept a worker) (hstep : Server.step host parse s e = some s') :
    s'.accepted = s.accepted := by
  rcases h.sameLinks hinv hquiet hstep with ⟨a, worker, rfl⟩ | ⟨worker, rfl⟩ | hsame
  · exact absurd rfl (hother a worker)
  · obtain ⟨a, rest, x, _, _, rfl⟩ := h.step_created hstep
    rfl
  · exact hsame.accepted

end Steps

end NodeManager.Server
