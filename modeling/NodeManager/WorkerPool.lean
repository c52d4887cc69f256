import NodeManager.Library.Dealing
import NodeManager.ThreadPool
import NodeManager.Xthread

/-!
# The dispatcher with all of its workers

`XThreadPool::DispatchThread` hands each connection to the thread whose turn it
is, and every thread takes its connections off its own list, interleaved with
the dispatcher and with the other threads. The threads are set up; the
dispatcher is one thread and ends one dispatch before it starts the next.
-/

namespace NodeManager.WorkerPool

open TransitionSystem ThreadPool Dealing

variable {Node : Type}

/-- The pool with its threads. -/
structure State (Node : Type) where
  pool : XThreadPool
  /-- The threads of `m_vecThread`, by their index. -/
  thread : ℕ → Xthread.State Node
  /-- The thread that `AddConnect` was called on and `Active` was not yet. -/
  active : Option ℕ
  /-- The undefined behaviour that has ended the run. -/
  fault : Option ThreadPool.Fault

/-- The pool after `Init`. -/
def State.init (nThreadCount : Int32) : State Node where
  pool := XThreadPool.init {} nThreadCount
  thread := fun _ => {}
  active := none
  fault := none

/-- The atomic steps of the dispatcher and the threads. -/
inductive Event (Node : Type)
  /-- `DispatchThread` selects a thread and calls `AddConnect` on it. -/
  | dispatch (pNode : Node)
  /-- `DispatchThread` calls `Active`, which writes its byte or fails to. -/
  | active (written : Bool)
  /-- A thread goes on in `Notify`. -/
  | notify (index : ℕ) (e : Xthread.Event Node)
  deriving DecidableEq

/-- The steps of a thread in `Notify`. -/
def isNotify : Xthread.Event Node → Bool
  | .readByte => true
  | .popFront => true
  | .handlerConnect => true
  | _ => false

variable (overflow : SignedOverflow) (nThreadCount : Int32)

/-- The effect of an event that can happen. -/
def step (s : State Node) (e : Event Node) : Option (State Node) :=
  if s.fault ≠ none then none
  else match e with
  | .dispatch pNode =>
    if s.active ≠ none then none
    else match s.pool.dispatchThread overflow (some pNode) with
    | .error fault => some { s with fault := some fault }
    | .ok (_, none) => none
    | .ok (pool, some index) =>
      (Xthread.step (s.thread index) (.addConnect pNode)).map fun t =>
        { s with pool, thread := Function.update s.thread index t, active := some index }
  | .active written =>
    match s.active with
    | none => none
    | some index => (Xthread.step (s.thread index) (.active written)).map fun t =>
      { s with thread := Function.update s.thread index t, active := none }
  | .notify index e =>
    if isNotify e then (Xthread.step (s.thread index) e).map fun t =>
      { s with thread := Function.update s.thread index t }
    else none

/-- The pool from the end of its `Init`. -/
def system (Node : Type) (overflow : SignedOverflow) (nThreadCount : Int32) :
    System (State Node) (Event Node) := ⟨State.init nThreadCount, step overflow⟩

/-- The connections dispatched by a list of events, oldest first. -/
def dispatched (es : List (Event Node)) : List Node :=
  es.filterMap fun
    | .dispatch pNode => some pNode
    | _ => none

/-- The connections of a thread: handled, in its hand and on its list. -/
def connectionsOf (s : Xthread.State Node) : List Node :=
  s.handled ++ s.worker.inHand ++ s.listConnect

/-- Nothing is going on and no byte waits. -/
structure Quiescent (s : State Node) : Prop where
  dispatcher : s.active = none
  thread : ∀ index, (s.thread index).pipe = 0 ∧ (s.thread index).worker = .idle

/-- Every connection is with the thread whose turn it was, and has its byte. -/
structure Dealt (es : List (Event Node)) (s : State Node) : Prop where
  fault : s.fault = none
  pool : s.pool = poolAt nThreadCount (dispatched es).length
  order : ∀ index, connectionsOf (s.thread index) =
    hand nThreadCount.toInt.toNat index (dispatched es)
  counted : ∀ index, Xthread.Counted (s.thread index)
  pushed : ∀ index, (s.thread index).dispatcher = .pushed ↔ s.active = some index

section Steps

variable {overflow nThreadCount} {s s' : State Node} {es : List (Event Node)}

theorem fault_of_step {e : Event Node} (h : step overflow s e = some s') : s.fault = none := by
  by_contra hfault
  unfold step at h
  rw [if_pos hfault] at h
  cases h

theorem step_active {written : Bool} (h : step overflow s (.active written) = some s') :
    ∃ index t, s.active = some index ∧
      Xthread.step (s.thread index) (.active written) = some t ∧
      s' = { s with thread := Function.update s.thread index t, active := none } := by
  have hok := fault_of_step h
  rw [step, if_neg (not_not.mpr hok)] at h
  split at h
  · cases h
  · next index hactive =>
    obtain ⟨t, ht, rfl⟩ := Option.map_eq_some_iff.mp h
    exact ⟨index, t, hactive, ht, rfl⟩

theorem step_notify {index : ℕ} {e : Xthread.Event Node}
    (h : step overflow s (.notify index e) = some s') : isNotify e = true ∧ ∃ t,
      Xthread.step (s.thread index) e = some t ∧
      s' = { s with thread := Function.update s.thread index t } := by
  have hok := fault_of_step h
  rw [step, if_neg (not_not.mpr hok)] at h
  split at h
  · next hnotify =>
    obtain ⟨t, ht, rfl⟩ := Option.map_eq_some_iff.mp h
    exact ⟨hnotify, t, ht, rfl⟩
  · cases h

/-- Before the counter overflows the thread is the one whose turn it is. -/
theorem dispatchThread_inTurn (overflow : SignedOverflow) (hcount : 1 ≤ nThreadCount.toInt)
    {dispatches : ℕ} (hfew : dispatches < 2 ^ 31) (pNode : Node) :
    (poolAt nThreadCount dispatches).dispatchThread overflow (some pNode) =
      .ok (poolAt nThreadCount (dispatches + 1), some (dispatches % nThreadCount.toInt.toNat)) := by
  have hmax : (poolAt nThreadCount dispatches).indexLastUseThread ≠ Int32.maxValue := by
    rw [Ne, counter_eq_max_iff nThreadCount (by omega)]
    omega
  rw [dispatchThread_poolAt overflow hcount, if_neg fun hboth => hmax hboth.1,
    indexAt_of_lt hcount hfew, if_pos (Int.natCast_nonneg _), Int.toNat_natCast]

theorem step_dispatch (hcount : 1 ≤ nThreadCount.toInt) {dispatches : ℕ}
    (hfew : dispatches < 2 ^ 31) (hpool : s.pool = poolAt nThreadCount dispatches) {pNode : Node}
    (h : step overflow s (.dispatch pNode) = some s') : s.active = none ∧ ∃ t,
      Xthread.step (s.thread (dispatches % nThreadCount.toInt.toNat)) (.addConnect pNode) =
        some t ∧
      s' = { s with
        pool := poolAt nThreadCount (dispatches + 1)
        thread := Function.update s.thread (dispatches % nThreadCount.toInt.toNat) t
        active := some (dispatches % nThreadCount.toInt.toNat) } := by
  have hok := fault_of_step h
  rw [step, if_neg (not_not.mpr hok)] at h
  split at h
  · cases h
  · next hidle =>
    rw [hpool, dispatchThread_inTurn overflow hcount hfew] at h
    obtain ⟨t, ht, rfl⟩ := Option.map_eq_some_iff.mp h
    exact ⟨not_not.mp hidle, t, ht, rfl⟩

/-- A dispatch goes to some thread, or the counter has gone wrong. -/
theorem step_dispatch_cases {pNode : Node} (h : step overflow s (.dispatch pNode) = some s') :
    s.active = none ∧ ((∃ fault, s' = { s with fault := some fault }) ∨ ∃ pool index t,
      Xthread.step (s.thread index) (.addConnect pNode) = some t ∧
      s' = { s with
        pool
        thread := Function.update s.thread index t
        active := some index }) := by
  have hok := fault_of_step h
  rw [step, if_neg (not_not.mpr hok)] at h
  split at h
  · cases h
  · next hidle =>
    refine ⟨not_not.mp hidle, ?_⟩
    split at h
    · next fault _ => exact Or.inl ⟨fault, (Option.some.inj h).symm⟩
    · cases h
    · next pool index _ =>
      obtain ⟨t, ht, rfl⟩ := Option.map_eq_some_iff.mp h
      exact Or.inr ⟨pool, index, t, ht, rfl⟩

/-- A step of the hand-off adds the connection that it dispatches, if any. -/
theorem connectionsOf_step {s s' : Xthread.State Node} {e : Xthread.Event Node}
    (hstep : Xthread.step s e = some s') :
    connectionsOf s' = connectionsOf s ++ Xthread.dispatched [e] := by
  have hself : Xthread.dispatched ((connectionsOf s).map .addConnect) = connectionsOf s := by
    rw [Xthread.dispatched, List.filterMap_map]
    exact List.filterMap_some
  have horder : Xthread.InOrder ((connectionsOf s).map .addConnect) s := hself.symm
  have hnext := horder.step hstep
  rw [Xthread.InOrder, Xthread.dispatched_append, hself] at hnext
  exact hnext

/-- Where the dispatcher stands with a thread. -/
theorem dispatcher_step {s s' : Xthread.State Node} {e : Xthread.Event Node}
    (hstep : Xthread.step s e = some s') :
    (isNotify e = true → s'.dispatcher = s.dispatcher) ∧
      ∀ written, e = .active written → s'.dispatcher = .idle := by
  rcases Xthread.step_cases hstep with ⟨pNode, rfl, _, rfl⟩ | ⟨written, rfl, _, rfl⟩ |
    ⟨pipe, rfl, _, _, rfl⟩ | ⟨rfl, _, _, rfl⟩ | ⟨pConnect, rest, rfl, _, _, rfl⟩ |
    ⟨pConnect, rfl, _, rfl⟩
  · exact ⟨fun hnotify => (nomatch hnotify), fun _ heq => nomatch heq⟩
  · exact ⟨fun hnotify => (nomatch hnotify), fun _ _ => rfl⟩
  · exact ⟨fun _ => rfl, fun _ heq => nomatch heq⟩
  · exact ⟨fun _ => rfl, fun _ heq => nomatch heq⟩
  · exact ⟨fun _ => rfl, fun _ heq => nomatch heq⟩
  · exact ⟨fun _ => rfl, fun _ heq => nomatch heq⟩

/-- A dispatch has pushed its connection. -/
theorem dispatcher_addConnect {s s' : Xthread.State Node} {pNode : Node}
    (hstep : Xthread.step s (.addConnect pNode) = some s') : s'.dispatcher = .pushed := by
  rcases Xthread.step_cases hstep with ⟨_, _, _, rfl⟩ | ⟨_, he, _⟩ | ⟨_, he, _⟩ | ⟨he, _⟩ |
    ⟨_, _, he, _⟩ | ⟨_, he, _⟩
  · rfl
  all_goals cases he

theorem dispatched_append (es : List (Event Node)) (e : Event Node) :
    dispatched (es ++ [e]) = dispatched es ++ dispatched [e] := List.filterMap_append

/-- The initial pool has nothing to hand on. -/
theorem Dealt.init : Dealt nThreadCount [] (State.init nThreadCount : State Node) where
  fault := rfl
  pool := init_eq_poolAt nThreadCount
  order := fun _ => rfl
  counted := fun _ => rfl
  pushed := fun _ => ⟨fun h => (nomatch h), fun h => (nomatch h)⟩

theorem Dealt.dispatch (h : Dealt nThreadCount es s) (hcount : 1 ≤ nThreadCount.toInt)
    (hfew : (dispatched es).length < 2 ^ 31) {pNode : Node}
    (hstep : step overflow s (.dispatch pNode) = some s') :
    Dealt nThreadCount (es ++ [.dispatch pNode]) s' := by
  obtain ⟨hidle, t, ht, rfl⟩ := step_dispatch hcount hfew h.pool hstep
  have hmore : dispatched (es ++ [.dispatch pNode]) = dispatched es ++ [pNode] :=
    dispatched_append es _
  refine ⟨h.fault, ?_, fun index => ?_, fun index => ?_, fun index => ?_⟩
  · rw [hmore, List.length_append]
    rfl
  · rw [hmore, hand_concat]
    dsimp only
    by_cases hturn : (dispatched es).length % nThreadCount.toInt.toNat = index
    · rw [hturn, Function.update_self, if_pos rfl, ← h.order index, ← hturn]
      exact connectionsOf_step ht
    · rw [Function.update_of_ne (Ne.symm hturn), if_neg hturn, List.append_nil]
      exact h.order index
  · dsimp only
    by_cases hturn : index = (dispatched es).length % nThreadCount.toInt.toNat
    · have hadd : Xthread.Event.addConnect pNode ≠ .active false := fun heq => nomatch heq
      rw [hturn, Function.update_self]
      exact (h.counted _).step hadd ht
    · rw [Function.update_of_ne hturn]
      exact h.counted index
  · dsimp only
    by_cases hturn : index = (dispatched es).length % nThreadCount.toInt.toNat
    · rw [hturn, Function.update_self]
      exact iff_of_true (dispatcher_addConnect ht) rfl
    · rw [Function.update_of_ne hturn, h.pushed, hidle, Option.some.injEq]
      exact iff_of_false (Option.some_ne_none _).symm (Ne.symm hturn)

/-- A step of one thread, or of the dispatcher with it, that dispatches nothing. -/
theorem Dealt.thread (h : Dealt nThreadCount es s) {e : Event Node} (hnone : dispatched [e] = [])
    {index : ℕ} {f : Xthread.Event Node} {t : Xthread.State Node} {active : Option ℕ}
    (hstep : Xthread.step (s.thread index) f = some t) (hwrite : f ≠ .active false)
    (hquiet : Xthread.dispatched [f] = [])
    (hpushed : t.dispatcher = .pushed ↔ active = some index)
    (hothers : ∀ other, other ≠ index → (s.active = some other ↔ active = some other)) :
    Dealt nThreadCount (es ++ [e])
      { s with thread := Function.update s.thread index t, active } := by
  have hsame : dispatched (es ++ [e]) = dispatched es := by
    rw [dispatched_append, hnone, List.append_nil]
  refine ⟨h.fault, ?_, fun other => ?_, fun other => ?_, fun other => ?_⟩
  · rw [hsame]
    exact h.pool
  · rw [hsame, ← h.order other]
    dsimp only
    by_cases hown : other = index
    · rw [hown, Function.update_self, connectionsOf_step hstep, hquiet, List.append_nil]
    · rw [Function.update_of_ne hown]
  · dsimp only
    by_cases hown : other = index
    · rw [hown, Function.update_self]
      exact (h.counted index).step hwrite hstep
    · rw [Function.update_of_ne hown]
      exact h.counted other
  · dsimp only
    by_cases hown : other = index
    · rw [hown, Function.update_self]
      exact hpushed
    · rw [Function.update_of_ne hown]
      exact (h.pushed other).trans (hothers other hown)

/-- Every event in which no write fails keeps the connections dealt. -/
theorem Dealt.step {e : Event Node} (h : Dealt nThreadCount es s)
    (hcount : 1 ≤ nThreadCount.toInt) (hwrite : e ≠ .active false)
    (hfew : (dispatched (es ++ [e])).length ≤ 2 ^ 31)
    (hstep : WorkerPool.step overflow s e = some s') : Dealt nThreadCount (es ++ [e]) s' := by
  cases e with
  | dispatch pNode =>
    refine h.dispatch hcount ?_ hstep
    rw [dispatched_append, List.length_append] at hfew
    exact hfew
  | active written =>
    obtain ⟨index, t, hactive, ht, rfl⟩ := step_active hstep
    refine h.thread rfl ht (fun heq => hwrite ?_) rfl ?_ ?_
    · cases heq
      rfl
    · rw [(dispatcher_step ht).2 written rfl]
      exact iff_of_false Xthread.Dispatcher.noConfusion (Option.some_ne_none _).symm
    · intro other hne
      rw [hactive, Option.some.injEq]
      exact iff_of_false (Ne.symm hne) (Option.some_ne_none _).symm
  | notify index f =>
    obtain ⟨hnotify, t, ht, rfl⟩ := step_notify hstep
    refine h.thread rfl ht ?_ ?_ ?_ fun _ _ => Iff.rfl
    · rintro rfl
      cases hnotify
    · cases f with
      | addConnect => cases hnotify
      | _ => rfl
    · rw [(dispatcher_step ht).1 hnotify]
      exact h.pushed index

/-- In a quiescent pool no connection waits. -/
theorem Dealt.listConnect_eq_nil (h : Dealt nThreadCount es s) (hquiet : Quiescent s) (index : ℕ) :
    (s.thread index).listConnect = [] := by
  obtain ⟨hpipe, hworker⟩ := hquiet.thread index
  have hdispatcher : (s.thread index).dispatcher = .idle := by
    cases hd : (s.thread index).dispatcher with
    | idle => rfl
    | pushed =>
      have hactive := (h.pushed index).mp hd
      rw [hquiet.dispatcher] at hactive
      cases hactive
  exact (h.counted index).empty_of_quiescent hpipe hdispatcher hworker

/-- In a quiescent pool each thread has handled its connections. -/
theorem Dealt.handled (h : Dealt nThreadCount es s) (hquiet : Quiescent s) (index : ℕ) :
    (s.thread index).handled = hand nThreadCount.toInt.toNat index (dispatched es) := by
  have horder := h.order index
  rw [connectionsOf, h.listConnect_eq_nil hquiet, (hquiet.thread index).2, List.append_nil]
    at horder
  exact (List.append_nil _).symm.trans horder

/-- Together they have handled every connection once. -/
theorem Dealt.handled_perm (h : Dealt nThreadCount es s) (hcount : 1 ≤ nThreadCount.toInt)
    (hquiet : Quiescent s) : ((List.range nThreadCount.toInt.toNat).flatMap fun index =>
      (s.thread index).handled).Perm (dispatched es) := by
  have hpos : 0 < nThreadCount.toInt.toNat := by omega
  simp only [h.handled hquiet]
  exact flatMap_hand_perm hpos _

end Steps

variable {overflow nThreadCount} {es : List (Event Node)} {s : State Node}

theorem dealt_run (hcount : 1 ≤ nThreadCount.toInt) (hwrites : ∀ e ∈ es, e ≠ .active false)
    (hfew : (dispatched es).length ≤ 2 ^ 31)
    (hrun : (system Node overflow nThreadCount).run es = some s) : Dealt nThreadCount es s := by
  have hinvariant : (dispatched es).length ≤ 2 ^ 31 → Dealt nThreadCount es s := by
    refine System.run_induction
      (fun es s => (dispatched es).length ≤ 2 ^ 31 → Dealt nThreadCount es s)
      (fun _ => Dealt.init) ?_ hwrites hrun
    intro es s e s' hwrite h hstep hfew
    have hbefore : (dispatched es).length ≤ 2 ^ 31 := by
      rw [dispatched_append, List.length_append] at hfew
      omega
    exact (h hbefore).step hcount hwrite hfew hstep
  exact hinvariant hfew

/-- In every interleaving of the dispatcher and the threads in which no write
fails and the counter does not overflow, every connection is handed to the thread
whose turn it is, and by nobody else; no thread is woken for nothing. Once nothing
is going on, the threads have handled every connection once, each of them its own
in the order of the dispatches, and none more than one more than another. -/
theorem pool_exactlyOnce (hcount : 1 ≤ nThreadCount.toInt)
    (hwrites : ∀ e ∈ es, e ≠ .active false) (hfew : (dispatched es).length ≤ 2 ^ 31)
    (hrun : (system Node overflow nThreadCount).run es = some s) :
    s.fault = none ∧
      (∀ index, (s.thread index).handled ++ (s.thread index).worker.inHand ++
        (s.thread index).listConnect = hand nThreadCount.toInt.toNat index (dispatched es)) ∧
      (∀ index, (s.thread index).worker = .woken → (s.thread index).listConnect ≠ []) ∧
      (Quiescent s →
        ((List.range nThreadCount.toInt.toNat).flatMap fun index =>
          (s.thread index).handled).Perm (dispatched es) ∧
        ∀ i < nThreadCount.toInt.toNat, ∀ j < nThreadCount.toInt.toNat,
          (s.thread i).handled.length ≤ (s.thread j).handled.length + 1) := by
  have h := dealt_run hcount hwrites hfew hrun
  have hpos : 0 < nThreadCount.toInt.toNat := by omega
  refine ⟨h.fault, h.order, fun index => (h.counted index).nonempty_of_woken, fun hquiet => ?_⟩
  have hhandled := h.handled hquiet
  refine ⟨h.handled_perm hcount hquiet, fun i hi j hj => ?_⟩
  rw [hhandled i, hhandled j, hand_length hpos hi, hand_length hpos hj]
  split
  · omega
  · omega

/-- The second connection overtakes the first one, on another thread. -/
def twoConnections : List (Event ℕ) := [.dispatch 10, .active true, .dispatch 11,
  .notify 0 .readByte, .active true, .notify 1 .readByte, .notify 1 .popFront,
  .notify 1 .handlerConnect, .notify 0 .popFront, .notify 0 .handlerConnect]

/-- Each of the two threads has handled its connection. -/
theorem pool_exactlyOnce_two : ∃ s, (system ℕ .undefined 5).run twoConnections = some s ∧
    s.fault = none ∧ ∀ index, (s.thread index).handled ++ (s.thread index).worker.inHand ++
      (s.thread index).listConnect = hand 5 index [10, 11] := by
  have hruns : ((system ℕ .undefined 5).run twoConnections).isSome = true := by decide +kernel
  obtain ⟨s, hrun⟩ := Option.isSome_iff_exists.mp hruns
  obtain ⟨hfault, horder, _⟩ := pool_exactlyOnce (by decide) (by decide) (by decide) hrun
  exact ⟨s, hrun, hfault, horder⟩

end NodeManager.WorkerPool
