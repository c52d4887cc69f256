import Mathlib.Algebra.BigOperators.Group.Finset.Basic
import Mathlib.Algebra.Order.BigOperators.Group.Finset
import NodeManager.WorkerPool

/-!
# No connection waits for another dispatch

What the dispatcher has begun and the threads have in hand, in the pipe or on
the list brings each of them forward by a bounded number of steps, in any order
that the scheduler chooses. At the end of these steps nothing waits, whether or
not another connection is ever dispatched.
-/

namespace NodeManager.WorkerPool

open TransitionSystem ThreadPool Dealing

variable {Node : Type}

/-- The steps that are owed to one thread: to write a byte, to read it, to take a
connection off the list and to handle it. -/
def owedSteps (s : Xthread.State Node) : ℕ :=
  4 * s.dispatcher.unannounced + 3 * s.pipe + match s.worker with
    | .idle => 0
    | .woken => 2
    | .holding _ => 1

/-- A step that no new dispatch is needed for. -/
def Pending (e : Event Node) : Prop := e = .active true ∨ ∃ index f, e = .notify index f

section Thread

variable {s s' : Xthread.State Node} {e : Xthread.Event Node}

/-- Every step but a dispatch pays off some of what is owed. -/
theorem owedSteps_step (hstep : Xthread.step s e = some s')
    (hpending : e = .active true ∨ isNotify e = true) : owedSteps s' < owedSteps s := by
  rcases Xthread.step_cases hstep with ⟨pNode, rfl, _, rfl⟩ | ⟨written, rfl, hd, rfl⟩ |
    ⟨pipe, rfl, hw, hp, rfl⟩ | ⟨rfl, hw, _, rfl⟩ | ⟨pConnect, rest, rfl, hw, _, rfl⟩ |
    ⟨pConnect, rfl, hw, rfl⟩
  · rcases hpending with h | h
    · cases h
    · cases h
  · rcases hpending with h | h
    · cases h
      simp only [owedSteps, hd, Xthread.Dispatcher.unannounced, if_true]
      omega
    · cases h
  · simp only [owedSteps, hw, hp]
    omega
  · simp only [owedSteps, hw]
    omega
  · simp only [owedSteps, hw]
    omega
  · simp only [owedSteps, hw]
    omega

/-- A thread that has a byte or is in `Notify` can go on. -/
theorem notify_enabled (hbusy : s.pipe ≠ 0 ∨ s.worker ≠ .idle) :
    ∃ e s', isNotify e = true ∧ Xthread.step s e = some s' := by
  cases hw : s.worker with
  | idle =>
    obtain ⟨pipe, hp⟩ := Nat.exists_eq_succ_of_ne_zero (hbusy.resolve_right fun h => h hw)
    exact ⟨.readByte, _, rfl, by rw [Xthread.step, hw, hp]⟩
  | woken =>
    cases hl : s.listConnect with
    | nil => exact ⟨.popFront, _, rfl, by rw [Xthread.step, hw]; dsimp only; rw [hl]⟩
    | cons pConnect rest =>
      exact ⟨.popFront, _, rfl, by rw [Xthread.step, hw]; dsimp only; rw [hl]⟩
  | holding pConnect => exact ⟨.handlerConnect, _, rfl, by rw [Xthread.step, hw]⟩

end Thread

section Steps

variable {overflow : SignedOverflow} {nThreadCount : Int32} {s s' : State Node}
  {es : List (Event Node)}

/-- There are no threads past the last one. -/
theorem Dealt.unused (h : Dealt nThreadCount es s) (hcount : 1 ≤ nThreadCount.toInt) {index : ℕ}
    (hlast : nThreadCount.toInt.toNat ≤ index) : (s.thread index).listConnect = [] ∧
      (s.thread index).worker.inHand = [] := by
  have horder := h.order index
  rw [hand_eq_nil (by omega) hlast, connectionsOf, List.append_eq_nil_iff,
    List.append_eq_nil_iff] at horder
  exact ⟨horder.2, horder.1.2⟩

/-- A thread that owes a step is one of the pool. -/
theorem Dealt.index_lt (h : Dealt nThreadCount es s) (hcount : 1 ≤ nThreadCount.toInt) {index : ℕ}
    (howed : 0 < owedSteps (s.thread index)) : index < nThreadCount.toInt.toNat := by
  by_contra hlast
  obtain ⟨hlist, hhand⟩ := h.unused hcount (Nat.le_of_not_lt hlast)
  have hcounted := h.counted index
  rw [Xthread.Counted, hlist, List.length_nil] at hcounted
  rw [owedSteps] at howed
  cases hw : (s.thread index).worker with
  | idle =>
    simp only [hw] at howed
    omega
  | woken =>
    rw [hw] at hcounted
    simp only [Xthread.Worker.owed] at hcounted
    omega
  | holding pConnect =>
    rw [hw] at hhand
    cases hhand

/-- Where the connections are depends on the dispatches alone. -/
theorem Dealt.congr (h : Dealt nThreadCount es s) {es' : List (Event Node)}
    (hsame : dispatched es' = dispatched es) : Dealt nThreadCount es' s :=
  ⟨h.fault, by rw [hsame, h.pool], fun index => by rw [hsame, h.order], h.counted, h.pushed⟩

/-- The steps owed to all threads. -/
def totalOwed (nThreadCount : Int32) (s : State Node) : ℕ :=
  ∑ index ∈ Finset.range nThreadCount.toInt.toNat, owedSteps (s.thread index)

/-- A step that pays for one thread and leaves the others alone. -/
theorem totalOwed_lt (h : Dealt nThreadCount es s) (hcount : 1 ≤ nThreadCount.toInt) {index : ℕ}
    {t : Xthread.State Node} (hlt : owedSteps t < owedSteps (s.thread index))
    (hthread : s'.thread = Function.update s.thread index t) :
    totalOwed nThreadCount s' < totalOwed nThreadCount s := by
  have hindex := h.index_lt hcount (Nat.zero_lt_of_lt hlt)
  refine Finset.sum_lt_sum (fun other _ => ?_)
    ⟨index, Finset.mem_range.mpr hindex, by rwa [hthread, Function.update_self]⟩
  rw [hthread]
  by_cases hown : other = index
  · rw [hown, Function.update_self]
    exact hlt.le
  · rw [Function.update_of_ne hown]

/-- A step without a new dispatch pays off some of what is owed. -/
theorem totalOwed_step (h : Dealt nThreadCount es s) (hcount : 1 ≤ nThreadCount.toInt)
    {e : Event Node} (hpending : Pending e) (hstep : WorkerPool.step overflow s e = some s') :
    totalOwed nThreadCount s' < totalOwed nThreadCount s := by
  rcases hpending with rfl | ⟨index, f, rfl⟩
  · obtain ⟨index, t, _, ht, rfl⟩ := step_active hstep
    exact totalOwed_lt h hcount (owedSteps_step ht (Or.inl rfl)) rfl
  · obtain ⟨hnotify, t, ht, rfl⟩ := step_notify hstep
    exact totalOwed_lt h hcount (owedSteps_step ht (Or.inr hnotify)) rfl

/-- A step without a new dispatch keeps the connections where they belong. -/
theorem Dealt.pending (h : Dealt nThreadCount es s) (hcount : 1 ≤ nThreadCount.toInt)
    (hfew : (dispatched es).length ≤ 2 ^ 31) {e : Event Node} (hpending : Pending e)
    (hstep : WorkerPool.step overflow s e = some s') : Dealt nThreadCount es s' := by
  have hsame : dispatched (es ++ [e]) = dispatched es := by
    rcases hpending with rfl | ⟨index, f, rfl⟩
    · exact (dispatched_append es _).trans (List.append_nil _)
    · exact (dispatched_append es _).trans (List.append_nil _)
  have hwrite : e ≠ .active false := by
    rintro rfl
    rcases hpending with h | ⟨_, _, h⟩
    · cases h
    · cases h
  have hfew' : (dispatched (es ++ [e])).length ≤ 2 ^ 31 := by rwa [hsame]
  exact (h.step hcount hwrite hfew' hstep).congr hsame.symm

/-- Unless the pool is quiescent, such a step can happen. -/
theorem pending_enabled (h : Dealt nThreadCount es s) (hbusy : ¬Quiescent s) :
    ∃ e s', Pending e ∧ WorkerPool.step overflow s e = some s' := by
  cases hactive : s.active with
  | some index =>
    obtain ⟨t, ht⟩ : ∃ t, Xthread.step (s.thread index) (.active true) = some t := by
      rw [Xthread.step, (h.pushed index).mpr hactive]
      exact ⟨_, rfl⟩
    refine ⟨.active true,
      { s with thread := Function.update s.thread index t, active := none }, Or.inl rfl, ?_⟩
    rw [step, if_neg (not_not.mpr h.fault), hactive]
    dsimp only
    rw [ht, Option.map_some]
  | none =>
    obtain ⟨index, hindex⟩ : ∃ index, ¬((s.thread index).pipe = 0 ∧
        (s.thread index).worker = .idle) := by
      by_contra hnone
      exact hbusy ⟨hactive, fun index => not_not.mp fun hne => hnone ⟨index, hne⟩⟩
    obtain ⟨f, t, hnotify, ht⟩ := notify_enabled (not_and_or.mp hindex)
    refine ⟨.notify index f, { s with thread := Function.update s.thread index t },
      Or.inr ⟨index, f, rfl⟩, ?_⟩
    rw [step, if_neg (not_not.mpr h.fault)]
    rw [if_pos hnotify, ht, Option.map_some]

end Steps

/-- After any run in which no write fails and the counter does not overflow, the
steps that need no new dispatch come to an end, and however they are interleaved,
they lead to a state in which every connection has been handled once. -/
theorem pool_settles {overflow : SignedOverflow} {nThreadCount : Int32} {es : List (Event Node)}
    {s : State Node} (hcount : 1 ≤ nThreadCount.toInt)
    (hwrites : ∀ e ∈ es, e ≠ .active false) (hfew : (dispatched es).length ≤ 2 ^ 31)
    (hrun : (system Node overflow nThreadCount).run es = some s) :
    (system Node overflow nThreadCount).Settles Pending (fun t => Quiescent t ∧
      ((List.range nThreadCount.toInt.toNat).flatMap fun index =>
        (t.thread index).handled).Perm (dispatched es)) s := by
  refine System.settles_of_measure (I := Dealt nThreadCount es) (totalOwed nThreadCount) ?_ ?_
    (dealt_run hcount hwrites hfew hrun)
  · exact fun s e s' hdealt hpending hstep => ⟨hdealt.pending hcount hfew hpending hstep,
      totalOwed_step hdealt hcount hpending hstep⟩
  · intro s hdealt hbusy
    exact pending_enabled hdealt fun hquiet =>
      hbusy ⟨hquiet, hdealt.handled_perm hcount hquiet⟩

/-- One connection waits for its thread, and one for its byte. -/
theorem pool_settles_two : ∃ s, (system ℕ .undefined 5).run
      [.dispatch 10, .active true, .dispatch 11] = some s ∧
    (system ℕ .undefined 5).Settles Pending (fun t => Quiescent t ∧
      ((List.range 5).flatMap fun index => (t.thread index).handled).Perm [10, 11]) s := by
  have hruns : ((system ℕ .undefined 5).run
      [.dispatch 10, .active true, .dispatch 11]).isSome = true := by decide +kernel
  obtain ⟨s, hrun⟩ := Option.isSome_iff_exists.mp hruns
  exact ⟨s, hrun, pool_settles (by decide) (by decide) (by decide) hrun⟩

end NodeManager.WorkerPool
