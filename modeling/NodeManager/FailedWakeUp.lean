import NodeManager.Xthread

/-!
# When the byte for a connection is not written

`Active` only logs a failed write, so the queue keeps one entry more than
there are bytes for the rest of the run. Every later byte wakes the worker for
the connection before, and in a quiescent state as many connections wait as
writes have failed, the last ones that were dispatched.
-/

namespace NodeManager.Xthread

open TransitionSystem

variable {Node : Type}

/-- The number of wake-ups that failed. -/
def failedWakeUps (es : List (Event Node)) : ℕ :=
  es.countP fun
    | .active written => !written
    | _ => false

/-- The pipe is empty and neither thread is in the middle of anything. -/
structure Quiescent (s : State Node) : Prop where
  pipe : s.pipe = 0
  dispatcher : s.dispatcher = .idle
  worker : s.worker = .idle

/-- Every queued connection has its byte, except for one for each failed wake-up. -/
def CountedUpTo (failed : ℕ) (s : State Node) : Prop :=
  s.listConnect.length = s.dispatcher.unannounced + s.pipe + s.worker.owed + failed

theorem failedWakeUps_append (es : List (Event Node)) (e : Event Node) :
    failedWakeUps (es ++ [e]) = failedWakeUps es + failedWakeUps [e] := List.countP_append

theorem failedWakeUps_eq_zero_iff {es : List (Event Node)} :
    failedWakeUps es = 0 ↔ Event.active false ∉ es := by
  rw [failedWakeUps, List.countP_eq_zero]
  constructor
  · intro h hmem
    exact h _ hmem rfl
  · intro h e he hfailed
    cases e with
    | active written =>
      cases written with
      | false => exact h he
      | true => cases hfailed
    | _ => cases hfailed

/-- Each step keeps the count, also where a write fails. -/
theorem CountedUpTo.step {es : List (Event Node)} {s s' : State Node} {e : Event Node}
    (h : CountedUpTo (failedWakeUps es) s) (hstep : Xthread.step s e = some s') :
    CountedUpTo (failedWakeUps (es ++ [e])) s' := by
  rw [failedWakeUps_append]
  rcases step_cases hstep with ⟨pNode, rfl, hd, rfl⟩ | ⟨written, rfl, hd, rfl⟩ |
    ⟨pipe, rfl, hw, hp, rfl⟩ | ⟨rfl, hw, hl, rfl⟩ | ⟨pConnect, rest, rfl, hw, hl, rfl⟩ |
    ⟨pConnect, rfl, hw, rfl⟩
  · have hnone : failedWakeUps [Event.addConnect pNode] = 0 := rfl
    rw [CountedUpTo, hd] at h
    simp only [CountedUpTo, hnone, List.length_append, List.length_cons, List.length_nil,
      Dispatcher.unannounced] at h ⊢
    omega
  · rw [CountedUpTo, hd] at h
    cases written with
    | false =>
      have hone : failedWakeUps [(Event.active false : Event Node)] = 1 := rfl
      simp only [CountedUpTo, hone, Bool.false_eq_true, if_false, Dispatcher.unannounced] at h ⊢
      omega
    | true =>
      have hnone : failedWakeUps [(Event.active true : Event Node)] = 0 := rfl
      simp only [CountedUpTo, hnone, if_true, Dispatcher.unannounced] at h ⊢
      omega
  · have hnone : failedWakeUps [(Event.readByte : Event Node)] = 0 := rfl
    rw [CountedUpTo, hw, hp] at h
    simp only [CountedUpTo, hnone, Worker.owed] at h ⊢
    omega
  · rw [CountedUpTo, hw, hl] at h
    simp only [Worker.owed, List.length_nil] at h
    omega
  · have hnone : failedWakeUps [(Event.popFront : Event Node)] = 0 := rfl
    rw [CountedUpTo, hw, hl] at h
    simp only [CountedUpTo, hnone, Worker.owed, List.length_cons] at h ⊢
    omega
  · have hnone : failedWakeUps [(Event.handlerConnect : Event Node)] = 0 := rfl
    rw [CountedUpTo, hw] at h
    simp only [CountedUpTo, hnone, Worker.owed] at h ⊢
    omega

section Runs

variable {es : List (Event Node)} {s : State Node}

/-- The count and the order hold in every interleaving. -/
theorem counted_of_run (hrun : (system Node).run es = some s) :
    CountedUpTo (failedWakeUps es) s ∧ InOrder es s := by
  have hcountInit : CountedUpTo (failedWakeUps ([] : List (Event Node))) (system Node).init := rfl
  have horderInit : InOrder [] (system Node).init := rfl
  exact System.run_induction (A := fun _ => True)
    (fun es s => CountedUpTo (failedWakeUps es) s ∧ InOrder es s) ⟨hcountInit, horderInit⟩
    (fun _ _ _ _ _ h hstep => ⟨h.1.step hstep, h.2.step hstep⟩) (fun _ _ => trivial) hrun

/-- In a quiescent state as many connections wait as wake-ups have failed. -/
theorem Quiescent.waiting_length (h : Quiescent s) (hrun : (system Node).run es = some s) :
    s.listConnect.length = failedWakeUps es := by
  have hcount := (counted_of_run hrun).1
  rw [CountedUpTo, h.pipe, h.dispatcher, h.worker] at hcount
  simpa only [Dispatcher.unannounced, Worker.owed, Nat.zero_add] using hcount

/-- The connections that wait are the last ones that were dispatched, whichever
of the wake-ups failed. -/
theorem Quiescent.waiting_eq (h : Quiescent s) (hrun : (system Node).run es = some s) :
    s.listConnect =
      (dispatched es).drop ((dispatched es).length - failedWakeUps es) := by
  have hwaiting := h.waiting_length hrun
  have horder := (counted_of_run hrun).2
  rw [InOrder, h.worker] at horder
  have hsplit : dispatched es = s.handled ++ s.listConnect := by
    rw [← horder]
    simp only [Worker.inHand, List.append_nil]
  rw [← hwaiting, hsplit, List.length_append, Nat.add_sub_cancel, List.drop_left]

/-- In a quiescent state of a run nothing waits exactly when no wake-up of the run
has failed. -/
theorem nothingStranded_iff (hrun : (system Node).run es = some s) (h : Quiescent s) :
    s.listConnect = [] ↔ Event.active false ∉ es := by
  rw [← List.length_eq_zero_iff, h.waiting_length hrun, failedWakeUps_eq_zero_iff]

/-- A connection that was handed over. -/
theorem nothingStranded_handedOver :
    ({ handled := [1] } : State ℕ).listConnect = [] ↔
      Event.active false ∉
        [Event.addConnect 1, .active true, .readByte, .popFront, .handlerConnect] :=
  nothingStranded_iff (s := { handled := [1] }) rfl ⟨rfl, rfl, rfl⟩

end Runs

/-- A single connection whose wake-up fails waits forever. -/
theorem failedWakeUp_strands :
    ¬∀ (es : List (Event ℕ)) (s : State ℕ), (system ℕ).run es = some s → Quiescent s →
      s.listConnect = [] := by
  intro h
  have hrun : (system ℕ).run [.addConnect 1, .active false] =
      some { listConnect := [1] } := rfl
  exact absurd (h _ _ hrun ⟨rfl, rfl, rfl⟩) (by decide)

end NodeManager.Xthread
