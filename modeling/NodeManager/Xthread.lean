import NodeManager.Library.TransitionSystem

/-!
# Handing a connection to a worker thread

The dispatcher of `XThreadPool::DispatchThread` and one worker in
`Xthread::Notify`, interleaved at their atomic steps: the locked
`push_back`, the write of one byte to the pipe, the read of one byte, the
locked `front` and `pop_front`, and `HandlerConnect`. The worker is set up;
the pipe is readable exactly when it holds a byte.
-/

namespace NodeManager.Xthread

open TransitionSystem

variable {Node : Type}

/-- Where the dispatcher stands. -/
inductive Dispatcher
  | idle
  /-- Between `AddConnect` and `Active`. -/
  | pushed
  deriving DecidableEq

/-- Where the worker stands. -/
inductive Worker (Node : Type)
  | idle
  /-- `Notify` has read a byte. -/
  | woken
  /-- `Notify` has taken a connection off the list. -/
  | holding (pConnect : Node)
  deriving DecidableEq

/-- The shared list and pipe, and where the two threads stand. -/
structure State (Node : Type) where
  /-- `m_listconnect`. -/
  listConnect : List Node := []
  /-- Bytes in the pipe. -/
  pipe : ℕ := 0
  dispatcher : Dispatcher := .idle
  worker : Worker Node := .idle
  /-- The connections that `HandlerConnect` was called on, oldest first. -/
  handled : List Node := []
  deriving DecidableEq

/-- The atomic steps of the two threads. -/
inductive Event (Node : Type)
  /-- `AddConnect` pushes under the lock. -/
  | addConnect (pNode : Node)
  /-- `Active` writes one byte, or fails to. -/
  | active (written : Bool)
  /-- `Notify` reads one byte. -/
  | readByte
  /-- `Notify` takes the front under the lock, or finds the list empty. -/
  | popFront
  /-- `Notify` calls `HandlerConnect`. -/
  | handlerConnect
  deriving DecidableEq

/-- One step of either thread. -/
def step (s : State Node) : Event Node → Option (State Node)
  | .addConnect pNode =>
    match s.dispatcher with
    | .idle => some { s with listConnect := s.listConnect ++ [pNode], dispatcher := .pushed }
    | .pushed => none
  | .active written =>
    match s.dispatcher with
    | .idle => none
    | .pushed =>
      some { s with pipe := if written then s.pipe + 1 else s.pipe, dispatcher := .idle }
  | .readByte =>
    match s.worker, s.pipe with
    | .idle, pipe + 1 => some { s with pipe := pipe, worker := .woken }
    | _, _ => none
  | .popFront =>
    match s.worker with
    | .woken =>
      match s.listConnect with
      | [] => some { s with worker := .idle }
      | pConnect :: rest => some { s with listConnect := rest, worker := .holding pConnect }
    | _ => none
  | .handlerConnect =>
    match s.worker with
    | .holding pConnect => some { s with worker := .idle, handled := s.handled ++ [pConnect] }
    | _ => none

/-- The hand-off from an empty list and an empty pipe. -/
def system (Node : Type) : System (State Node) (Event Node) := ⟨{}, step⟩

/-- The connections dispatched by a list of events, oldest first. -/
def dispatched (es : List (Event Node)) : List Node :=
  es.filterMap fun
    | .addConnect pNode => some pNode
    | _ => none

/-- The connection that the worker has taken off the list. -/
def Worker.inHand : Worker Node → List Node
  | .holding pConnect => [pConnect]
  | _ => []

/-- Pushed connections whose byte is not written yet. -/
def Dispatcher.unannounced : Dispatcher → ℕ
  | .idle => 0
  | .pushed => 1

/-- Bytes read whose connection is not taken yet. -/
def Worker.owed : Worker Node → ℕ
  | .woken => 1
  | _ => 0

/-- Every queued connection has its byte: still to be written, in the pipe,
or read by the worker. -/
def Counted (s : State Node) : Prop :=
  s.listConnect.length = s.dispatcher.unannounced + s.pipe + s.worker.owed

/-- No connection dispatched so far is lost, duplicated or overtaken. -/
def InOrder (es : List (Event Node)) (s : State Node) : Prop :=
  s.handled ++ s.worker.inHand ++ s.listConnect = dispatched es

theorem Counted.nonempty_of_woken {s : State Node} (h : Counted s) (hw : s.worker = .woken) :
    s.listConnect ≠ [] := by
  intro hempty
  rw [Counted, hempty, hw] at h
  have howed : (Worker.woken : Worker Node).owed = 1 := rfl
  rw [howed, List.length_nil] at h
  omega

theorem Counted.empty_of_quiescent {s : State Node} (h : Counted s) (hpipe : s.pipe = 0)
    (hd : s.dispatcher = .idle) (hw : s.worker = .idle) : s.listConnect = [] := by
  rw [Counted, hpipe, hd, hw] at h
  exact List.length_eq_zero_iff.mp h

/-- All that a step can do. -/
theorem step_cases {s s' : State Node} {e : Event Node} (h : step s e = some s') :
    (∃ pNode, e = .addConnect pNode ∧ s.dispatcher = .idle ∧
      s' = { s with listConnect := s.listConnect ++ [pNode], dispatcher := .pushed }) ∨
    (∃ written, e = .active written ∧ s.dispatcher = .pushed ∧
      s' = { s with pipe := if written then s.pipe + 1 else s.pipe, dispatcher := .idle }) ∨
    (∃ pipe, e = .readByte ∧ s.worker = .idle ∧ s.pipe = pipe + 1 ∧
      s' = { s with pipe := pipe, worker := .woken }) ∨
    (e = .popFront ∧ s.worker = .woken ∧ s.listConnect = [] ∧ s' = { s with worker := .idle }) ∨
    (∃ pConnect rest, e = .popFront ∧ s.worker = .woken ∧ s.listConnect = pConnect :: rest ∧
      s' = { s with listConnect := rest, worker := .holding pConnect }) ∨
    (∃ pConnect, e = .handlerConnect ∧ s.worker = .holding pConnect ∧
      s' = { s with worker := .idle, handled := s.handled ++ [pConnect] }) := by
  cases e with
  | addConnect pNode =>
    cases hd : s.dispatcher with
    | pushed => simp only [step, hd, reduceCtorEq] at h
    | idle =>
      simp only [step, hd, Option.some.injEq] at h
      exact Or.inl ⟨pNode, rfl, rfl, h.symm⟩
  | active written =>
    cases hd : s.dispatcher with
    | idle => simp only [step, hd, reduceCtorEq] at h
    | pushed =>
      simp only [step, hd, Option.some.injEq] at h
      exact Or.inr (Or.inl ⟨written, rfl, rfl, h.symm⟩)
  | readByte =>
    cases hw : s.worker with
    | woken => simp only [step, hw, reduceCtorEq] at h
    | holding pConnect => simp only [step, hw, reduceCtorEq] at h
    | idle =>
      cases hp : s.pipe with
      | zero => simp only [step, hw, hp, reduceCtorEq] at h
      | succ pipe =>
        simp only [step, hw, hp, Option.some.injEq] at h
        exact Or.inr (Or.inr (Or.inl ⟨pipe, rfl, rfl, rfl, h.symm⟩))
  | popFront =>
    cases hw : s.worker with
    | idle => simp only [step, hw, reduceCtorEq] at h
    | holding pConnect => simp only [step, hw, reduceCtorEq] at h
    | woken =>
      cases hl : s.listConnect with
      | nil =>
        simp only [step, hw, hl, Option.some.injEq] at h
        exact Or.inr (Or.inr (Or.inr (Or.inl ⟨rfl, rfl, rfl, by rw [← h]⟩)))
      | cons pConnect rest =>
        simp only [step, hw, hl, Option.some.injEq] at h
        exact Or.inr (Or.inr (Or.inr (Or.inr (Or.inl ⟨pConnect, rest, rfl, rfl, rfl, h.symm⟩))))
  | handlerConnect =>
    cases hw : s.worker with
    | idle => simp only [step, hw, reduceCtorEq] at h
    | woken => simp only [step, hw, reduceCtorEq] at h
    | holding pConnect =>
      simp only [step, hw, Option.some.injEq] at h
      exact Or.inr (Or.inr (Or.inr (Or.inr (Or.inr ⟨pConnect, rfl, rfl, h.symm⟩))))

/-- Each step keeps the count; a failed write would not. -/
theorem Counted.step {s s' : State Node} {e : Event Node} (hwrite : e ≠ .active false)
    (h : Counted s) (hstep : Xthread.step s e = some s') : Counted s' := by
  rcases step_cases hstep with ⟨pNode, rfl, hd, rfl⟩ | ⟨written, rfl, hd, rfl⟩ |
    ⟨pipe, rfl, hw, hp, rfl⟩ | ⟨rfl, hw, hl, rfl⟩ | ⟨pConnect, rest, rfl, hw, hl, rfl⟩ |
    ⟨pConnect, rfl, hw, rfl⟩
  · rw [Counted, hd] at h
    simp only [Counted, List.length_append, List.length_cons, List.length_nil,
      Dispatcher.unannounced] at h ⊢
    omega
  · have hwritten : written = true := by
      cases written with
      | false => exact absurd rfl hwrite
      | true => rfl
    rw [Counted, hd] at h
    simp only [Counted, hwritten, if_true, Dispatcher.unannounced] at h ⊢
    omega
  · rw [Counted, hw, hp] at h
    simp only [Counted, Worker.owed] at h ⊢
    omega
  · exact absurd hl (h.nonempty_of_woken hw)
  · rw [Counted, hw, hl] at h
    simp only [Counted, Worker.owed, List.length_cons] at h ⊢
    omega
  · rw [Counted, hw] at h
    exact h

theorem dispatched_append (es : List (Event Node)) (e : Event Node) :
    dispatched (es ++ [e]) = dispatched es ++ dispatched [e] := List.filterMap_append

/-- Each step keeps the order, also where a write fails. -/
theorem InOrder.step {es : List (Event Node)} {s s' : State Node} {e : Event Node}
    (h : InOrder es s) (hstep : Xthread.step s e = some s') : InOrder (es ++ [e]) s' := by
  rw [InOrder] at h ⊢
  rw [dispatched_append, ← h]
  rcases step_cases hstep with ⟨pNode, rfl, hd, rfl⟩ | ⟨written, rfl, hd, rfl⟩ |
    ⟨pipe, rfl, hw, hp, rfl⟩ | ⟨rfl, hw, hl, rfl⟩ | ⟨pConnect, rest, rfl, hw, hl, rfl⟩ |
    ⟨pConnect, rfl, hw, rfl⟩
  · exact (List.append_assoc _ _ _).symm
  · exact (List.append_nil _).symm
  · rw [hw]
    exact (List.append_nil _).symm
  · rw [hw]
    exact (List.append_nil _).symm
  · rw [hw, hl]
    simp only [dispatched, List.filterMap_cons, List.filterMap_nil, Worker.inHand,
      List.append_assoc, List.nil_append, List.append_nil, List.cons_append]
  · rw [hw]
    simp only [dispatched, List.filterMap_cons, List.filterMap_nil, Worker.inHand,
      List.append_nil]

/-- In every interleaving without a failed write, a woken worker finds a
connection, the connections are handled once each in the order in which they
were dispatched, and nothing waits once the pipe is empty and both threads
are idle. -/
theorem handOff_exactlyOnce {es : List (Event Node)} {s : State Node}
    (hwrites : ∀ e ∈ es, e ≠ .active false) (hrun : (system Node).run es = some s) :
    (s.worker = .woken → s.listConnect ≠ []) ∧
      s.handled ++ s.worker.inHand ++ s.listConnect = dispatched es ∧
      (s.pipe = 0 → s.dispatcher = .idle → s.worker = .idle → s.listConnect = []) := by
  have hcountInit : Counted (system Node).init := rfl
  have horderInit : InOrder [] (system Node).init := rfl
  have hinv : Counted s ∧ InOrder es s :=
    System.run_induction (fun es s => Counted s ∧ InOrder es s) ⟨hcountInit, horderInit⟩
      (fun _ _ _ _ hwrite h hstep => ⟨h.1.step hwrite hstep, h.2.step hstep⟩) hwrites hrun
  obtain ⟨hcount, horder⟩ := hinv
  exact ⟨hcount.nonempty_of_woken, horder, hcount.empty_of_quiescent⟩

/-- Two connections are pushed before the worker reads the first byte; it is
in the middle of `Notify` for the first one when the second byte is written. -/
theorem handOff_overlapping :
    (Worker.holding 1 = (Worker.woken : Worker ℕ) → [2] ≠ []) ∧
      [] ++ [1] ++ [2] = dispatched [.addConnect 1, .active true, .addConnect 2, .readByte,
        .popFront, .active true] ∧
      (1 = 0 → Dispatcher.idle = .idle → Worker.holding 1 = .idle → [2] = []) :=
  let s : State ℕ := { listConnect := [2], pipe := 1, worker := .holding 1 }
  have hrun : (system ℕ).run [.addConnect 1, .active true, .addConnect 2, .readByte, .popFront,
    .active true] = some s := rfl
  handOff_exactlyOnce (by decide) hrun

end NodeManager.Xthread
