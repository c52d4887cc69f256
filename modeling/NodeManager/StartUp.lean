import NodeManager.Library.TransitionSystem
import NodeManager.ThreadPool

/-!
# Starting the workers and dispatching to them

`XThreadPool::Init` starts the workers one after the other and sleeps in
between, which orders nothing. Every worker sets itself up on its own: a pipe,
an event base, which it stores in `m_base` at once, and the write end of the
pipe, which it stores in `m_fdPipeWirte` last. `DispatchThread` reads both
members without asking how far the worker is. Pipes and bases are numbered in
the order of their creation, with the worker that made them.
-/

namespace NodeManager.StartUp

open TransitionSystem ThreadPool

/-- How far `Xthread::Run` is. -/
inductive Stage
  /-- `Start` has not been called. -/
  | notStarted
  | started
  /-- `pipe` has returned the pipe of that number. -/
  | piped (fds : ℕ)
  /-- The new base is in `m_base`. -/
  | based (fds : ℕ)
  /-- The write end is in `m_fdPipeWirte`. -/
  | published
  /-- `event_base_dispatch` runs. -/
  | serving
  /-- `SetUpEvent` has returned false, which `Run` ignores. -/
  | failed
  deriving DecidableEq

/-- The worker has stored its base. -/
def Stage.hasBase : Stage → Bool
  | .based _ => true
  | .published => true
  | .serving => true
  | _ => false

/-- The worker has stored its pipe. -/
def Stage.hasPipe : Stage → Bool
  | .published => true
  | .serving => true
  | _ => false

/-- The pipe that the worker has created and not stored yet. -/
def Stage.pending? : Stage → Option ℕ
  | .piped fds => some fds
  | .based fds => some fds
  | _ => none

/-- An `Xthread` with the progress of its thread. -/
structure Xthread where
  /-- `m_base`, unless it is null. -/
  base : Option ℕ := none
  /-- The pipe whose write end is in `m_fdPipeWirte`, unless that is still 0. -/
  fdPipeWirte : Option ℕ := none
  stage : Stage := .notStarted
  deriving DecidableEq

/-- Where the main thread is. -/
inductive Main
  /-- In `XThreadPool::Init`. -/
  | init
  | idle
  /-- In `DispatchThread`, between `AddConnect` and `Active`. -/
  | pushed (index : ℕ)
  deriving DecidableEq

/-- A call of `AddConnect`. -/
structure Given (Node : Type) where
  pNode : Node
  worker : ℕ
  /-- What `SetBase` gets. -/
  base : Option ℕ

/-- A byte that `Active` has written. -/
structure Byte where
  worker : ℕ
  /-- The pipe it went to, or descriptor 0. -/
  fd : Option ℕ

variable {Node : Type}

/-- The pool, its threads and the main thread. -/
structure State (Node : Type) where
  pool : XThreadPool
  /-- The elements of `m_vecThread`. -/
  threads : ℕ → Xthread := fun _ => {}
  /-- How many of them `Init` has started. -/
  started : ℕ := 0
  main : Main := .init
  /-- The workers that created the event bases. -/
  bases : List ℕ := []
  /-- The workers that created the pipes. -/
  pipes : List ℕ := []
  /-- History: the calls of `AddConnect`. -/
  given : List (Given Node) := []
  /-- History: the bytes written by `Active`. -/
  bytes : List Byte := []
  /-- Whether undefined behaviour has ended the process. -/
  crashed : Bool := false

/-- A step of one of the threads. -/
inductive Event (Node : Type)
  /-- `Init` pushes and starts the next thread. -/
  | start
  /-- `Init` returns. -/
  | initReturns
  /-- `pipe` succeeds or fails. -/
  | pipe (worker : ℕ) (created : Bool)
  /-- `event_base_new_with_config`, whose result goes to `m_base`. -/
  | newBase (worker : ℕ) (created : Bool)
  /-- `m_fdPipeWirte` is assigned. -/
  | publish (worker : ℕ)
  /-- The read end is listened on and `event_base_dispatch` begins. -/
  | listen (worker : ℕ)
  /-- `event_base_dispatch` is called on the null base after a failure. -/
  | dispatchNull (worker : ℕ)
  /-- `DispatchThread` up to the end of `AddConnect`. -/
  | addConnect (pNode : Node)
  /-- `Active`, where `write` succeeds or fails. -/
  | active (written : Bool)

/-- A worker goes on. -/
def State.setThread (s : State Node) (worker : ℕ) (thread : Xthread) : State Node :=
  { s with threads := Function.update s.threads worker thread }

variable (overflow : SignedOverflow)

/-- The effect of a step that can happen. -/
def step (s : State Node) (e : Event Node) : Option (State Node) :=
  if s.crashed then none
  else match e with
  | .start =>
    if s.main = .init ∧ s.started < s.pool.nThreadCount.toInt then
      some { s.setThread s.started { stage := .started } with started := s.started + 1 }
    else none
  | .initReturns =>
    if s.main = .init ∧ s.pool.nThreadCount.toInt ≤ s.started then some { s with main := .idle }
    else none
  | .pipe worker created =>
    match (s.threads worker).stage with
    | .started =>
      if created then
        some { s.setThread worker { s.threads worker with stage := .piped s.pipes.length } with
          pipes := s.pipes ++ [worker] }
      else some (s.setThread worker { s.threads worker with stage := .failed })
    | _ => none
  | .newBase worker created =>
    match (s.threads worker).stage with
    | .piped fds =>
      if created then
        some { s.setThread worker
            { s.threads worker with base := some s.bases.length, stage := .based fds } with
          bases := s.bases ++ [worker] }
      else some (s.setThread worker { s.threads worker with base := none, stage := .failed })
    | _ => none
  | .publish worker =>
    match (s.threads worker).stage with
    | .based fds =>
      some (s.setThread worker
        { s.threads worker with fdPipeWirte := some fds, stage := .published })
    | _ => none
  | .listen worker =>
    match (s.threads worker).stage with
    | .published => some (s.setThread worker { s.threads worker with stage := .serving })
    | _ => none
  | .dispatchNull worker =>
    match (s.threads worker).stage with
    | .failed => some { s with crashed := true }
    | _ => none
  | .addConnect pNode =>
    match s.main with
    | .idle =>
      match s.pool.dispatchThread overflow (some pNode) with
      | .ok (pool, some index) => some { s with
          pool
          main := .pushed index
          given := s.given ++ [⟨pNode, index, (s.threads index).base⟩] }
      | .ok (pool, none) => some { s with pool }
      | .error _ => some { s with crashed := true }
    | _ => none
  | .active written =>
    match s.main with
    | .pushed index => some { s with
        main := .idle
        bytes := if written then s.bytes ++ [⟨index, (s.threads index).fdPipeWirte⟩]
          else s.bytes }
    | _ => none

/-- The server from the call of `Init` on a fresh pool. -/
def system (Node : Type) (nThreadCount : Int32) : System (State Node) (Event Node) :=
  ⟨{ pool := XThreadPool.init {} nThreadCount }, step overflow⟩

/-- Every connection got a base that its worker made, and every byte went to a
pipe that its worker made. -/
structure DispatchedReady (s : State Node) : Prop where
  given : ∀ g ∈ s.given, ∃ base, g.base = some base ∧ s.bases[base]? = some g.worker
  bytes : ∀ b ∈ s.bytes, ∃ fds, b.fd = some fds ∧ s.pipes[fds]? = some b.worker

/-- `AddConnect` finds that the selected worker has stored its base, and
`Active` that it has stored its pipe. -/
def FindsReady (s : State Node) : Event Node → Prop
  | .addConnect pNode => ∀ pool index,
      s.pool.dispatchThread overflow (some pNode) = .ok (pool, some index) →
        (s.threads index).stage.hasBase = true
  | .active written => written = true →
      ∀ index, s.main = .pushed index → (s.threads index).stage.hasPipe = true
  | _ => True

/-- A worker has stored what its stage says, and has made it itself. -/
structure Xthread.Owns (bases pipes : List ℕ) (worker : ℕ) (thread : Xthread) : Prop where
  base : ∀ base, thread.base = some base → bases[base]? = some worker
  pipe : ∀ fds, thread.fdPipeWirte = some fds → pipes[fds]? = some worker
  pending : ∀ fds, thread.stage.pending? = some fds → pipes[fds]? = some worker
  hasBase : thread.base.isSome = thread.stage.hasBase
  hasPipe : thread.fdPipeWirte.isSome = thread.stage.hasPipe

/-- The invariant of every run. -/
def Owned (s : State Node) : Prop := ∀ worker, (s.threads worker).Owns s.bases s.pipes worker

section Steps

variable {overflow} {s s' : State Node}

theorem getElem?_of_append {l more : List ℕ} {n worker : ℕ} (h : l[n]? = some worker) :
    (l ++ more)[n]? = some worker := by
  obtain ⟨hlt, _⟩ := List.getElem?_eq_some_iff.mp h
  rw [List.getElem?_append_left hlt]
  exact h

/-- What is owned stays owned when more is made. -/
theorem Xthread.Owns.grow {bases pipes : List ℕ} {worker : ℕ} {thread : Xthread}
    (h : thread.Owns bases pipes worker) (moreBases morePipes : List ℕ) :
    thread.Owns (bases ++ moreBases) (pipes ++ morePipes) worker :=
  ⟨fun base hbase => getElem?_of_append (h.base base hbase),
    fun fds hfds => getElem?_of_append (h.pipe fds hfds),
    fun fds hfds => getElem?_of_append (h.pending fds hfds), h.hasBase, h.hasPipe⟩

/-- A worker goes on to a stage with the same things stored. -/
theorem Xthread.Owns.advance {bases pipes : List ℕ} {worker : ℕ} {thread : Xthread}
    (h : thread.Owns bases pipes worker) (stage : Stage)
    (hpending : ∀ fds, stage.pending? = some fds → pipes[fds]? = some worker)
    (hbase : stage.hasBase = thread.stage.hasBase) (hpipe : stage.hasPipe = thread.stage.hasPipe) :
    { thread with stage }.Owns bases pipes worker :=
  ⟨h.base, h.pipe, hpending, h.hasBase.trans hbase.symm, h.hasPipe.trans hpipe.symm⟩

/-- What one worker does, and what it makes on the way. -/
structure Proceeds (s s' : State Node) : Prop where
  bases : ∃ more, s'.bases = s.bases ++ more
  pipes : ∃ more, s'.pipes = s.pipes ++ more
  given : s'.given = s.given
  bytes : s'.bytes = s.bytes
  owned : Owned s → Owned s'

/-- A worker that still owns what it has stored. -/
theorem proceeds_setThread (worker : ℕ) {thread : Xthread} (moreBases morePipes : List ℕ)
    (hthreads : s'.threads = Function.update s.threads worker thread)
    (hbases : s'.bases = s.bases ++ moreBases) (hpipes : s'.pipes = s.pipes ++ morePipes)
    (hgiven : s'.given = s.given) (hbytes : s'.bytes = s.bytes)
    (howns : (s.threads worker).Owns s.bases s.pipes worker →
      thread.Owns (s.bases ++ moreBases) (s.pipes ++ morePipes) worker) : Proceeds s s' := by
  refine ⟨⟨moreBases, hbases⟩, ⟨morePipes, hpipes⟩, hgiven, hbytes, fun h other => ?_⟩
  rw [hthreads, hbases, hpipes]
  by_cases hsame : other = worker
  · rw [hsame, Function.update_self]
    exact howns (h worker)
  · rw [Function.update_of_ne hsame]
    exact (h other).grow moreBases morePipes

/-- A worker goes on without making anything. -/
theorem proceeds_alone (worker : ℕ) {thread : Xthread}
    (howns : (s.threads worker).Owns s.bases s.pipes worker →
      thread.Owns s.bases s.pipes worker) : Proceeds s (s.setThread worker thread) := by
  refine proceeds_setThread worker [] [] rfl (List.append_nil _).symm (List.append_nil _).symm
    rfl rfl fun h => ?_
  rw [List.append_nil, List.append_nil]
  exact howns h

/-- No worker moves and nothing is made. -/
theorem proceeds_same (hthreads : s'.threads = s.threads) (hbases : s'.bases = s.bases)
    (hpipes : s'.pipes = s.pipes) (hgiven : s'.given = s.given) (hbytes : s'.bytes = s.bytes) :
    Proceeds s s' := by
  refine ⟨⟨[], ?_⟩, ⟨[], ?_⟩, hgiven, hbytes, fun h other => ?_⟩
  · rw [hbases, List.append_nil]
  · rw [hpipes, List.append_nil]
  · rw [hthreads, hbases, hpipes]
    exact h other

/-- Every step of a worker, and every step of the main thread but a dispatch,
keeps what is owned. -/
theorem proceeds_step {e : Event Node} (h : step overflow s e = some s')
    (hadd : ∀ pNode, e ≠ .addConnect pNode) (hactive : ∀ written, e ≠ .active written) :
    Proceeds s s' := by
  unfold step at h
  split at h
  · cases h
  · cases e with
    | start =>
      dsimp only at h
      split at h
      · obtain rfl := Option.some.inj h
        refine proceeds_setThread s.started [] [] rfl (List.append_nil _).symm
          (List.append_nil _).symm rfl rfl fun _ => ?_
        exact ⟨nofun, nofun, nofun, rfl, rfl⟩
      · cases h
    | initReturns =>
      dsimp only at h
      split at h
      · obtain rfl := Option.some.inj h
        exact proceeds_same rfl rfl rfl rfl rfl
      · cases h
    | pipe worker created =>
      dsimp only at h
      split at h
      · next hstage =>
        cases created with
        | true =>
          obtain rfl := Option.some.inj h
          refine proceeds_setThread worker [] [worker] rfl (List.append_nil _).symm rfl rfl rfl
            fun howns => ?_
          refine (howns.grow [] [worker]).advance _ (fun fds hfds => ?_) (by rw [hstage]; rfl)
            (by rw [hstage]; rfl)
          obtain rfl := Option.some.inj hfds
          exact List.getElem?_concat_length
        | false =>
          obtain rfl := Option.some.inj h
          exact proceeds_alone worker fun howns =>
            howns.advance .failed nofun (by rw [hstage]; rfl) (by rw [hstage]; rfl)
      · cases h
    | newBase worker created =>
      dsimp only at h
      split at h
      · next fds hstage =>
        cases created with
        | true =>
          obtain rfl := Option.some.inj h
          refine proceeds_setThread worker [worker] [] rfl rfl (List.append_nil _).symm rfl rfl
            fun howns => ?_
          have hold := howns.grow [worker] []
          refine ⟨fun base hbase => ?_, hold.pipe, fun other hother => ?_, rfl, ?_⟩
          · obtain rfl := Option.some.inj hbase
            exact List.getElem?_concat_length
          · exact hold.pending other (by rwa [hstage])
          · exact hold.hasPipe.trans (by rw [hstage]; rfl)
        | false =>
          obtain rfl := Option.some.inj h
          refine proceeds_alone worker fun howns => ⟨nofun, howns.pipe, nofun, rfl, ?_⟩
          exact howns.hasPipe.trans (by rw [hstage]; rfl)
      · cases h
    | publish worker =>
      dsimp only at h
      split at h
      · next fds hstage =>
        obtain rfl := Option.some.inj h
        refine proceeds_alone worker fun howns =>
          ⟨howns.base, fun other hother => ?_, nofun, ?_, rfl⟩
        · exact howns.pending other (by rwa [hstage])
        · exact howns.hasBase.trans (by rw [hstage]; rfl)
      · cases h
    | listen worker =>
      dsimp only at h
      split at h
      · next hstage =>
        obtain rfl := Option.some.inj h
        exact proceeds_alone worker fun howns =>
          howns.advance .serving nofun (by rw [hstage]; rfl) (by rw [hstage]; rfl)
      · cases h
    | dispatchNull worker =>
      dsimp only at h
      split at h
      · obtain rfl := Option.some.inj h
        exact proceeds_same rfl rfl rfl rfl rfl
      · cases h
    | addConnect pNode => exact absurd rfl (hadd pNode)
    | active written => exact absurd rfl (hactive written)

theorem step_addConnect {pNode : Node} (h : step overflow s (.addConnect pNode) = some s') :
    (∃ pool index, s.pool.dispatchThread overflow (some pNode) = .ok (pool, some index) ∧
        s' = { s with
          pool
          main := .pushed index
          given := s.given ++ [⟨pNode, index, (s.threads index).base⟩] }) ∨
      (∀ pool index, s.pool.dispatchThread overflow (some pNode) ≠ .ok (pool, some index)) ∧
        Proceeds s s' := by
  unfold step at h
  split at h
  · cases h
  · dsimp only at h
    split at h
    · split at h
      · next pool index hselected =>
        exact Or.inl ⟨pool, index, hselected, (Option.some.inj h).symm⟩
      · next pool hselected =>
        obtain rfl := Option.some.inj h
        refine Or.inr ⟨fun other index hother => ?_, proceeds_same rfl rfl rfl rfl rfl⟩
        rw [hselected] at hother
        cases hother
      · next fault hselected =>
        obtain rfl := Option.some.inj h
        refine Or.inr ⟨fun other index hother => ?_, proceeds_same rfl rfl rfl rfl rfl⟩
        rw [hselected] at hother
        cases hother
    · cases h

theorem step_active {written : Bool} (h : step overflow s (.active written) = some s') :
    ∃ index, s.main = .pushed index ∧ s' = { s with
      main := .idle
      bytes := if written then s.bytes ++ [⟨index, (s.threads index).fdPipeWirte⟩]
        else s.bytes } := by
  unfold step at h
  split at h
  · cases h
  · dsimp only at h
    split at h
    · next index hmain => exact ⟨index, hmain, (Option.some.inj h).symm⟩
    · cases h

theorem owned_step (howned : Owned s) {e : Event Node} (hstep : step overflow s e = some s') :
    Owned s' := by
  cases e with
  | addConnect pNode =>
    obtain ⟨_, _, _, rfl⟩ | ⟨_, hproceeds⟩ := step_addConnect hstep
    · exact howned
    · exact hproceeds.owned howned
  | active written =>
    obtain ⟨_, _, rfl⟩ := step_active hstep
    exact howned
  | start => exact (proceeds_step hstep nofun nofun).owned howned
  | initReturns => exact (proceeds_step hstep nofun nofun).owned howned
  | pipe worker created => exact (proceeds_step hstep nofun nofun).owned howned
  | newBase worker created => exact (proceeds_step hstep nofun nofun).owned howned
  | publish worker => exact (proceeds_step hstep nofun nofun).owned howned
  | listen worker => exact (proceeds_step hstep nofun nofun).owned howned
  | dispatchNull worker => exact (proceeds_step hstep nofun nofun).owned howned

/-- What was given before stays right when more is made. -/
theorem DispatchedReady.proceed (h : DispatchedReady s) (hproceeds : Proceeds s s') :
    DispatchedReady s' := by
  obtain ⟨moreBases, hbases⟩ := hproceeds.bases
  obtain ⟨morePipes, hpipes⟩ := hproceeds.pipes
  refine ⟨fun g hg => ?_, fun b hb => ?_⟩
  · rw [hproceeds.given] at hg
    obtain ⟨base, hbase, howner⟩ := h.given g hg
    exact ⟨base, hbase, hbases ▸ getElem?_of_append howner⟩
  · rw [hproceeds.bytes] at hb
    obtain ⟨fds, hfds, howner⟩ := h.bytes b hb
    exact ⟨fds, hfds, hpipes ▸ getElem?_of_append howner⟩

/-- One step dispatches to a worker that is ready exactly when it meets the
guard. -/
theorem dispatchedReady_step (howned : Owned s) (h : DispatchedReady s) {e : Event Node}
    (hstep : step overflow s e = some s') : DispatchedReady s' ↔ FindsReady overflow s e := by
  cases e with
  | addConnect pNode =>
    obtain ⟨pool, index, hselected, rfl⟩ | ⟨hnone, hproceeds⟩ := step_addConnect hstep
    · have hguard : FindsReady overflow s (.addConnect pNode) ↔
          (s.threads index).stage.hasBase = true := by
        constructor
        · intro hguard
          exact hguard pool index hselected
        · intro hready other index' hother
          obtain ⟨_, hindex⟩ := Prod.mk.inj (Except.ok.inj (hselected.symm.trans hother))
          rw [← Option.some.inj hindex]
          exact hready
      rw [hguard, ← (howned index).hasBase, Option.isSome_iff_exists]
      constructor
      · intro hready
        obtain ⟨base, hbase, _⟩ := hready.given ⟨pNode, index, (s.threads index).base⟩
          (List.mem_append_right _ List.mem_cons_self)
        exact ⟨base, hbase⟩
      · rintro ⟨base, hbase⟩
        refine ⟨fun g hg => ?_, h.bytes⟩
        rcases List.mem_append.mp hg with hold | hnew
        · exact h.given g hold
        · rw [List.mem_singleton.mp hnew]
          exact ⟨base, hbase, (howned index).base base hbase⟩
    · exact iff_of_true (h.proceed hproceeds) fun pool index hselected =>
        absurd hselected (hnone pool index)
  | active written =>
    obtain ⟨index, hmain, rfl⟩ := step_active hstep
    have hguard : FindsReady overflow s (.active written) ↔
        (written = true → (s.threads index).stage.hasPipe = true) := by
      simp only [FindsReady, hmain, Main.pushed.injEq, forall_eq']
    rw [hguard]
    cases written with
    | false => exact iff_of_true ⟨h.given, h.bytes⟩ nofun
    | true =>
      rw [forall_prop_of_true rfl, ← (howned index).hasPipe, Option.isSome_iff_exists]
      constructor
      · intro hready
        obtain ⟨fds, hfds, _⟩ := hready.bytes ⟨index, (s.threads index).fdPipeWirte⟩
          (List.mem_append_right _ List.mem_cons_self)
        exact ⟨fds, hfds⟩
      · rintro ⟨fds, hfds⟩
        refine ⟨h.given, fun b hb => ?_⟩
        rcases List.mem_append.mp hb with hold | hnew
        · exact h.bytes b hold
        · rw [List.mem_singleton.mp hnew]
          exact ⟨fds, hfds, (howned index).pipe fds hfds⟩
  | start => exact iff_of_true (h.proceed (proceeds_step hstep nofun nofun)) trivial
  | initReturns => exact iff_of_true (h.proceed (proceeds_step hstep nofun nofun)) trivial
  | pipe worker created => exact iff_of_true (h.proceed (proceeds_step hstep nofun nofun)) trivial
  | newBase worker created =>
    exact iff_of_true (h.proceed (proceeds_step hstep nofun nofun)) trivial
  | publish worker => exact iff_of_true (h.proceed (proceeds_step hstep nofun nofun)) trivial
  | listen worker => exact iff_of_true (h.proceed (proceeds_step hstep nofun nofun)) trivial
  | dispatchNull worker => exact iff_of_true (h.proceed (proceeds_step hstep nofun nofun)) trivial

end Steps

/-- In a run of any steps every connection gets a base of its worker, and every
byte goes to a pipe of its worker, exactly when `AddConnect` always finds the
base stored and `Active` the pipe. -/
theorem dispatchedReady_along (Node : Type) (overflow : SignedOverflow) (nThreadCount : Int32)
    (es : List (Event Node)) :
    (system overflow Node nThreadCount).Along DispatchedReady
        (system overflow Node nThreadCount).init es ↔
      (system overflow Node nThreadCount).Guarded (FindsReady overflow)
        (system overflow Node nThreadCount).init es := by
  have hkeep : ∀ (s : State Node) (e : Event Node) (s' : State Node), True → Owned s →
      (system overflow Node nThreadCount).step s e = some s' → Owned s' :=
    fun _ _ _ _ howned hstep => owned_step howned hstep
  have hiff : ∀ (s : State Node) (e : Event Node) (s' : State Node), True → Owned s →
      DispatchedReady s → (system overflow Node nThreadCount).step s e = some s' →
        (DispatchedReady s' ↔ FindsReady overflow s e) :=
    fun _ _ _ _ howned h hstep => dispatchedReady_step howned h hstep
  have howned : Owned (system overflow Node nThreadCount).init :=
    fun _ => ⟨nofun, nofun, nofun, rfl, rfl⟩
  have hinit : DispatchedReady (system overflow Node nThreadCount).init := ⟨nofun, nofun⟩
  exact System.along_iff_guarded hkeep hiff howned hinit fun _ _ => trivial

/-- The five workers of `main` are slow and the first connection comes at once:
it gets a null base and its byte goes to descriptor 0. -/
theorem dispatched_before_setUp : ¬∀ (overflow : SignedOverflow) (nThreadCount : Int32)
    (es : List (Event Unit)), (system overflow Unit nThreadCount).Along DispatchedReady
      (system overflow Unit nThreadCount).init es := by
  intro h
  let es : List (Event Unit) :=
    [.start, .start, .start, .start, .start, .initReturns, .addConnect (), .active true]
  have hrun : ((system .wraps Unit 5).run es).any (fun s =>
      s.given.any (fun g => g.worker = 0 ∧ g.base = none) ∧
        s.bytes.any (fun b => b.worker = 0 ∧ b.fd = none)) = true := by decide +kernel
  obtain ⟨s, hs, hboth⟩ := (Option.any_eq_true _ _).mp hrun
  obtain ⟨hgiven, _⟩ := of_decide_eq_true hboth
  obtain ⟨g, hg, hnull⟩ := List.any_eq_true.mp hgiven
  obtain ⟨base, hbase, _⟩ := ((h .wraps 5 es).of_runFrom hs).given g hg
  rw [(of_decide_eq_true hnull).2] at hbase
  cases hbase

end NodeManager.StartUp
