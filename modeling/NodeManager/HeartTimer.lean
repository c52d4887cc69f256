import Mathlib.Data.List.Perm.Subperm
import NodeManager.Client

/-!
# The heartbeat timers

`ReadCB` makes a persistent timer for every login response and nothing ever
deletes one, so the timers of a run are counted by the login responses that it
reads. `m_pevTimer` names the last of them. A period of five seconds, in which
no timer fires twice, then has a single tick exactly as long as there was a
single login response.
-/

namespace NodeManager.Client

open ByteMemory TransitionSystem

variable (host : ByteOrder)

/-- The event is a read that returns `RESP_NODE_LOGIN`. -/
def ReadsLoginResponse : Event → Prop
  | .readCB _ _ input _ => ClientConnect.Receives host input .respNodeLogin
  | _ => False

instance : DecidablePred (ReadsLoginResponse host)
  | .connectToSerd _ _ => inferInstanceAs (Decidable False)
  | .readTerminal => inferInstanceAs (Decidable False)
  | .readCB _ _ input _ =>
    inferInstanceAs (Decidable (ClientConnect.Receives host input .respNodeLogin))
  | .errorCB _ _ _ => inferInstanceAs (Decidable False)
  | .heartTimeoutCB _ _ _ _ => inferInstanceAs (Decidable False)

/-- The number of login responses that are read. -/
def loginResponses (es : List Event) : ℕ := es.countP fun e => ReadsLoginResponse host e

/-- The timer that an event is a tick of. -/
def Event.tick? : Event → Option ℕ
  | .heartTimeoutCB timer _ _ _ => some timer
  | _ => none

/-- The timers that tick, each as often as it does. A tick is one heartbeat or
one attempt to reconnect. -/
def ticks (es : List Event) : List ℕ := es.filterMap Event.tick?

/-- At most one timer is pending, and it is the one in `m_pevTimer`. -/
structure OneTimer (s : State) : Prop where
  atMostOne : s.timers ≤ 1
  stored : ∀ timer < s.timers, s.pevTimer = some timer

/-- In a part of the run in which no persistent timer fires twice there is at
most one tick. -/
def TicksOnce (es : List Event) : Prop :=
  ∀ before period, before ++ period <+: es →
    ((system host).run (before ++ period)).isSome → (ticks period).Nodup →
      (ticks period).length ≤ 1

/-- What the timers of a run should be. -/
structure SingleTimer (es : List Event) : Prop where
  everywhere : (system host).Along OneTimer State.init es
  ticksOnce : TicksOnce host es

/-- The timers and the one that is stored. -/
def State.timerView (s : State) : ℕ × Option ℕ := (s.timers, s.pevTimer)

section Events

variable {host} {s s' : State}

theorem timerView_connectToSerd (s : State) (byTimer : Bool) (now : ℤ) (outcome : Outcome) :
    (s.connectToSerd byTimer now outcome).1.timerView = s.timerView := by
  have hreplaced : (s.noteReplaced now).timerView = s.timerView := by
    unfold State.noteReplaced
    cases s.pBev <;> rfl
  cases outcome <;> exact hreplaced

theorem timerView_buffereventWrite (s : State) (buffer : List UInt8) :
    (s.buffereventWrite buffer).timerView = s.timerView := by
  unfold State.buffereventWrite
  cases s.pBev <;> rfl

/-- A login response adds the timer of the next number, which is then the one
in `m_pevTimer`; nothing else changes the timers. -/
theorem timerView_step {e : Event} (hstep : step host s e = some s') : s'.timerView =
    if ReadsLoginResponse host e then (s.timers + 1, some s.timers) else s.timerView := by
  cases e with
  | connectToSerd now outcome =>
    obtain rfl := step_connectToSerd hstep
    exact timerView_connectToSerd s false now outcome
  | readTerminal =>
    obtain ⟨_, _, _, rfl⟩ := step_readTerminal hstep
    rfl
  | readCB bev stack input now =>
    obtain ⟨_, _, _, ⟨hid, rfl⟩ | ⟨hid, rfl⟩ | ⟨hid, rfl⟩ | ⟨hid, rfl⟩⟩ := step_readCB hstep
    · exact (if_pos hid).symm
    · refine (if_neg fun hlogin => ?_).symm
      exact absurd (hlogin.2.2.symm.trans hid.2.2) (by decide)
    · refine (if_neg fun hlogin => ?_).symm
      exact absurd (hlogin.2.2.symm.trans hid.2.2) (by decide)
    · exact (if_neg (hid .respNodeLogin List.mem_cons_self)).symm
  | errorCB bev event now =>
    obtain ⟨_, _, _, rfl⟩ := step_errorCB hstep
    have hreport : (s.errorCB (Report.ofFlags event)).timerView = s.timerView := by
      cases Report.ofFlags event <;> rfl
    exact hreport
  | heartTimeoutCB timer cur outcome later =>
    obtain ⟨_, rfl⟩ := step_heartTimeoutCB hstep
    have hview := State.heartTimeoutCB_view timerView_buffereventWrite (fun _ _ => rfl) s host
      cur outcome later
    rw [timerView_connectToSerd s true cur outcome, ite_self] at hview
    exact hview

end Events

/-- The timers are the login responses read so far, the last of them is the
stored one, and only such timers have ticked. -/
structure TimersCounted (es : List Event) (s : State) : Prop where
  count : s.timers = loginResponses host es
  last : ∀ timer, s.pevTimer = some timer ↔ timer + 1 = s.timers
  ticked : ∀ timer ∈ ticks es, timer < s.timers

section Runs

variable {host} {s : State} {es : List Event}

theorem timersCounted_step {s' : State} {e : Event} (h : TimersCounted host es s)
    (hstep : step host s e = some s') : TimersCounted host (es ++ [e]) s' := by
  have hticked : ∀ timer ∈ ticks (es ++ [e]), timer < s.timers := by
    intro timer hmem
    rw [ticks, List.filterMap_append, List.mem_append] at hmem
    rcases hmem with hbefore | hnow
    · exact h.ticked timer hbefore
    · rw [List.mem_filterMap] at hnow
      obtain ⟨f, hf, htick⟩ := hnow
      obtain rfl := List.mem_singleton.mp hf
      cases f with
      | heartTimeoutCB own cur outcome later =>
        obtain ⟨hlt, _⟩ := step_heartTimeoutCB hstep
        cases htick
        exact hlt
      | connectToSerd => cases htick
      | readTerminal => cases htick
      | readCB => cases htick
      | errorCB => cases htick
  have hcount : loginResponses host (es ++ [e]) =
      s.timers + if ReadsLoginResponse host e then 1 else 0 := by
    rw [loginResponses, List.countP_append, List.countP_singleton, ← loginResponses, ← h.count]
    simp only [decide_eq_true_eq]
  have hview := timerView_step hstep
  by_cases hreads : ReadsLoginResponse host e
  · rw [if_pos hreads] at hcount hview
    obtain ⟨htimers, hlast⟩ := Prod.ext_iff.mp hview
    simp only [State.timerView] at htimers hlast
    refine ⟨htimers.trans hcount.symm, fun timer => ?_, fun timer hmem => ?_⟩
    · simp only [hlast, htimers, Option.some.injEq]
      omega
    · have hlt := hticked timer hmem
      omega
  · rw [if_neg hreads] at hcount hview
    obtain ⟨htimers, hlast⟩ := Prod.ext_iff.mp hview
    simp only [State.timerView] at htimers hlast
    refine ⟨htimers.trans hcount.symm, fun timer => ?_, fun timer hmem => ?_⟩
    · rw [hlast, htimers]
      exact h.last timer
    · rw [htimers]
      exact hticked timer hmem

theorem timersCounted_run (hrun : (system host).run es = some s) : TimersCounted host es s := by
  have hinit : TimersCounted host [] State.init := by
    refine ⟨rfl, fun timer => ?_, fun timer hmem => (nomatch hmem)⟩
    simp only [State.init, reduceCtorEq, Nat.add_eq_zero_iff, one_ne_zero, and_false]
  have hkeep : ∀ es s e s', True → TimersCounted host es s →
      (system host).step s e = some s' → TimersCounted host (es ++ [e]) s' :=
    fun _ _ _ _ _ h hstep => timersCounted_step h hstep
  exact System.run_induction (TimersCounted host) hinit hkeep (fun _ _ => trivial) hrun

/-- The stored timer is the only one exactly when there was at most one login
response. -/
theorem TimersCounted.oneTimer (h : TimersCounted host es s) :
    OneTimer s ↔ loginResponses host es ≤ 1 := by
  rw [← h.count]
  constructor
  · intro hone
    exact hone.atMostOne
  · intro hle
    refine ⟨hle, fun timer hlt => (h.last timer).mpr ?_⟩
    omega

/-- A timer that ticks at most once in a period is one tick. -/
theorem TimersCounted.ticks_le {before period : List Event}
    (h : TimersCounted host (before ++ period) s) (honce : (ticks period).Nodup) :
    (ticks period).length ≤ s.timers := by
  have hsubset : ticks period ⊆ List.range s.timers := by
    intro timer hmem
    refine List.mem_range.mpr (h.ticked timer ?_)
    rw [ticks, List.filterMap_append]
    exact List.mem_append_right _ hmem
  have hle := (List.subperm_of_subset honce hsubset).length_le
  rwa [List.length_range] at hle

end Runs

/-- In a run of any events there is never more than the stored timer, and never
more than one tick to a period, exactly as long as at most one login response
has been read. -/
theorem singleTimer_iff (es : List Event) : SingleTimer host es ↔
    ∀ fs, fs <+: es → ((system host).run fs).isSome → loginResponses host fs ≤ 1 := by
  constructor
  · intro h fs hfs hruns
    obtain ⟨s, hs⟩ := Option.isSome_iff_exists.mp hruns
    have hone := (System.along_iff_reached State.init es).mp h.everywhere fs hfs s hs
    exact (timersCounted_run hs).oneTimer.mp hone
  · intro h
    have halong : (system host).Along OneTimer State.init es := by
      refine (System.along_iff_reached State.init es).mpr fun fs hfs s hs => ?_
      have hle := h fs hfs (Option.isSome_iff_exists.mpr ⟨s, hs⟩)
      exact (timersCounted_run hs).oneTimer.mpr hle
    refine ⟨halong, fun before period hpart hruns honce => ?_⟩
    obtain ⟨s, hs⟩ := Option.isSome_iff_exists.mp hruns
    have hcounted := timersCounted_run hs
    have hone := hcounted.oneTimer.mpr (h _ hpart hruns)
    exact (hcounted.ticks_le honce).trans hone.atMostOne

/-- The server answers a login twice. -/
theorem two_timers : ¬∀ (host : ByteOrder) (es : List Event), SingleTimer host es := by
  intro h
  let es : List Event := [.connectToSerd 0 .pending, .errorCB 0 bevEventConnected 0,
    .readTerminal, .readCB 0 .zeros [0, 100, 2, 1, 0, 3, 3, 233] 1,
    .readCB 0 .zeros [0, 100, 2, 1, 0, 3, 3, 233] 1,
    .heartTimeoutCB 0 6 .pending 6, .heartTimeoutCB 1 6 .pending 6]
  have hrun : ((system .little).run es).any (fun s => s.timers = 2) = true := by decide +kernel
  obtain ⟨s, hs, htimers⟩ := (Option.any_eq_true _ _).mp hrun
  have hone := (h .little es).everywhere.of_runFrom hs
  have hle := hone.atMostOne
  rw [of_decide_eq_true htimers] at hle
  omega

end NodeManager.Client
