import Mathlib.Data.List.Forall2
import Mathlib.Data.List.Induction

/-!
# Guarded transition systems and their runs

A system is a start state with a partial step function: `none` marks an
event that is disabled. A list of events is executed until its first
disabled event, so statements about all lists speak about all runs. The
main rule turns an exact one-step criterion into an exact criterion for
whole runs: if a step keeps a property precisely when a guard holds of the
state before it, then the property holds along a run precisely when every
executed step meets the guard.
-/

namespace TransitionSystem

/-- A start state and a partial step function on events. -/
structure System (σ ε : Type*) where
  /-- The state before any event. -/
  init : σ
  /-- The state after an event, `none` where the event is disabled. -/
  step : σ → ε → Option σ

namespace System

variable {σ ε : Type*} (sys : System σ ε)

/-- Execute all events in order; `none` as soon as one is disabled. -/
def runFrom : σ → List ε → Option σ
  | s, [] => some s
  | s, e :: es => (sys.step s e).bind fun s' => runFrom s' es

/-- Execute all events from the start state. -/
def run (es : List ε) : Option σ := sys.runFrom sys.init es

/-- The property holds in the given state and in every state which the
execution of the events passes through. -/
def Along (P : σ → Prop) : σ → List ε → Prop
  | s, [] => P s
  | s, e :: es => P s ∧ ∀ s', sys.step s e = some s' → Along P s' es

/-- Every step that is executed meets the guard in the state before it. -/
def Guarded (G : σ → ε → Prop) : σ → List ε → Prop
  | _, [] => True
  | s, e :: es => ∀ s', sys.step s e = some s' → G s e ∧ Guarded G s' es

/-- Every step that is executed relates the state before it to the one after it. -/
def Steps (R : σ → ε → σ → Prop) : σ → List ε → Prop
  | _, [] => True
  | s, e :: es => ∀ s', sys.step s e = some s' → R s e s' ∧ Steps R s' es

/-- The system in which an event happens only in the states that allow it. -/
def restrict (allowed : σ → ε → Bool) : System σ ε where
  init := sys.init
  step s e := if allowed s e then sys.step s e else none

variable {sys}

@[simp] theorem runFrom_nil (s : σ) : sys.runFrom s [] = some s := rfl

theorem runFrom_cons {s s' : σ} {e : ε} (h : sys.step s e = some s') (es : List ε) :
    sys.runFrom s (e :: es) = sys.runFrom s' es := by
  rw [runFrom, h]
  rfl

/-- Executing a concatenation is executing its parts one after the other. -/
theorem runFrom_append (s : σ) (es fs : List ε) :
    sys.runFrom s (es ++ fs) = (sys.runFrom s es).bind fun s' => sys.runFrom s' fs := by
  induction es generalizing s with
  | nil => rfl
  | cons e es ih =>
    rw [List.cons_append, runFrom, runFrom]
    cases sys.step s e with
    | none => rfl
    | some s' => exact ih s'

/-- Executing one event is its step. -/
theorem runFrom_singleton {s s' : σ} {e : ε} (h : sys.step s e = some s') :
    sys.runFrom s [e] = some s' :=
  runFrom_cons h []

/-- A run goes on from the state that it has reached. -/
theorem run_append {s : σ} {es : List ε} (h : sys.run es = some s) (fs : List ε) :
    sys.run (es ++ fs) = sys.runFrom s fs := by
  rw [run, runFrom_append, ← run, h, Option.bind_some]

theorem restrict_step {allowed : σ → ε → Bool} {s s' : σ} {e : ε} :
    (sys.restrict allowed).step s e = some s' ↔ allowed s e = true ∧ sys.step s e = some s' := by
  rw [restrict]
  dsimp only
  split
  · next hallowed => exact (and_iff_right hallowed).symm
  · next hforbidden => exact iff_of_false (fun h => nomatch h) fun h => hforbidden h.1

/-- A run of the restricted system is one of the system. -/
theorem runFrom_of_restrict {allowed : σ → ε → Bool} {s t : σ} {es : List ε}
    (h : (sys.restrict allowed).runFrom s es = some t) : sys.runFrom s es = some t := by
  induction es generalizing s with
  | nil => exact h
  | cons e es ih =>
    rw [runFrom, Option.bind_eq_some_iff] at h
    obtain ⟨s', hstep, hrest⟩ := h
    rw [runFrom_cons (restrict_step.mp hstep).2]
    exact ih hrest

/-- `Along` speaks about exactly the states that the prefixes reach. -/
theorem along_iff_reached {P : σ → Prop} (s : σ) (es : List ε) :
    sys.Along P s es ↔
      ∀ fs, fs <+: es → ∀ s', sys.runFrom s fs = some s' → P s' := by
  induction es generalizing s with
  | nil =>
    constructor
    · intro h fs hfs s' hr
      obtain rfl := List.prefix_nil.mp hfs
      cases hr
      exact h
    · intro h
      exact h [] (List.prefix_refl _) s rfl
  | cons e es ih =>
    constructor
    · rintro ⟨hs, hrest⟩ fs hfs s' hr
      cases fs with
      | nil =>
        cases hr
        exact hs
      | cons f fs =>
        obtain ⟨rfl, htail⟩ := List.cons_prefix_cons.mp hfs
        rw [runFrom, Option.bind_eq_some_iff] at hr
        obtain ⟨t, ht, hr⟩ := hr
        exact (ih t).mp (hrest t ht) fs htail s' hr
    · intro h
      refine ⟨h [] (List.nil_prefix) s rfl, fun t ht => (ih t).mpr ?_⟩
      intro fs hfs s' hr
      refine h (e :: fs) (List.cons_prefix_cons.mpr ⟨rfl, hfs⟩) s' ?_
      rw [runFrom_cons ht]
      exact hr

/-- The state at the end of a run is one of the states it passes through. -/
theorem Along.of_runFrom {P : σ → Prop} {s s' : σ} {es : List ε} (h : sys.Along P s es)
    (hr : sys.runFrom s es = some s') : P s' :=
  (along_iff_reached s es).mp h es (List.prefix_refl es) s' hr

/-- Induction over the history of a run of events in a set: what holds of no
events and the start state, and is passed on by each step, holds of every run
and the state it ends in. -/
theorem run_induction (I : List ε → σ → Prop) {A : ε → Prop} (hinit : I [] sys.init)
    (hstep : ∀ es s e s', A e → I es s → sys.step s e = some s' → I (es ++ [e]) s')
    {es : List ε} (hA : ∀ e ∈ es, A e) {s : σ} (hrun : sys.run es = some s) : I es s := by
  induction es using List.reverseRecOn generalizing s with
  | nil =>
    cases hrun
    exact hinit
  | append_singleton es e ih =>
    rw [run, runFrom_append, Option.bind_eq_some_iff] at hrun
    obtain ⟨t, hbefore, hlast⟩ := hrun
    have hes : ∀ f ∈ es, A f := fun f hf => hA f (List.mem_append_left _ hf)
    have he : A e := hA e (List.mem_append_right _ List.mem_cons_self)
    rw [runFrom, Option.bind_eq_some_iff] at hlast
    obtain ⟨t', hone, hend⟩ := hlast
    cases hend
    exact hstep es t e s he (ih hes hbefore) hone

/-- The first state of an execution has the property. -/
theorem Along.head {P : σ → Prop} {s : σ} {es : List ε} (h : sys.Along P s es) : P s := by
  cases es with
  | nil => exact h
  | cons e es => exact h.1

/-- The steps after a part of an execution are related as well. -/
theorem Steps.of_runFrom {R : σ → ε → σ → Prop} {s t : σ} {es fs : List ε}
    (h : sys.Steps R s (es ++ fs)) (hr : sys.runFrom s es = some t) : sys.Steps R t fs := by
  induction es generalizing s with
  | nil =>
    cases hr
    exact h
  | cons e es ih =>
    rw [runFrom, Option.bind_eq_some_iff] at hr
    obtain ⟨s', hstep, hr⟩ := hr
    exact ih (h s' hstep).2 hr

/-- What holds of every step holds of every execution. -/
theorem steps_of_step {R : σ → ε → σ → Prop} (hR : ∀ s e s', sys.step s e = some s' → R s e s')
    (s : σ) (es : List ε) : sys.Steps R s es := by
  induction es generalizing s with
  | nil => trivial
  | cons e es ih => exact fun s' hstep => ⟨hR s e s' hstep, ih s'⟩

/-- The run rule. Under an invariant `J` of the events in `A`, a step from a
state with `P` is in `R` and keeps `P` exactly when it meets `G`; then a run of
such events keeps `P` by steps in `R` exactly when every executed step meets
`G`. -/
theorem along_steps_iff_guarded {J P : σ → Prop} {A : ε → Prop} {R : σ → ε → σ → Prop}
    {G : σ → ε → Prop} (hJ : ∀ s e s', A e → J s → sys.step s e = some s' → J s')
    (hP : ∀ s e s', A e → J s → P s → sys.step s e = some s' → (P s' ∧ R s e s' ↔ G s e))
    {s : σ} (hs : J s) (hp : P s) {es : List ε} (hA : ∀ e ∈ es, A e) :
    sys.Along P s es ∧ sys.Steps R s es ↔ sys.Guarded G s es := by
  induction es generalizing s with
  | nil => exact ⟨fun _ => trivial, fun _ => ⟨hp, trivial⟩⟩
  | cons e es ih =>
    have he := hA e List.mem_cons_self
    have hes : ∀ f ∈ es, A f := fun f hf => hA f (List.mem_cons_of_mem e hf)
    constructor
    · rintro ⟨⟨_, halong⟩, hsteps⟩ s' hstep
      obtain ⟨hrel, hrest⟩ := hsteps s' hstep
      have hp' := (halong s' hstep).head
      have hj' := hJ s e s' he hs hstep
      exact ⟨(hP s e s' he hs hp hstep).mp ⟨hp', hrel⟩,
        (ih hj' hp' hes).mp ⟨halong s' hstep, hrest⟩⟩
    · intro hg
      have hboth : ∀ s', sys.step s e = some s' →
          R s e s' ∧ sys.Along P s' es ∧ sys.Steps R s' es := by
        intro s' hstep
        obtain ⟨hge, hrest⟩ := hg s' hstep
        obtain ⟨hp', hrel⟩ := (hP s e s' he hs hp hstep).mpr hge
        exact ⟨hrel, (ih (hJ s e s' he hs hstep) hp' hes).mpr hrest⟩
      exact ⟨⟨hp, fun s' hstep => (hboth s' hstep).2.1⟩,
        fun s' hstep => ⟨(hboth s' hstep).1, (hboth s' hstep).2.2⟩⟩

/-- The run rule for a property of states alone: if a step keeps `P` exactly
when it meets `G`, then `P` holds along a run exactly when every executed step
meets `G`. -/
theorem along_iff_guarded {J P : σ → Prop} {A : ε → Prop} {G : σ → ε → Prop}
    (hJ : ∀ s e s', A e → J s → sys.step s e = some s' → J s')
    (hP : ∀ s e s', A e → J s → P s → sys.step s e = some s' → (P s' ↔ G s e))
    {s : σ} (hs : J s) (hp : P s) {es : List ε} (hA : ∀ e ∈ es, A e) :
    sys.Along P s es ↔ sys.Guarded G s es := by
  have hboth : ∀ s e s', A e → J s → P s → sys.step s e = some s' → (P s' ∧ True ↔ G s e) :=
    fun s e s' he hj hp' hstep => (and_iff_left trivial).trans (hP s e s' he hj hp' hstep)
  rw [← along_steps_iff_guarded hJ hboth hs hp hA]
  exact (and_iff_left (steps_of_step (fun _ _ _ _ => trivial) s es)).symm

/-- The run rule for a relation of steps alone. -/
theorem steps_iff_guarded {J : σ → Prop} {A : ε → Prop} {R : σ → ε → σ → Prop}
    {G : σ → ε → Prop} (hJ : ∀ s e s', A e → J s → sys.step s e = some s' → J s')
    (hR : ∀ s e s', A e → J s → sys.step s e = some s' → (R s e s' ↔ G s e))
    {s : σ} (hs : J s) {es : List ε} (hA : ∀ e ∈ es, A e) :
    sys.Steps R s es ↔ sys.Guarded G s es := by
  have hboth : ∀ s e s', A e → J s → True → sys.step s e = some s' →
      (True ∧ R s e s' ↔ G s e) :=
    fun s e s' he hj _ hstep => (and_iff_right trivial).trans (hR s e s' he hj hstep)
  rw [← along_steps_iff_guarded hJ hboth hs trivial hA]
  have htrue : sys.Along (fun _ => True) s es :=
    (along_iff_reached s es).mpr fun _ _ _ _ => trivial
  exact (and_iff_right htrue).symm

/-- `Guarded` speaks about exactly the steps that are executed. -/
theorem guarded_iff_executed {G : σ → ε → Prop} (s : σ) (es : List ε) :
    sys.Guarded G s es ↔ ∀ before e after, es = before ++ e :: after →
      ∀ t t', sys.runFrom s before = some t → sys.step t e = some t' → G t e := by
  induction es generalizing s with
  | nil =>
    refine iff_of_true trivial ?_
    intro before e after hsplit
    exact absurd hsplit.symm (List.append_ne_nil_of_right_ne_nil _ (List.cons_ne_nil _ _))
  | cons f es ih =>
    constructor
    · intro h before e after hsplit t t' hr hstep
      cases before with
      | nil =>
        obtain ⟨rfl, rfl⟩ := List.cons_eq_cons.mp hsplit
        cases hr
        exact (h t' hstep).1
      | cons b before =>
        obtain ⟨rfl, rfl⟩ := List.cons_eq_cons.mp hsplit
        rw [runFrom, Option.bind_eq_some_iff] at hr
        obtain ⟨s', hfirst, hr⟩ := hr
        exact (ih s').mp (h s' hfirst).2 before e after rfl t t' hr hstep
    · intro h s' hstep
      refine ⟨h [] f es rfl s s' rfl hstep, (ih s').mpr ?_⟩
      intro before e after hsplit t t' hr hlast
      refine h (f :: before) e after (by rw [hsplit, List.cons_append]) t t' ?_ hlast
      rw [runFrom_cons hstep]
      exact hr

/-- The steps of a part of an execution meet the guard as well. -/
theorem Guarded.of_append {G : σ → ε → Prop} {s : σ} {es fs : List ε}
    (h : sys.Guarded G s (es ++ fs)) : sys.Guarded G s es := by
  induction es generalizing s with
  | nil => trivial
  | cons e es ih => exact fun s' hstep => ⟨(h s' hstep).1, ih (h s' hstep).2⟩

/-- A guard that follows from another one is met by the same executions. -/
theorem Guarded.mono {G H : σ → ε → Prop} (hGH : ∀ s e, G s e → H s e) {s : σ} {es : List ε}
    (h : sys.Guarded G s es) : sys.Guarded H s es := by
  induction es generalizing s with
  | nil => trivial
  | cons e es ih => exact fun s' hstep => ⟨hGH s e (h s' hstep).1, ih (h s' hstep).2⟩

/-- What is known of each event may be added to the guard. -/
theorem Guarded.and_events {G : σ → ε → Prop} {A : ε → Prop} {s : σ} {es : List ε}
    (h : sys.Guarded G s es) (hA : ∀ e ∈ es, A e) : sys.Guarded (fun s e => G s e ∧ A e) s es := by
  induction es generalizing s with
  | nil => trivial
  | cons e es ih =>
    intro s' hstep
    obtain ⟨hguard, hrest⟩ := h s' hstep
    exact ⟨⟨hguard, hA e List.mem_cons_self⟩,
      ih hrest fun f hf => hA f (List.mem_cons_of_mem e hf)⟩

/-- What every step that meets the guard keeps holds along a guarded run. -/
theorem Guarded.along {I : σ → Prop} {G : σ → ε → Prop}
    (hkeep : ∀ s e s', I s → G s e → sys.step s e = some s' → I s') {s : σ} {es : List ε}
    (h : sys.Guarded G s es) (hs : I s) : sys.Along I s es := by
  induction es generalizing s with
  | nil => exact hs
  | cons e es ih =>
    refine ⟨hs, fun s' hstep => ?_⟩
    obtain ⟨hguard, hrest⟩ := h s' hstep
    exact ih hrest (hkeep s e s' hs hguard hstep)

/-- The simulation rule. Where each step of a system, as long as the state is
fine, is matched by events of another one from the abstraction of its state to
that of the next, so is every run, event by event. -/
theorem run_of_simulation {σ' ε' : Type*} {spec : System σ' ε'} {I fine : σ → Prop}
    {matched : ε → List ε' → Prop} (abs : σ → σ') (hinit : abs sys.init = spec.init)
    (hI : I sys.init) (hfine : ∀ s e s', sys.step s e = some s' → fine s)
    (hsim : ∀ s e s', I s → fine s' → sys.step s e = some s' →
      I s' ∧ ∃ fs, matched e fs ∧ spec.runFrom (abs s) fs = some (abs s'))
    {es : List ε} {s : σ} (hrun : sys.run es = some s) (hs : fine s) :
    I s ∧ ∃ fss, List.Forall₂ matched es fss ∧ spec.run fss.flatten = some (abs s) := by
  have hall : fine s → I s ∧ ∃ fss, List.Forall₂ matched es fss ∧
      spec.run fss.flatten = some (abs s) := by
    refine run_induction (A := fun _ => True) (fun es s => fine s → I s ∧ ∃ fss,
      List.Forall₂ matched es fss ∧ spec.run fss.flatten = some (abs s)) ?_ ?_
      (fun _ _ => trivial) hrun
    · exact fun _ => ⟨hI, [], .nil, by rw [hinit]; rfl⟩
    · intro es s e s' _ h hstep hs'
      obtain ⟨hs, fss, hmatched, hspec⟩ := h (hfine s e s' hstep)
      obtain ⟨hnext, fs, hlast, hone⟩ := hsim s e s' hs hs' hstep
      refine ⟨hnext, fss ++ [fs], List.rel_append hmatched (.cons hlast .nil), ?_⟩
      rw [List.flatten_append, run_append hspec, List.flatten_singleton, hone]
  exact hall hs

/-- Events of a set alone go on for a bounded number of steps, and however they
went on, they can still lead to a state that is done. -/
def Settles (sys : System σ ε) (own : ε → Prop) (done : σ → Prop) (s : σ) : Prop :=
  ∃ bound, ∀ es s', (∀ e ∈ es, own e) → sys.runFrom s es = some s' → es.length ≤ bound ∧
    ∃ fs t, (∀ e ∈ fs, own e) ∧ sys.runFrom s' fs = some t ∧ done t

/-- A measure that own events bring down bounds their number. -/
theorem length_le_of_measure {I : σ → Prop} {own : ε → Prop} {μ : σ → ℕ}
    (hdown : ∀ s e s', I s → own e → sys.step s e = some s' → I s' ∧ μ s' < μ s) {s s' : σ}
    (hs : I s) {es : List ε} (hown : ∀ e ∈ es, own e) (hrun : sys.runFrom s es = some s') :
    I s' ∧ es.length + μ s' ≤ μ s := by
  induction es generalizing s with
  | nil =>
    cases hrun
    exact ⟨hs, Nat.le_of_eq (Nat.zero_add _)⟩
  | cons e es ih =>
    rw [runFrom, Option.bind_eq_some_iff] at hrun
    obtain ⟨t, hstep, hrest⟩ := hrun
    obtain ⟨ht, hlt⟩ := hdown s e t hs (hown e List.mem_cons_self) hstep
    obtain ⟨hs', hle⟩ := ih ht (fun f hf => hown f (List.mem_cons_of_mem e hf)) hrest
    rw [List.length_cons]
    exact ⟨hs', by omega⟩

/-- The rule for settling: own events bring a measure down, and one of them can
happen unless the state is done. -/
theorem settles_of_measure {I : σ → Prop} {own : ε → Prop} {done : σ → Prop} (μ : σ → ℕ)
    (hdown : ∀ s e s', I s → own e → sys.step s e = some s' → I s' ∧ μ s' < μ s)
    (hgo : ∀ s, I s → ¬done s → ∃ e s', own e ∧ sys.step s e = some s') {s : σ} (hs : I s) :
    sys.Settles own done s := by
  have hdone : ∀ n s, μ s ≤ n → I s →
      ∃ fs t, (∀ e ∈ fs, own e) ∧ sys.runFrom s fs = some t ∧ done t := by
    intro n
    induction n with
    | zero =>
      intro s hzero hs
      by_cases hd : done s
      · exact ⟨[], s, fun _ he => (nomatch he), rfl, hd⟩
      · obtain ⟨e, s', he, hstep⟩ := hgo s hs hd
        have hlt := (hdown s e s' hs he hstep).2
        omega
    | succ n ih =>
      intro s hle hs
      by_cases hd : done s
      · exact ⟨[], s, fun _ he => (nomatch he), rfl, hd⟩
      · obtain ⟨e, s', he, hstep⟩ := hgo s hs hd
        obtain ⟨hs', hlt⟩ := hdown s e s' hs he hstep
        obtain ⟨fs, t, hfs, hrun, ht⟩ := ih s' (by omega) hs'
        refine ⟨e :: fs, t, List.forall_mem_cons.mpr ⟨he, hfs⟩, ?_, ht⟩
        rw [runFrom_cons hstep, hrun]
  refine ⟨μ s, fun es s' hown hrun => ?_⟩
  obtain ⟨hs', hle⟩ := length_le_of_measure hdown hs hown hrun
  exact ⟨by omega, hdone (μ s') s' (Nat.le_refl _) hs'⟩

/-- Two guarded runs of pairwise related events from related states pass
through related states. -/
theorem Guarded.related {R : σ → σ → Prop} {Q : ε → ε → Prop} {G : σ → ε → Prop}
    (hstep : ∀ {s t e f s' t'}, R s t → Q e f → G s e → G t f → sys.step s e = some s' →
      sys.step t f = some t' → R s' t')
    {s t s' t' : σ} {es fs : List ε} (hes : sys.Guarded G s es) (hfs : sys.Guarded G t fs)
    (hevents : List.Forall₂ Q es fs) (hst : R s t) (hs : sys.runFrom s es = some s')
    (ht : sys.runFrom t fs = some t') : R s' t' := by
  induction hevents generalizing s t with
  | nil =>
    cases hs
    cases ht
    exact hst
  | cons hef _ ih =>
    rw [runFrom, Option.bind_eq_some_iff] at hs ht
    obtain ⟨u, hone, hs⟩ := hs
    obtain ⟨v, hother, ht⟩ := ht
    obtain ⟨hge, hes⟩ := hes u hone
    obtain ⟨hgf, hfs⟩ := hfs v hother
    exact ih hes hfs (hstep hst hef hge hgf hone hother) hs ht

end System

end TransitionSystem
