import NodeManager.HeartTimer

/-!
# The connections that the client holds

`ConnectToSerd` overwrites `m_sockFd` and `m_pBev` before it knows how the
attempt goes, and no client function frees a bufferevent. What the client
holds is the two members and the open handles behind them: every event either
leaves it as it is or makes one attempt, and a second attempt always leaves
the first connection open behind the members.
-/

namespace NodeManager.Client

open ByteMemory TransitionSystem

variable (host : ByteOrder)

/-- A bufferevent that owns the socket was freed, which closes the socket. -/
def State.closed (s : State) (fd : ℕ) : Prop :=
  ∃ bev c, s.conn bev = some c ∧ c.fd = fd ∧ c.freed = true

/-- Every bufferevent and every socket but those in the members is closed. -/
structure HoldsOne (s : State) : Prop where
  bevs : ∀ bev c, s.conn bev = some c → s.pBev ≠ some bev → c.freed = true
  sockets : ∀ fd < s.sockets, s.sockFd ≠ some fd → s.closed fd

/-- A call of `ConnectToSerd` comes back with false. -/
def ReturnsFalse (s : State) (byTimer : Bool) (now : ℤ) (outcome : Outcome) : Prop :=
  (s.connectToSerd byTimer now outcome).1.status = .running ∧
    (s.connectToSerd byTimer now outcome).2 = false

/-- The event makes a call of `ConnectToSerd` that comes back with false. -/
def FailedCall (s : State) : Event → Prop
  | .connectToSerd now outcome => ReturnsFalse s false now outcome
  | .heartTimeoutCB _ cur outcome _ => s.expired cur ∧ ReturnsFalse s true cur outcome
  | _ => False

/-- The members are as before, and what is new is closed. -/
structure LeavesNothing (s s' : State) : Prop where
  pBev : s'.pBev = s.pBev
  sockFd : s'.sockFd = s.sockFd
  bevs : ∀ bev c, s'.conn bev = some c → s.conn bev = none → c.freed = true
  sockets : ∀ fd, s.sockets ≤ fd → fd < s'.sockets → s'.closed fd

/-- A failed call leaves nothing behind. -/
def CleansUp (s : State) (e : Event) (s' : State) : Prop := FailedCall s e → LeavesNothing s s'

/-- The step makes no call of `ConnectToSerd`, or the first one, and that does
not fail. -/
def ConnectsOnce (s : State) : Event → Prop
  | .connectToSerd _ outcome => s.sockets = 0 ∧ outcome ≠ .failed
  | .heartTimeoutCB _ cur _ _ => ¬s.expired cur
  | _ => True

/-- The members, and the socket of every bufferevent with whether it was freed. -/
structure Holding where
  /-- `m_pBev`. -/
  pBev : Option ℕ
  /-- `m_sockFd`. -/
  sockFd : Option ℕ
  /-- The number of sockets made. -/
  sockets : ℕ
  /-- The socket that a bufferevent owns, and whether it was freed. -/
  handles : ℕ → Option (ℕ × Bool)

/-- An attempt to connect, whether or not it succeeds. -/
def Holding.attempt (h : Holding) (outcome : Outcome) : Holding where
  pBev := if outcome = .noBufferevent then none else some h.sockets
  sockFd := some h.sockets
  sockets := h.sockets + 1
  handles := if outcome = .noBufferevent then h.handles
    else Function.update h.handles h.sockets (some (h.sockets, false))

/-- What the client holds in a state. -/
def State.holding (s : State) : Holding where
  pBev := s.pBev
  sockFd := s.sockFd
  sockets := s.sockets
  handles := fun bev => (s.conn bev).map fun c => (c.fd, c.freed)

/-- The outcome of the call of `ConnectToSerd` that an event makes. -/
def attempt? (s : State) : Event → Option Outcome
  | .connectToSerd _ outcome => some outcome
  | .heartTimeoutCB _ cur outcome _ => if s.expired cur then some outcome else none
  | _ => none

section Operations

variable {host} {s s' : State}

/-- A change that is not to the socket and frees nothing. -/
theorem holding_onConn (s : State) (bev : ℕ) {f : Conn → Conn}
    (hf : ∀ c, (f c).fd = c.fd ∧ (f c).freed = c.freed) : (s.onConn bev f).holding = s.holding := by
  have hhandles : (s.onConn bev f).holding.handles = s.holding.handles := by
    funext other
    dsimp only [State.holding]
    by_cases hsame : other = bev
    · rw [hsame, State.onConn_self, Option.map_map]
      refine congrArg (fun g => Option.map g (s.conn bev)) (funext fun c => ?_)
      exact Prod.ext (hf c).1 (hf c).2
    · rw [State.onConn_ne s hsame]
  exact congrArg (fun handles => { s.holding with handles }) hhandles

theorem holding_noteReplaced (s : State) (now : ℤ) :
    (s.noteReplaced now).holding = s.holding := by
  unfold State.noteReplaced
  cases s.pBev with
  | none => rfl
  | some bev => exact holding_onConn s bev fun _ => ⟨rfl, rfl⟩

theorem holding_buffereventWrite (s : State) (buffer : List UInt8) :
    (s.buffereventWrite buffer).holding = s.holding := by
  cases hbev : s.pBev with
  | none =>
    rw [State.buffereventWrite_null hbev]
    rfl
  | some bev =>
    rw [State.buffereventWrite_of hbev]
    exact holding_onConn s bev fun _ => ⟨rfl, rfl⟩

theorem handles_storeBev (s : State) (fd : ℕ) (byTimer callbacks : Bool) :
    (s.storeBev fd byTimer callbacks).holding.handles =
      Function.update s.holding.handles fd (some (fd, false)) := by
  funext bev
  dsimp only [State.holding, State.storeBev]
  by_cases hsame : bev = fd
  · rw [hsame, Function.update_self, Function.update_self]
    rfl
  · rw [Function.update_of_ne hsame, Function.update_of_ne hsame]

/-- `ConnectToSerd` holds what an attempt holds. -/
theorem holding_connectToSerd (s : State) (byTimer : Bool) (now : ℤ) (outcome : Outcome) :
    (s.connectToSerd byTimer now outcome).1.holding = s.holding.attempt outcome := by
  rw [← holding_noteReplaced s now]
  have hsockets : (s.noteReplaced now).sockets = s.sockets :=
    congrArg Holding.sockets (holding_noteReplaced s now)
  unfold State.connectToSerd Holding.attempt
  rw [← hsockets]
  set old := s.noteReplaced now
  set made : State := { old with sockFd := some old.sockets, sockets := old.sockets + 1 }
  cases outcome with
  | noBufferevent => rfl
  | failed =>
    have hhandles := handles_storeBev made old.sockets byTimer false
    exact congrArg (fun handles : ℕ → Option (ℕ × Bool) =>
      (⟨some old.sockets, some old.sockets, old.sockets + 1, handles⟩ : Holding)) hhandles
  | pending =>
    have hhandles := handles_storeBev made old.sockets byTimer true
    exact congrArg (fun handles : ℕ → Option (ℕ × Bool) =>
      (⟨some old.sockets, some old.sockets, old.sockets + 1, handles⟩ : Holding)) hhandles

/-- An event makes one attempt or leaves everything as it is. -/
theorem holding_step {e : Event} (hstep : step host s e = some s') :
    s'.holding = (attempt? s e).elim s.holding s.holding.attempt := by
  cases e with
  | connectToSerd now outcome =>
    obtain rfl := step_connectToSerd hstep
    exact holding_connectToSerd s false now outcome
  | readTerminal =>
    obtain ⟨bev, _, _, rfl⟩ := step_readTerminal hstep
    rw [State.onConn_onConn]
    exact holding_onConn _ bev fun _ => ⟨rfl, rfl⟩
  | readCB bev stack input now =>
    have hresponse : ∀ t : State, t.holding = s.holding →
        (t.onConn bev Conn.noteResponse).holding = s.holding := by
      intro t ht
      rw [← ht]
      exact holding_onConn t bev fun _ => ⟨rfl, rfl⟩
    obtain ⟨_, _, _, ⟨_, rfl⟩ | ⟨_, rfl⟩ | ⟨_, rfl⟩ | ⟨_, rfl⟩⟩ := step_readCB hstep
    · exact hresponse _ rfl
    · exact hresponse _ rfl
    · rfl
    · rfl
  | errorCB bev event now =>
    obtain ⟨_, _, _, rfl⟩ := step_errorCB hstep
    have hreport : (s.errorCB (Report.ofFlags event)).holding = s.holding := by
      cases Report.ofFlags event <;> rfl
    refine (holding_onConn _ bev fun c => ?_).trans hreport
    cases Report.ofFlags event <;> exact ⟨rfl, rfl⟩
  | heartTimeoutCB timer cur outcome later =>
    obtain ⟨_, rfl⟩ := step_heartTimeoutCB hstep
    have hview := State.heartTimeoutCB_view holding_buffereventWrite (fun _ _ => rfl) s host cur
      outcome later
    rw [hview, attempt?, holding_connectToSerd]
    split
    · rfl
    · rfl

end Operations

/-- Every handle has the number of its socket and is open. -/
def Holding.Open (h : Holding) : Prop :=
  ∀ bev handle, h.handles bev = some handle → bev < h.sockets ∧ handle = (bev, false)

/-- Nothing is ever freed, and a client that has called `ConnectToSerd` holds a
connection as long as it runs. -/
structure AllOpen (s : State) : Prop where
  handles : s.holding.Open
  called : s.status = .running → 0 < s.sockets → ∃ bev handle, s.holding.handles bev = some handle
  timers : 0 < s.timers → ∃ bev handle, s.holding.handles bev = some handle

section Steps

variable {host} {s s' : State}

theorem allOpen_init : AllOpen State.init :=
  ⟨fun _ _ hnone => (nomatch hnone), fun _ hlt => (nomatch hlt), fun hlt => (nomatch hlt)⟩

/-- A connection of the invariant, as it is held. -/
theorem AllOpen.conn (h : AllOpen s) {bev : ℕ} {c : Conn} (hc : s.conn bev = some c) :
    bev < s.sockets ∧ c.fd = bev ∧ c.freed = false := by
  have hhandle : s.holding.handles bev = some (c.fd, c.freed) := by
    dsimp only [State.holding]
    rw [hc, Option.map_some]
  obtain ⟨hlt, heq⟩ := h.handles bev _ hhandle
  obtain ⟨hfd, hfreed⟩ := Prod.mk.inj heq
  exact ⟨hlt, hfd, hfreed⟩

/-- No socket is ever closed. -/
theorem AllOpen.not_closed (h : AllOpen s) (fd : ℕ) : ¬s.closed fd := by
  rintro ⟨bev, c, hc, _, hfreed⟩
  rw [(h.conn hc).2.2] at hfreed
  cases hfreed

/-- What is held before a step is held after it. -/
theorem AllOpen.kept (h : AllOpen s) {e : Event} (hstep : step host s e = some s') {bev : ℕ}
    {handle : ℕ × Bool} (hheld : s.holding.handles bev = some handle) :
    s'.holding.handles bev = some handle := by
  rw [holding_step hstep]
  cases attempt? s e with
  | none => exact hheld
  | some outcome =>
    have hne : bev ≠ s.holding.sockets := (h.handles bev handle hheld).1.ne
    dsimp only [Option.elim_some, Holding.attempt]
    split
    · exact hheld
    · rwa [Function.update_of_ne hne]

/-- An attempt opens at most the handle of its socket. -/
theorem Holding.Open.attempt {h : Holding} (hopen : h.Open) (outcome : Outcome) :
    (h.attempt outcome).Open := by
  intro bev handle hheld
  have hold : h.handles bev = some handle → bev < h.sockets + 1 ∧ handle = (bev, false) := by
    intro hbefore
    obtain ⟨hlt, heq⟩ := hopen bev handle hbefore
    exact ⟨Nat.lt_succ_of_lt hlt, heq⟩
  dsimp only [Holding.attempt] at hheld ⊢
  split at hheld
  · exact hold hheld
  · by_cases hnew : bev = h.sockets
    · rw [hnew, Function.update_self, Option.some.injEq] at hheld
      rw [hnew, ← hheld]
      exact ⟨Nat.lt_succ_self _, rfl⟩
    · rw [Function.update_of_ne hnew] at hheld
      exact hold hheld

/-- The attempt of an event holds a connection afterwards, unless it crashed. -/
theorem AllOpen.attempted (h : AllOpen s) {e : Event} (hstep : step host s e = some s')
    {outcome : Outcome} (hattempt : attempt? s e = some outcome) (hrunning : s'.status = .running) :
    ∃ bev handle, s'.holding.handles bev = some handle := by
  have hholding := holding_step hstep
  rw [hattempt] at hholding
  by_cases hnull : outcome = .noBufferevent
  · cases e with
    | connectToSerd now outcome' =>
      obtain rfl := step_connectToSerd hstep
      cases hattempt
      rw [hnull] at hrunning
      cases hrunning
    | heartTimeoutCB timer cur outcome' later =>
      obtain ⟨htimer, _⟩ := step_heartTimeoutCB hstep
      obtain ⟨bev, handle, hheld⟩ := h.timers (Nat.zero_lt_of_lt htimer)
      exact ⟨bev, handle, h.kept hstep hheld⟩
    | readTerminal => cases hattempt
    | readCB => cases hattempt
    | errorCB => cases hattempt
  · refine ⟨s.holding.sockets, (s.holding.sockets, false), ?_⟩
    rw [hholding]
    dsimp only [Option.elim_some, Holding.attempt]
    rw [if_neg hnull, Function.update_self]

theorem allOpen_step (h : AllOpen s) {e : Event} (hstep : step host s e = some s') :
    AllOpen s' := by
  have hkeep : (∃ bev handle, s.holding.handles bev = some handle) →
      ∃ bev handle, s'.holding.handles bev = some handle := by
    rintro ⟨bev, handle, hheld⟩
    exact ⟨bev, handle, h.kept hstep hheld⟩
  have hholding := holding_step hstep
  refine ⟨?_, fun hrunning hsockets => ?_, fun htimers => ?_⟩
  · rw [hholding]
    cases attempt? s e with
    | none => exact h.handles
    | some outcome => exact h.handles.attempt outcome
  · cases hattempt : attempt? s e with
    | none =>
      rw [hattempt] at hholding
      have hsame : s'.sockets = s.sockets := congrArg Holding.sockets hholding
      rw [hsame] at hsockets
      exact hkeep (h.called (running_of_step hstep) hsockets)
    | some outcome => exact h.attempted hstep hattempt hrunning
  · have hview := timerView_step hstep
    by_cases hreads : ReadsLoginResponse host e
    · cases e with
      | readCB bev stack input now =>
        obtain ⟨c, hc, _, _⟩ := step_readCB hstep
        exact hkeep ⟨bev, (c.fd, c.freed), congrArg (Option.map _) hc⟩
      | connectToSerd => cases hreads
      | readTerminal => cases hreads
      | errorCB => cases hreads
      | heartTimeoutCB => cases hreads
    · rw [if_neg hreads] at hview
      have hsame : s'.timers = s.timers := congrArg Prod.fst hview
      rw [hsame] at htimers
      exact hkeep (h.timers htimers)

/-- The members name all that was ever made. -/
structure Holding.One (h : Holding) : Prop where
  bevs : ∀ bev handle, h.handles bev = some handle → h.pBev = some bev
  sockets : ∀ fd < h.sockets, h.sockFd = some fd

theorem AllOpen.holdsOne_iff (h : AllOpen s) : HoldsOne s ↔ s.holding.One := by
  constructor
  · rintro ⟨hbevs, hsockets⟩
    refine ⟨fun bev handle hheld => ?_, fun fd hlt => ?_⟩
    · obtain ⟨c, hc, _⟩ := Option.map_eq_some_iff.mp hheld
      by_contra hother
      have hfreed := hbevs bev c hc hother
      rw [(h.conn hc).2.2] at hfreed
      cases hfreed
    · by_contra hother
      exact h.not_closed fd (hsockets fd hlt hother)
  · rintro ⟨hbevs, hsockets⟩
    refine ⟨fun bev c hc hother => ?_, fun fd hlt hother => absurd (hsockets fd hlt) hother⟩
    exact absurd (hbevs bev (c.fd, c.freed) (congrArg (Option.map _) hc)) hother

/-- The first attempt is the only one that leaves nothing behind the members. -/
theorem Holding.one_attempt {h : Holding} (hopen : h.Open) (outcome : Outcome)
    (hlater : 0 < h.sockets → ∃ bev handle, h.handles bev = some handle) :
    (h.attempt outcome).One ↔ h.sockets = 0 := by
  constructor
  · rintro ⟨hbevs, _⟩
    by_contra hsockets
    obtain ⟨bev, handle, hheld⟩ := hlater (Nat.pos_of_ne_zero hsockets)
    have hne : bev ≠ h.sockets := (hopen bev handle hheld).1.ne
    have hnamed := hbevs bev handle
    dsimp only [Holding.attempt] at hnamed
    split at hnamed
    · cases hnamed hheld
    · rw [Function.update_of_ne hne] at hnamed
      exact hne (Option.some.inj (hnamed hheld)).symm
  · intro hsockets
    refine ⟨fun bev handle hheld => ?_, fun fd hlt => ?_⟩
    · have hlt := (hopen.attempt outcome bev handle hheld).1
      dsimp only [Holding.attempt] at hheld hlt ⊢
      have hbev : bev = h.sockets := by omega
      split at hheld
      · have hold := (hopen bev handle hheld).1
        omega
      · next hmade => rw [if_neg hmade, hbev]
    · dsimp only [Holding.attempt] at hlt ⊢
      have hfd : fd = h.sockets := by omega
      rw [hfd]

theorem returnsFalse_iff (hrunning : s.status = .running) (byTimer : Bool) (now : ℤ)
    (outcome : Outcome) : ReturnsFalse s byTimer now outcome ↔ outcome = .failed := by
  have hstatus : (s.noteReplaced now).status = .running := by
    unfold State.noteReplaced
    cases s.pBev <;> exact hrunning
  cases outcome with
  | noBufferevent => exact ⟨fun h => (nomatch h.1), fun h => (nomatch h)⟩
  | failed => exact ⟨fun _ => rfl, fun _ => ⟨hstatus, rfl⟩⟩
  | pending => exact ⟨fun h => (nomatch h.2), fun h => (nomatch h)⟩

theorem failedCall_iff (hrunning : s.status = .running) (e : Event) :
    FailedCall s e ↔ attempt? s e = some .failed := by
  cases e with
  | connectToSerd now outcome =>
    rw [FailedCall, returnsFalse_iff hrunning, attempt?, Option.some.injEq]
  | heartTimeoutCB timer cur outcome later =>
    rw [FailedCall, returnsFalse_iff hrunning, attempt?]
    split
    · next hexpired => simp only [hexpired, true_and, Option.some.injEq]
    · next hexpired => simp only [hexpired, false_and, reduceCtorEq]
  | readTerminal => exact ⟨fun h => h.elim, fun h => (nomatch h)⟩
  | readCB => exact ⟨fun h => h.elim, fun h => (nomatch h)⟩
  | errorCB => exact ⟨fun h => h.elim, fun h => (nomatch h)⟩

/-- A failed call always leaves its socket open. -/
theorem AllOpen.cleansUp_iff (h' : AllOpen s') {e : Event} (hstep : step host s e = some s') :
    CleansUp s e s' ↔ attempt? s e ≠ some .failed := by
  rw [CleansUp, failedCall_iff (running_of_step hstep)]
  constructor
  · intro hclean hfailed
    have hholding := holding_step hstep
    rw [hfailed] at hholding
    have hsockets : s'.sockets = s.sockets + 1 := congrArg Holding.sockets hholding
    refine h'.not_closed s.sockets ((hclean hfailed).sockets s.sockets le_rfl ?_)
    omega
  · intro hne hfailed
    exact absurd hfailed hne

/-- A tick that attempts is never the first call. -/
theorem AllOpen.connectsOnce_iff (h : AllOpen s) {e : Event} (hstep : step host s e = some s') :
    ConnectsOnce s e ↔ ∀ outcome, attempt? s e = some outcome →
      s.sockets = 0 ∧ outcome ≠ .failed := by
  cases e with
  | connectToSerd now outcome => simp only [ConnectsOnce, attempt?, Option.some.injEq, forall_eq']
  | heartTimeoutCB timer cur outcome later =>
    obtain ⟨htimer, _⟩ := step_heartTimeoutCB hstep
    obtain ⟨bev, handle, hheld⟩ := h.timers (Nat.zero_lt_of_lt htimer)
    have hlt : bev < s.sockets := (h.handles bev handle hheld).1
    have hsockets : s.sockets ≠ 0 := Nat.ne_zero_of_lt hlt
    rw [ConnectsOnce, attempt?]
    split
    · next hexpired => simp only [hexpired, hsockets, false_and, imp_false, not_true_eq_false,
        Option.some.injEq, forall_eq']
    · next hexpired => simp only [hexpired, not_false_eq_true, reduceCtorEq, false_implies,
        implies_true]
  | readTerminal => exact ⟨fun _ _ hnone => (nomatch hnone), fun _ => trivial⟩
  | readCB => exact ⟨fun _ _ hnone => (nomatch hnone), fun _ => trivial⟩
  | errorCB => exact ⟨fun _ _ hnone => (nomatch hnone), fun _ => trivial⟩

/-- One step keeps a single connection and cleans up exactly when it meets the
guard. -/
theorem holdsOne_step (h : AllOpen s) (hone : HoldsOne s) {e : Event}
    (hstep : step host s e = some s') : HoldsOne s' ∧ CleansUp s e s' ↔ ConnectsOnce s e := by
  have h' := allOpen_step h hstep
  rw [h'.holdsOne_iff, h'.cleansUp_iff hstep, h.connectsOnce_iff hstep, holding_step hstep]
  cases attempt? s e with
  | none =>
    exact ⟨fun _ _ hnone => (nomatch hnone), fun _ => ⟨h.holdsOne_iff.mp hone, nofun⟩⟩
  | some outcome =>
    have hlater : 0 < s.holding.sockets → ∃ bev handle, s.holding.handles bev = some handle :=
      h.called (running_of_step hstep)
    rw [Option.elim_some, Holding.one_attempt h.handles outcome hlater]
    simp only [ne_eq, Option.some.injEq, forall_eq']
    exact Iff.rfl

end Steps

/-- In a run of any events the client holds no connection but the one in its
members, and cleans up after every failed call, exactly when `ConnectToSerd`
is called at most once and does not return false. -/
theorem holdsOne_along (es : List Event) :
    (system host).Along HoldsOne State.init es ∧ (system host).Steps CleansUp State.init es ↔
      (system host).Guarded ConnectsOnce State.init es := by
  have hkeep : ∀ (s : State) (e : Event) (s' : State), True → AllOpen s →
      (system host).step s e = some s' → AllOpen s' :=
    fun s e s' _ h hstep => allOpen_step h hstep
  have hiff : ∀ (s : State) (e : Event) (s' : State), True → AllOpen s → HoldsOne s →
      (system host).step s e = some s' → (HoldsOne s' ∧ CleansUp s e s' ↔ ConnectsOnce s e) :=
    fun s e s' _ h hone hstep => holdsOne_step h hone hstep
  have hinit : HoldsOne State.init := ⟨fun _ _ hnone => (nomatch hnone), fun _ hlt => (nomatch hlt)⟩
  exact System.along_steps_iff_guarded hkeep hiff allOpen_init hinit fun _ _ => trivial

/-- The server goes silent for over 15 seconds and the reconnect fails at once:
the first connection is still open behind the members. -/
theorem connection_left_open : ¬∀ (host : ByteOrder) (es : List Event),
    (system host).Along HoldsOne State.init es ∧
      (system host).Steps CleansUp State.init es := by
  intro h
  let es : List Event := [.connectToSerd 0 .pending, .errorCB 0 bevEventConnected 0,
    .readTerminal, .readCB 0 .zeros [0, 100, 2, 1, 0, 3, 3, 233] 1,
    .heartTimeoutCB 0 6 .pending 6, .heartTimeoutCB 0 11 .pending 11,
    .heartTimeoutCB 0 16 .pending 16, .heartTimeoutCB 0 21 .failed 21]
  have hrun : ((system .little).run es).any (fun s => s.pBev = some 1 ∧
      (s.conn 0).any (fun c => c.freed = false) = true) = true := by decide +kernel
  obtain ⟨s, hs, hboth⟩ := (Option.any_eq_true _ _).mp hrun
  obtain ⟨hbev, hconn⟩ := of_decide_eq_true hboth
  obtain ⟨c, hc, hopen⟩ := (Option.any_eq_true _ _).mp hconn
  have hone := (h .little es).1.of_runFrom hs
  have hother : s.pBev ≠ some 0 := by
    rw [hbev]
    decide
  have hfreed := hone.bevs 0 c hc hother
  rw [of_decide_eq_true hopen] at hfreed
  cases hfreed

end NodeManager.Client
