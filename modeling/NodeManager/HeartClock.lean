import NodeManager.OneConnection

/-!
# The clock that decides about a reconnect

`HeartTimeoutCB` subtracts two 32-bit time stamps without a sign. The
difference is right across the wrap of the stamps, but a clock that was set
back since the last `UpdateHeartTime` makes it huge, and the tick reconnects.
A run is followed together with the true time of its last `UpdateHeartTime`.
-/

namespace NodeManager.Client

open ByteMemory TransitionSystem

variable (host : ByteOrder)

/-- The reading of the clock that `UpdateHeartTime` stores during an event, if
the event calls it. -/
def updatesHeartTime? (s : State) : Event → Option ℤ
  | .readCB _ _ input now =>
    if ClientConnect.Receives host input .respNodeLogin ∨
        ClientConnect.Receives host input .respHeartBeat then some now
    else none
  | .heartTimeoutCB _ cur outcome later =>
    if s.expired cur ∧ outcome = .pending ∧ s.bConnected = true then some later else none
  | _ => none

/-- The client from its start, with the time of its last `UpdateHeartTime`. -/
def timed : System (State × Option ℤ) Event where
  init := (State.init, none)
  step := fun p e => (step host p.1 e).map fun s' => (s', (updatesHeartTime? host p.1 e).or p.2)

/-- All that happens is that one heartbeat is written to the current connection. -/
def OneHeartbeat (s s' : State) : Prop :=
  ∃ bev c, s.pBev = some bev ∧ s.conn bev = some c ∧
    s' = { s with
      conn := Function.update s.conn bev (some (c.write (ClientConnect.heatBeatFrame host))) }

/-- A tick at the time `cur` attempts to reconnect when the time `t` is more
than 15 seconds ago, and otherwise sends one heartbeat. -/
structure DecidesRight (t cur : ℤ) (s s' : State) : Prop where
  attempts : s'.sockets = s.sockets + 1 ↔ 15 < cur - t
  otherwise : ¬15 < cur - t → OneHeartbeat host s s'

/-- A tick decides right, if the clock has moved by less than 2^31 seconds. -/
def TickRight (p : State × Option ℤ) (e : Event) (p' : State × Option ℤ) : Prop :=
  match e with
  | .heartTimeoutCB _ cur _ _ =>
    ∃ t, p.2 = some t ∧ (|cur - t| < 2 ^ 31 → DecidesRight host t cur p.1 p'.1)
  | _ => True

/-- A tick does not find the clock set back, if it has moved by less than 2^31
seconds. -/
def NotSetBack (p : State × Option ℤ) : Event → Prop
  | .heartTimeoutCB _ cur _ _ => ∀ t ∈ p.2, |cur - t| < 2 ^ 31 → t ≤ cur
  | _ => True

/-- The stamp is that of the last update, a timer has been started by one, and
a client that has called `ConnectToSerd` has a current connection. -/
structure Clocked (p : State × Option ℤ) : Prop where
  stamp : ∀ t ∈ p.2, p.1.timeLastHeart = getCurTimeStamp t
  started : 0 < p.1.timers → p.2.isSome = true
  allOpen : AllOpen p.1
  current : p.1.status = .running → 0 < p.1.sockets →
    ∃ bev handle, p.1.pBev = some bev ∧ p.1.holding.handles bev = some handle

theorem getCurTimeStamp_toNat (t : ℤ) : (getCurTimeStamp t).toNat = (t % 2 ^ 32).toNat := by
  rw [getCurTimeStamp, UInt32.ofInt, UInt32.toNat_ofNat']
  omega

/-- The stamps differ by the true difference modulo 2^32, so a time that lies
in the future is as good as expired. -/
theorem expired_iff {s : State} {t cur : ℤ} (hstamp : s.timeLastHeart = getCurTimeStamp t)
    (hgap : |cur - t| < 2 ^ 31) : s.expired cur ↔ 15 < cur - t ∨ cur < t := by
  have hinterval : heartBeatTimePassInterval.toNat = 15 := rfl
  rw [abs_lt] at hgap
  rw [State.expired, hstamp, UInt32.lt_iff_toNat_lt, UInt32.toNat_sub, getCurTimeStamp_toNat,
    getCurTimeStamp_toNat, hinterval]
  omega

section Steps

variable {host} {s s' : State}

theorem timeLastHeart_buffereventWrite (s : State) (buffer : List UInt8) :
    (s.buffereventWrite buffer).timeLastHeart = s.timeLastHeart := by
  unfold State.buffereventWrite
  cases s.pBev <;> rfl

theorem timeLastHeart_reqLogin (s : State) :
    (s.reqLogin host).timeLastHeart = s.timeLastHeart := by
  rw [State.reqLogin, ClientConnect.reqLogin_eq]
  exact timeLastHeart_buffereventWrite s _

theorem timeLastHeart_reqHeatBeat (s : State) :
    (s.reqHeatBeat host).timeLastHeart = s.timeLastHeart := by
  rw [State.reqHeatBeat, ClientConnect.reqHeatBeat_eq]
  exact timeLastHeart_buffereventWrite s _

theorem timeLastHeart_connectToSerd (s : State) (byTimer : Bool) (now : ℤ) (outcome : Outcome) :
    (s.connectToSerd byTimer now outcome).1.timeLastHeart = s.timeLastHeart := by
  have hreplaced : (s.noteReplaced now).timeLastHeart = s.timeLastHeart := by
    unfold State.noteReplaced
    cases s.pBev <;> rfl
  cases outcome <;> exact hreplaced

/-- The stamp changes in the events that call `UpdateHeartTime`, and in no
others. -/
theorem timeLastHeart_step {e : Event} (hstep : step host s e = some s') :
    s'.timeLastHeart = (updatesHeartTime? host s e).elim s.timeLastHeart getCurTimeStamp := by
  cases e with
  | connectToSerd now outcome =>
    obtain rfl := step_connectToSerd hstep
    exact timeLastHeart_connectToSerd s false now outcome
  | readTerminal =>
    obtain ⟨_, _, _, rfl⟩ := step_readTerminal hstep
    rfl
  | readCB bev stack input now =>
    obtain ⟨_, _, _, ⟨hid, rfl⟩ | ⟨hid, rfl⟩ | ⟨hid, rfl⟩ | ⟨hid, rfl⟩⟩ := step_readCB hstep
    · rw [updatesHeartTime?, if_pos (Or.inl hid)]
      rfl
    · rw [updatesHeartTime?, if_pos (Or.inr hid)]
      rfl
    · have hother : ¬(ClientConnect.Receives host input .respNodeLogin ∨
          ClientConnect.Receives host input .respHeartBeat) := by
        rintro (h | h)
        · exact absurd (h.2.2.symm.trans hid.2.2) (by decide)
        · exact absurd (h.2.2.symm.trans hid.2.2) (by decide)
      rw [updatesHeartTime?, if_neg hother]
      rfl
    · have hother : ¬(ClientConnect.Receives host input .respNodeLogin ∨
          ClientConnect.Receives host input .respHeartBeat) := by
        rintro (h | h)
        · exact hid .respNodeLogin (by decide) h
        · exact hid .respHeartBeat (by decide) h
      rw [updatesHeartTime?, if_neg hother]
      rfl
  | errorCB bev event now =>
    obtain ⟨_, _, _, rfl⟩ := step_errorCB hstep
    have hreport : (s.errorCB (Report.ofFlags event)).timeLastHeart = s.timeLastHeart := by
      cases Report.ofFlags event <;> rfl
    exact hreport
  | heartTimeoutCB timer cur outcome later =>
    obtain ⟨_, rfl⟩ := step_heartTimeoutCB hstep
    rw [updatesHeartTime?]
    obtain ⟨hexpired, hgoes⟩ | ⟨hexpired, hflag, hgoes⟩ | ⟨hexpired, hpending, hflag, hgoes⟩ :=
      s.heartTimeoutCB_cases host cur outcome later
    · rw [hgoes, if_neg fun h => hexpired h.1]
      exact timeLastHeart_reqHeatBeat s
    · have hnone : ¬(s.expired cur ∧ outcome = .pending ∧ s.bConnected = true) := by
        rintro ⟨_, hpending, hconnected⟩
        rw [hflag hpending] at hconnected
        cases hconnected
      rw [hgoes, if_neg hnone]
      exact timeLastHeart_connectToSerd s true cur outcome
    · rw [hgoes, if_pos ⟨hexpired, hpending, hflag⟩, timeLastHeart_reqHeatBeat,
        timeLastHeart_reqLogin]
      rfl

/-- A new bufferevent that is null ends the process. -/
theorem crashed_of_null {e : Event} (hattempt : attempt? s e = some .noBufferevent)
    (hstep : step host s e = some s') : s'.status = .crashed := by
  cases e with
  | connectToSerd now outcome =>
    obtain rfl := step_connectToSerd hstep
    cases hattempt
    rfl
  | heartTimeoutCB timer cur outcome later =>
    obtain ⟨_, rfl⟩ := step_heartTimeoutCB hstep
    rw [attempt?] at hattempt
    split at hattempt
    · next hexpired =>
      cases hattempt
      obtain ⟨hother, _⟩ | ⟨_, _, hgoes⟩ | ⟨_, hpending, _⟩ :=
        s.heartTimeoutCB_cases host cur .noBufferevent later
      · exact absurd hexpired hother
      · rw [hgoes]
        rfl
      · cases hpending
    · cases hattempt
  | readTerminal => cases hattempt
  | readCB => cases hattempt
  | errorCB => cases hattempt

/-- Only a login response starts a timer, and it updates the time. -/
theorem updates_of_readsLogin {e : Event} (h : ReadsLoginResponse host e) :
    (updatesHeartTime? host s e).isSome = true := by
  cases e with
  | readCB bev stack input now =>
    have hid : ClientConnect.Receives host input .respNodeLogin := h
    rw [updatesHeartTime?, if_pos (Or.inl hid)]
    rfl
  | connectToSerd => cases h
  | readTerminal => cases h
  | errorCB => cases h
  | heartTimeoutCB => cases h

theorem clocked_init : Clocked (State.init, none) :=
  ⟨fun _ ht => (nomatch ht), fun h => (nomatch h), allOpen_init, fun _ h => (nomatch h)⟩

/-- The stamp stays that of the last update. -/
theorem stamp_step {last : Option ℤ} {e : Event}
    (h : ∀ t ∈ last, s.timeLastHeart = getCurTimeStamp t) (hstep : step host s e = some s') :
    ∀ t ∈ (updatesHeartTime? host s e).or last, s'.timeLastHeart = getCurTimeStamp t := by
  intro t ht
  rw [timeLastHeart_step hstep]
  cases hupdates : updatesHeartTime? host s e with
  | none =>
    rw [hupdates, Option.none_or] at ht
    exact h t ht
  | some now =>
    rw [hupdates, Option.some_or] at ht
    rw [Option.some.inj ht]
    rfl

/-- A timer is only started by an event that updates the time. -/
theorem started_step {last : Option ℤ} {e : Event} (h : 0 < s.timers → last.isSome = true)
    (hstep : step host s e = some s') (htimers : 0 < s'.timers) :
    ((updatesHeartTime? host s e).or last).isSome = true := by
  have hview := timerView_step hstep
  by_cases hreads : ReadsLoginResponse host e
  · obtain ⟨now, hnow⟩ := Option.isSome_iff_exists.mp (updates_of_readsLogin (s := s) hreads)
    rw [hnow, Option.some_or]
    rfl
  · rw [if_neg hreads] at hview
    have hsame : s'.timers = s.timers := congrArg Prod.fst hview
    rw [hsame] at htimers
    rw [Option.isSome_or, h htimers, Bool.or_true]

/-- A client that goes on after making a socket holds a bufferevent of its own. -/
theorem current_step {e : Event}
    (h : s.status = .running → 0 < s.sockets →
      ∃ bev handle, s.pBev = some bev ∧ s.holding.handles bev = some handle)
    (hstep : step host s e = some s') (hrunning : s'.status = .running)
    (hsockets : 0 < s'.sockets) :
    ∃ bev handle, s'.pBev = some bev ∧ s'.holding.handles bev = some handle := by
  have hholding := holding_step hstep
  have hpBev : s'.pBev = s'.holding.pBev := rfl
  rw [hpBev, hholding]
  cases hattempt : attempt? s e with
  | none =>
    rw [hattempt] at hholding
    have hsame : s'.sockets = s.sockets := congrArg Holding.sockets hholding
    rw [hsame] at hsockets
    exact h (running_of_step hstep) hsockets
  | some outcome =>
    have hmade : outcome ≠ .noBufferevent := by
      rintro rfl
      rw [crashed_of_null hattempt hstep] at hrunning
      cases hrunning
    refine ⟨s.sockets, (s.sockets, false), ?_, ?_⟩
    · dsimp only [Option.elim_some, Holding.attempt]
      rw [if_neg hmade]
      rfl
    · dsimp only [Option.elim_some, Holding.attempt]
      rw [if_neg hmade]
      exact Function.update_self ..

theorem clocked_step {p p' : State × Option ℤ} (h : Clocked p) {e : Event}
    (hstep : (timed host).step p e = some p') : Clocked p' := by
  obtain ⟨s, last⟩ := p
  obtain ⟨s', hs, rfl⟩ := Option.map_eq_some_iff.mp hstep
  exact ⟨stamp_step h.stamp hs, started_step h.started hs, allOpen_step h.allOpen hs,
    current_step h.current hs⟩

/-- A tick makes a socket exactly when it finds the time expired. -/
theorem attempts_iff {timer : ℕ} {cur later : ℤ} {outcome : Outcome}
    (hstep : step host s (.heartTimeoutCB timer cur outcome later) = some s') :
    s'.sockets = s.sockets + 1 ↔ s.expired cur := by
  have hsockets := congrArg Holding.sockets (holding_step hstep)
  rw [attempt?] at hsockets
  by_cases hexpired : s.expired cur
  · rw [if_pos hexpired] at hsockets
    exact iff_of_true hsockets hexpired
  · rw [if_neg hexpired] at hsockets
    have hsame : s'.sockets = s.sockets := hsockets
    exact iff_of_false (by omega) hexpired

/-- A tick that does not find the time expired only sends a heartbeat. -/
theorem Clocked.oneHeartbeat {last : Option ℤ} (h : Clocked (s, last)) {timer : ℕ}
    {cur later : ℤ} {outcome : Outcome}
    (hstep : step host s (.heartTimeoutCB timer cur outcome later) = some s')
    (hexpired : ¬s.expired cur) : OneHeartbeat host s s' := by
  obtain ⟨htimer, rfl⟩ := step_heartTimeoutCB hstep
  obtain ⟨first, handle, hheld⟩ := h.allOpen.timers (Nat.zero_lt_of_lt htimer)
  have hcalled : 0 < s.sockets := Nat.zero_lt_of_lt (h.allOpen.handles first handle hheld).1
  obtain ⟨bev, _, hbev, hcurrent⟩ := h.current (running_of_step hstep) hcalled
  obtain ⟨c, hc, _⟩ := Option.map_eq_some_iff.mp hcurrent
  refine ⟨bev, c, hbev, hc, ?_⟩
  rw [State.heartTimeoutCB, if_neg hexpired, State.reqHeatBeat_of host hbev, State.onConn, hc]
  rfl

/-- With the clock not set back the tick decides right, and only then. -/
theorem Clocked.tickRight_iff {p p' : State × Option ℤ} (h : Clocked p) {e : Event}
    (hstep : (timed host).step p e = some p') : TickRight host p e p' ↔ NotSetBack p e := by
  obtain ⟨s, last⟩ := p
  obtain ⟨s', hs, rfl⟩ := Option.map_eq_some_iff.mp hstep
  cases e with
  | heartTimeoutCB timer cur outcome later =>
    obtain ⟨htimer, _⟩ := step_heartTimeoutCB hs
    obtain ⟨t, rfl⟩ := Option.isSome_iff_exists.mp (h.started (Nat.zero_lt_of_lt htimer))
    have hattempts := attempts_iff hs
    constructor
    · rintro ⟨t', ht', hright⟩ t'' ht'' hgap
      obtain rfl := Option.some.inj ht'
      obtain rfl := Option.some.inj ht''
      have hexpired := expired_iff (h.stamp _ rfl) hgap
      have hdecides := (hright hgap).attempts
      rw [hattempts, hexpired] at hdecides
      by_contra hless
      have hlate := hdecides.mp (Or.inr (by omega))
      omega
    · intro hclock
      refine ⟨t, rfl, fun hgap => ?_⟩
      have hexpired := expired_iff (h.stamp t rfl) hgap
      have hle := hclock t rfl hgap
      have hlate : s.expired cur ↔ 15 < cur - t := by
        rw [hexpired]
        constructor
        · rintro (hlate | hless)
          · exact hlate
          · omega
        · exact Or.inl
      refine ⟨hattempts.trans hlate, fun hrecent => ?_⟩
      exact h.oneHeartbeat hs fun hexpired => hrecent (hlate.mp hexpired)
  | connectToSerd => exact iff_of_true trivial trivial
  | readTerminal => exact iff_of_true trivial trivial
  | readCB => exact iff_of_true trivial trivial
  | errorCB => exact iff_of_true trivial trivial

end Steps

/-- In every run and for every sequence of clock readings, the ticks decide
right exactly as long as none of them finds the clock set back. -/
theorem heartClock_steps (es : List Event) :
    (timed host).Steps (TickRight host) (timed host).init es ↔
      (timed host).Guarded NotSetBack (timed host).init es := by
  have hkeep : ∀ p e p', True → Clocked p → (timed host).step p e = some p' → Clocked p' :=
    fun _ _ _ _ h hstep => clocked_step h hstep
  have hright : ∀ p e p', True → Clocked p → (timed host).step p e = some p' →
      (TickRight host p e p' ↔ NotSetBack p e) :=
    fun _ _ _ _ h hstep => h.tickRight_iff hstep
  exact System.steps_iff_guarded hkeep hright clocked_init fun _ _ => trivial

/-- The clock is set back by one second after the login response. -/
theorem heartClock_setBack : ¬∀ (host : ByteOrder) (es : List Event),
    (timed host).Steps (TickRight host) (timed host).init es := by
  intro h
  let login : List Event := [.connectToSerd 0 .pending,
    .readCB 0 .zeros [0, 100, 2, 1, 0, 3, 3, 233] 10]
  let tick : Event := .heartTimeoutCB 0 9 .pending 9
  have hrun : ((timed .little).run login).any (fun p => p.2 = some 10 ∧
      ((timed .little).step p tick).any fun p' => p'.1.sockets = p.1.sockets + 1) = true := by
    decide +kernel
  obtain ⟨p, hp, hfound⟩ := (Option.any_eq_true _ _).mp hrun
  obtain ⟨hlast, hticks⟩ := of_decide_eq_true hfound
  obtain ⟨p', hp', hattempts⟩ := (Option.any_eq_true _ _).mp hticks
  obtain ⟨⟨t, ht, hright⟩, _⟩ := (h .little (login ++ [tick])).of_runFrom hp p' hp'
  obtain rfl := Option.some.inj (hlast.symm.trans ht)
  have hlate := (hright (by decide)).attempts.mp (of_decide_eq_true hattempts)
  exact absurd hlate (by decide)

end NodeManager.Client
