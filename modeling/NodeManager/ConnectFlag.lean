import NodeManager.Client

/-!
# The connection flag of the client

`m_bConnected` should be true exactly when the bufferevent in `m_pBev` has
connected and has not since reported EOF or ERROR. Every bufferevent ever made
sets the same flag, and `ConnectToSerd` replaces `m_pBev` without clearing it,
so the flag agrees in every state of a run exactly as long as a connection is
replaced only while the flag is false and an older bufferevent reports only
what the flag already says.
-/

namespace NodeManager.Client

open ByteMemory TransitionSystem

/-- `m_bConnected` agrees with the bufferevent in `m_pBev`. -/
def FlagAgrees (s : State) : Prop :=
  s.bConnected = true ↔ ∃ c ∈ s.current, c.connected = true

/-- The value that a report gives to `m_bConnected`, if it gives one. -/
def Report.flag : Report → Option Bool
  | .eof => some false
  | .error => some false
  | .connected => some true
  | .other => none

/-- The step replaces `m_pBev` only while `m_bConnected` is false, and reports
of another bufferevent do not change the flag. -/
def KeepsFlag (s : State) : Event → Prop
  | .connectToSerd _ _ => s.bConnected = false
  | .heartTimeoutCB _ cur _ _ => s.expired cur → s.bConnected = false
  | .errorCB bev event _ => s.pBev ≠ some bev →
      ∀ flag ∈ (Report.ofFlags event).flag, s.bConnected = flag
  | _ => True

section Effects

variable {s : State} {f : Conn → Conn}

theorem current_of {bev : ℕ} (h : s.pBev = some bev) : s.current = s.conn bev := by
  rw [State.current, h]
  rfl

/-- What happens on another bufferevent does not concern the current one. -/
theorem current_onConn_ne {bev : ℕ} (h : s.pBev ≠ some bev) :
    (s.onConn bev f).current = s.current := by
  unfold State.current
  cases hcurrent : s.pBev with
  | none =>
    have hkept : (s.onConn bev f).pBev = none := hcurrent
    rw [hkept]
    rfl
  | some current =>
    have hkept : (s.onConn bev f).pBev = some current := hcurrent
    have hne : current ≠ bev := fun heq => h (heq ▸ hcurrent)
    rw [hkept]
    exact State.onConn_ne s hne f

theorem current_onConn_self {bev : ℕ} (h : s.pBev = some bev) :
    (s.onConn bev f).current = s.current.map f := by
  have hkept : (s.onConn bev f).pBev = some bev := h
  rw [current_of hkept, current_of h]
  exact State.onConn_self s bev f

/-- Only reports concern the flag. -/
theorem flagAgrees_onConn (hf : ∀ c, (f c).connected = c.connected) (bev : ℕ) :
    FlagAgrees (s.onConn bev f) ↔ FlagAgrees s := by
  have hflag : (s.onConn bev f).bConnected = s.bConnected := rfl
  by_cases hcurrent : s.pBev = some bev
  · rw [FlagAgrees, FlagAgrees, current_onConn_self hcurrent, hflag]
    simp only [Option.mem_def, Option.map_eq_some_iff, exists_exists_and_eq_and, hf]
  · rw [FlagAgrees, FlagAgrees, current_onConn_ne hcurrent, hflag]

theorem flagAgrees_request (buffer : Except Fault (List UInt8)) :
    FlagAgrees (s.request buffer) ↔ FlagAgrees s := by
  cases buffer with
  | error fault => exact Iff.rfl
  | ok bytes =>
    rw [State.request]
    cases hbev : s.pBev with
    | none =>
      rw [State.buffereventWrite_null hbev]
      exact Iff.rfl
    | some bev =>
      have hwritten : ∀ c, (Conn.write bytes c).connected = c.connected := fun _ => rfl
      rw [State.buffereventWrite_of hbev]
      exact flagAgrees_onConn hwritten bev

/-- A new bufferevent is not connected, and the flag is what it was before. -/
theorem flagAgrees_connectToSerd (s : State) (byTimer : Bool) (now : ℤ) (outcome : Outcome) :
    FlagAgrees (s.connectToSerd byTimer now outcome).1 ↔ s.bConnected = false := by
  have hreplaced := s.noteReplaced_bConnected now
  have hnone : ∀ t : State, t.bConnected = s.bConnected → (∀ c ∈ t.current, c.connected = false) →
      (FlagAgrees t ↔ s.bConnected = false) := by
    intro t hflag hnew
    have hno : ¬∃ c ∈ t.current, c.connected = true := by
      rintro ⟨c, hc, hconnected⟩
      rw [hnew c hc] at hconnected
      cases hconnected
    rw [FlagAgrees, hflag, iff_false_right hno, Bool.not_eq_true]
  have hstored : ∀ callbacks, ∀ c ∈ (({ s.noteReplaced now with
      sockFd := some s.sockets, sockets := s.sockets + 1 } : State).storeBev s.sockets byTimer
        callbacks).current, c.connected = false := by
    intro callbacks c hc
    rw [Option.mem_def, current_of rfl] at hc
    have hnew := (Function.update_self ..).symm.trans hc
    cases hnew
    rfl
  cases outcome with
  | noBufferevent => exact hnone _ hreplaced fun c hc => (nomatch hc)
  | failed => exact hnone _ hreplaced (hstored false)
  | pending => exact hnone _ hreplaced (hstored true)

theorem flagAgrees_heartTimeoutCB (h : FlagAgrees s) (host : ByteOrder) (cur : ℤ)
    (outcome : Outcome) (later : ℤ) : FlagAgrees (s.heartTimeoutCB host cur outcome later) ↔
      (s.expired cur → s.bConnected = false) := by
  obtain ⟨hexpired, hgoes⟩ | ⟨hexpired, _, hgoes⟩ | ⟨hexpired, _, _, hgoes⟩ :=
    s.heartTimeoutCB_cases host cur outcome later
  · have hkeep : FlagAgrees (s.reqHeatBeat host) := (flagAgrees_request _).mpr h
    rw [hgoes]
    exact ⟨fun _ hyes => absurd hyes hexpired, fun _ => hkeep⟩
  · rw [hgoes, flagAgrees_connectToSerd]
    exact ⟨fun hflag _ => hflag, fun hflag => hflag hexpired⟩
  · have hmade := flagAgrees_connectToSerd s true cur outcome
    rw [hgoes, State.reqHeatBeat, flagAgrees_request, State.reqLogin, flagAgrees_request]
    exact ⟨fun hflag _ => hmade.mp hflag, fun hflag => hmade.mpr (hflag hexpired)⟩

/-- The report of the current bufferevent sets the flag right. -/
theorem flagAgrees_report_current (h : FlagAgrees s) {bev : ℕ} {c : Conn}
    (hbev : s.pBev = some bev) (hc : s.conn bev = some c) (report : Report) (now : ℤ) :
    FlagAgrees ((s.errorCB report).onConn bev (Conn.note report now)) := by
  obtain ⟨hconn, hpBev, _⟩ := s.errorCB_frame report
  have hkept : (s.errorCB report).pBev = some bev := hpBev.trans hbev
  rw [FlagAgrees, current_onConn_self hkept, current_of hkept, hconn, hc]
  rw [FlagAgrees, current_of hbev, hc] at h
  simp only [Option.map_some, Option.mem_def, Option.some.injEq, exists_eq_left'] at h ⊢
  cases report with
  | eof => exact Iff.rfl
  | error => exact Iff.rfl
  | connected => exact Iff.rfl
  | other => exact h

/-- The report of another bufferevent must find the flag as it leaves it. -/
theorem flagAgrees_report_other (h : FlagAgrees s) {bev : ℕ} (hbev : s.pBev ≠ some bev)
    (report : Report) (now : ℤ) :
    FlagAgrees ((s.errorCB report).onConn bev (Conn.note report now)) ↔
      ∀ flag ∈ report.flag, s.bConnected = flag := by
  obtain ⟨hconn, hpBev, _⟩ := s.errorCB_frame report
  have hkept : (s.errorCB report).pBev ≠ some bev := by rwa [hpBev]
  have hcurrent : (s.errorCB report).current = s.current := by
    rw [State.current, State.current, hpBev, hconn]
  rw [FlagAgrees, current_onConn_ne hkept, hcurrent]
  rw [FlagAgrees] at h
  have hflag : ∀ flag : Bool, (flag = true ↔ ∃ c ∈ s.current, c.connected = true) ↔
      s.bConnected = flag := by
    intro flag
    exact (iff_congr Iff.rfl h.symm).trans (Bool.eq_iff_iff.symm.trans eq_comm)
  cases report with
  | eof =>
    refine (hflag false).trans ?_
    simp only [Report.flag, Option.mem_def, Option.some.injEq, forall_eq']
  | error =>
    refine (hflag false).trans ?_
    simp only [Report.flag, Option.mem_def, Option.some.injEq, forall_eq']
  | connected =>
    refine (hflag true).trans ?_
    simp only [Report.flag, Option.mem_def, Option.some.injEq, forall_eq']
  | other => exact ⟨fun _ flag hnone => (nomatch hnone), fun _ => h⟩

end Effects

variable {host : ByteOrder} {s s' : State}

/-- One step keeps the flag right exactly when it meets the guard. -/
theorem flagAgrees_step (h : FlagAgrees s) {e : Event} (hstep : step host s e = some s') :
    FlagAgrees s' ↔ KeepsFlag s e := by
  cases e with
  | connectToSerd now outcome =>
    obtain rfl := step_connectToSerd hstep
    exact flagAgrees_connectToSerd s false now outcome
  | readTerminal =>
    obtain ⟨bev, _, _, rfl⟩ := step_readTerminal hstep
    have hwritten : ∀ c, (Conn.write (ClientConnect.loginFrame host) c).connected = c.connected :=
      fun _ => rfl
    have htyped : ∀ c, (Conn.noteTyped c).connected = c.connected := fun _ => rfl
    rw [flagAgrees_onConn hwritten, flagAgrees_onConn htyped]
    exact ⟨fun _ => trivial, fun _ => h⟩
  | readCB bev stack input now =>
    have hresponse : ∀ c, (Conn.noteResponse c).connected = c.connected := fun _ => rfl
    obtain ⟨_, _, _, ⟨_, rfl⟩ | ⟨_, rfl⟩ | ⟨_, rfl⟩ | ⟨_, rfl⟩⟩ := step_readCB hstep
    · exact ⟨fun _ => trivial, fun _ => (flagAgrees_onConn hresponse bev).mpr h⟩
    · exact ⟨fun _ => trivial, fun _ => (flagAgrees_onConn hresponse bev).mpr h⟩
    · exact ⟨fun _ => trivial, fun _ => h⟩
    · exact ⟨fun _ => trivial, fun _ => h⟩
  | errorCB bev event now =>
    obtain ⟨c, hc, _, rfl⟩ := step_errorCB hstep
    by_cases hbev : s.pBev = some bev
    · have hagrees := flagAgrees_report_current h hbev hc (Report.ofFlags event) now
      exact ⟨fun _ hother => absurd hbev hother, fun _ => hagrees⟩
    · rw [flagAgrees_report_other h hbev]
      exact ⟨fun hflag _ => hflag, fun hflag => hflag hbev⟩
  | heartTimeoutCB timer cur outcome later =>
    obtain ⟨_, rfl⟩ := step_heartTimeoutCB hstep
    exact flagAgrees_heartTimeoutCB h host cur outcome later

theorem flagAgrees_init : FlagAgrees State.init := by
  constructor
  · intro hflag
    cases hflag
  · rintro ⟨c, hc, _⟩
    cases hc

/-- In a run of any events the flag agrees with the current bufferevent in
every state exactly when every step replaces that bufferevent only while the
flag is false, and lets another one report only what the flag says already. -/
theorem connectFlag_along (host : ByteOrder) (es : List Event) :
    (system host).Along FlagAgrees State.init es ↔
      (system host).Guarded KeepsFlag State.init es := by
  have hkeep : ∀ (s : State) (e : Event) (s' : State), True → True →
      (system host).step s e = some s' → True := fun _ _ _ _ _ _ => trivial
  have hiff : ∀ (s : State) (e : Event) (s' : State), True → True → FlagAgrees s →
      (system host).step s e = some s' → (FlagAgrees s' ↔ KeepsFlag s e) :=
    fun s e s' _ _ h hstep => flagAgrees_step h hstep
  exact System.along_iff_guarded hkeep hiff trivial flagAgrees_init fun _ _ => trivial

/-- The server stops answering without closing the connection. The next tick
replaces the bufferevent, and the flag of the old one stays. -/
theorem connectFlag_after_reconnect : ¬∀ (host : ByteOrder) (es : List Event),
    (system host).Along FlagAgrees State.init es := by
  intro h
  let es : List Event := [.connectToSerd 0 .pending, .errorCB 0 bevEventConnected 0,
    .readTerminal, .readCB 0 .zeros [0, 100, 2, 1, 0, 3, 3, 233] 1,
    .heartTimeoutCB 0 6 .pending 6, .heartTimeoutCB 0 11 .pending 11,
    .heartTimeoutCB 0 16 .pending 16, .heartTimeoutCB 0 21 .pending 21]
  have hrun : ((system .little).run es).any (fun s =>
      s.bConnected = true ∧ s.current.any Conn.connected = false) = true := by decide +kernel
  obtain ⟨s, hs, hboth⟩ := (Option.any_eq_true _ _).mp hrun
  obtain ⟨hflag, hnew⟩ := of_decide_eq_true hboth
  have hagrees := (h .little es).of_runFrom hs
  obtain ⟨c, hc, hconnected⟩ := hagrees.mp hflag
  have hany := (Option.any_eq_true _ _).mpr ⟨c, hc, hconnected⟩
  rw [hnew] at hany
  cases hany

end NodeManager.Client
