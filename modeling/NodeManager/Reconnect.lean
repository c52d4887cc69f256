import NodeManager.Client

/-!
# The connections that the timer makes

A connection that `HeartTimeoutCB` makes should be logged in on before it is
replaced, unless it fails or never answers. The timer writes the login at once
or never, depending on what `m_bConnected` says about an older connection, so
an attempt made while the flag is false is logged in on only if a login is
typed. The invariant ties the login frames on a connection to this history.
-/

namespace NodeManager.Client

open ByteMemory TransitionSystem

variable (host : ByteOrder)

/-- If the timer made the connection and it was established, then it was
logged in on, has failed, or had been established for over 15 seconds without any
response when it was replaced. -/
def Conn.Used (c : Conn) : Prop :=
  c.byTimer = true → c.established = true →
    ClientConnect.loginFrame host ∈ c.written ∨ c.failed = true ∨ c.silentWhenReplaced = true

/-- No connection was abandoned without having been used. -/
def ReconnectsUsed (s : State) : Prop :=
  ∀ bev c, s.conn bev = some c → s.pBev ≠ some bev → c.Used host

/-- The timer made the connection while `m_bConnected` was false, and no login was
typed at the terminal while `m_pBev` named it. -/
def Conn.SkippedLogin (c : Conn) : Prop :=
  c.byTimer = true ∧ c.flagWhenMade = false ∧ c.loginTyped = false

/-- The current connection was not skipped, or it is not established, has failed or has
been established for over 15 seconds without any response. -/
def MayReplace (s : State) (now : ℤ) : Prop :=
  ∀ c ∈ s.current, c.SkippedLogin → c.established = true →
    c.failed = true ∨ c.silent now = true

/-- The step replaces no connection that was skipped and is still good, and no
such connection is established after it was replaced. -/
def UsesReconnect (s : State) : Event → Prop
  | .connectToSerd now _ => MayReplace s now
  | .heartTimeoutCB _ cur _ _ => s.expired cur → MayReplace s cur
  | .errorCB bev event _ => s.pBev ≠ some bev → Report.ofFlags event = .connected →
      ∀ c ∈ s.conn bev, c.SkippedLogin → c.failed = true ∨ c.silentWhenReplaced = true
  | _ => True

/-- The logins on a connection are those that were typed and the one that the
timer writes right after making it; only a connection with callbacks reports. -/
structure Conn.Noted (c : Conn) : Prop where
  login : ClientConnect.loginFrame host ∈ c.written ↔
    c.loginTyped = true ∨ c.byTimer = true ∧ c.flagWhenMade = true ∧ c.callbacks = true
  reports : c.established = true → c.callbacks = true

/-- Every connection is noted, and no number is given twice. -/
def ConnsNoted (sockets : ℕ) (conn : ℕ → Option Conn) : Prop :=
  ∀ bev c, conn bev = some c → bev < sockets ∧ c.Noted host

/-- The invariant of every run. -/
def LoginsNoted (s : State) : Prop := ConnsNoted host s.sockets s.conn

section Connections

variable {host} {c : Conn}

/-- A heartbeat is not mistaken for a login. -/
theorem loginFrame_ne_heatBeatFrame :
    ClientConnect.loginFrame host ≠ ClientConnect.heatBeatFrame host := by
  intro heq
  have hids := congrArg (fun frame => (DataHeadCodec.headAt host frame).usMsgId) heq
  dsimp only [ClientConnect.loginFrame, ClientConnect.heatBeatFrame] at hids
  rw [(headAt_frameOf_fields host host _ _).2.2, (headAt_frameOf_fields host host _ _).2.2] at hids
  exact absurd hids (by decide)

/-- Without a login only failure or silence excuses a replacement. -/
theorem used_iff (h : c.Noted host) : c.Used host ↔
    (c.SkippedLogin → c.established = true → c.failed = true ∨ c.silentWhenReplaced = true) := by
  constructor
  · rintro hused ⟨htimer, hflag, htyped⟩ hestablished
    rcases hused htimer hestablished with hlogin | hexcuse
    · rcases h.login.mp hlogin with hyes | ⟨_, hyes, _⟩
      · rw [htyped] at hyes
        cases hyes
      · rw [hflag] at hyes
        cases hyes
    · exact hexcuse
  · intro hskipped htimer hestablished
    by_cases hlogin : ClientConnect.loginFrame host ∈ c.written
    · exact Or.inl hlogin
    · obtain ⟨htyped, hflag⟩ := not_or.mp fun h' => hlogin (h.login.mpr h')
      have hfalse : c.flagWhenMade = false := Bool.eq_false_iff.mpr fun hyes =>
        hflag ⟨htimer, hyes, h.reports hestablished⟩
      exact Or.inr (hskipped ⟨htimer, hfalse, Bool.eq_false_iff.mpr htyped⟩ hestablished)

/-- A new connection is noted as long as its login is not due. -/
theorem noted_new (host : ByteOrder) (fd : ℕ) (callbacks byTimer flag : Bool)
    (h : ¬(byTimer = true ∧ flag = true ∧ callbacks = true)) :
    (Conn.made fd callbacks byTimer flag).Noted host where
  login := by
    constructor
    · intro hmem
      cases hmem
    · rintro (htyped | hdue)
      · cases htyped
      · exact absurd hdue h
  reports := fun hestablished => (nomatch hestablished)

/-- A new connection of the timer on which login and heartbeat were written. -/
theorem noted_loggedIn (host : ByteOrder) (fd : ℕ) :
    (Conn.write (ClientConnect.heatBeatFrame host) (Conn.write (ClientConnect.loginFrame host)
      (Conn.made fd true true true))).Noted host where
  login := by
    constructor
    · intro _
      exact Or.inr ⟨rfl, rfl, rfl⟩
    · intro _
      exact List.mem_append_left _ List.mem_cons_self
  reports := fun hestablished => (nomatch hestablished)

theorem noted_heatBeat (h : c.Noted host) :
    (Conn.write (ClientConnect.heatBeatFrame host) c).Noted host where
  login := by
    refine Iff.trans ?_ h.login
    rw [Conn.write, List.mem_append, List.mem_singleton]
    exact or_iff_left loginFrame_ne_heatBeatFrame
  reports := h.reports

theorem noted_typed (h : c.Noted host) :
    (Conn.write (ClientConnect.loginFrame host) c.noteTyped).Noted host where
  login := by
    constructor
    · intro _
      exact Or.inl rfl
    · intro _
      exact List.mem_append_right _ List.mem_cons_self
  reports := h.reports

theorem noted_report (h : c.Noted host) (hcallbacks : c.callbacks = true) (report : Report)
    (now : ℤ) : (Conn.note report now c).Noted host := by
  cases report with
  | eof => exact ⟨h.login, h.reports⟩
  | error => exact ⟨h.login, h.reports⟩
  | connected => exact ⟨h.login, fun _ => hcallbacks⟩
  | other => exact h

theorem noted_noteReplaced (h : c.Noted host) (now : ℤ) : (c.noteReplaced now).Noted host :=
  ⟨h.login, h.reports⟩

theorem noted_noteResponse (h : c.Noted host) : c.noteResponse.Noted host :=
  ⟨h.login, h.reports⟩

/-- On an abandoned connection only CONNECTED can be wrong. -/
theorem used_note (h : c.Noted host) (hused : c.Used host) (hcallbacks : c.callbacks = true)
    (report : Report) (now : ℤ) : (Conn.note report now c).Used host ↔
      (report = .connected → c.SkippedLogin → c.failed = true ∨ c.silentWhenReplaced = true) := by
  cases report with
  | eof => exact ⟨fun _ hreport => (nomatch hreport), fun _ _ _ => Or.inr (Or.inl rfl)⟩
  | error => exact ⟨fun _ hreport => (nomatch hreport), fun _ _ _ => Or.inr (Or.inl rfl)⟩
  | connected =>
    have hnoted := noted_report h hcallbacks .connected now
    exact (used_iff hnoted).trans
      ⟨fun hguard _ hskipped => hguard hskipped rfl, fun hguard hskipped _ => hguard rfl hskipped⟩
  | other => exact ⟨fun _ hreport => (nomatch hreport), fun _ => hused⟩

end Connections

section Effects

variable {host} {s s' : State} {f : Conn → Conn}

theorem loginsNoted_onConn (h : LoginsNoted host s) {bev : ℕ}
    (hf : ∀ c, s.conn bev = some c → c.Noted host → (f c).Noted host) :
    LoginsNoted host (s.onConn bev f) := by
  intro other c hc
  obtain ⟨rfl, c', hc', rfl⟩ | ⟨_, hc'⟩ := State.of_onConn hc
  · obtain ⟨hlt, hnoted⟩ := h other c' hc'
    exact ⟨hlt, hf c' hc' hnoted⟩
  · exact h other c hc'

/-- What happens on the current connection abandons none. -/
theorem reconnectsUsed_current {bev : ℕ} (h : s.pBev = some bev) :
    ReconnectsUsed host (s.onConn bev f) ↔ ReconnectsUsed host s := by
  refine forall_congr' fun other => ?_
  by_cases hsame : other = bev
  · have hcurrent : s.pBev = some other := hsame ▸ h
    exact ⟨fun _ _ _ hne => absurd hcurrent hne, fun _ _ _ hne => absurd hcurrent hne⟩
  · rw [State.onConn_ne s hsame]
    exact Iff.rfl

/-- What happens on an abandoned connection must leave it used. -/
theorem reconnectsUsed_other (h : ReconnectsUsed host s) {bev : ℕ} {c : Conn}
    (hbev : s.pBev ≠ some bev) (hc : s.conn bev = some c) :
    ReconnectsUsed host (s.onConn bev f) ↔ (f c).Used host := by
  constructor
  · intro hused
    refine hused bev (f c) ?_ hbev
    rw [State.onConn_self, hc, Option.map_some]
  · intro hused other c' hc' hne
    obtain ⟨rfl, old, hold, rfl⟩ | ⟨_, hc'⟩ := State.of_onConn hc'
    · rw [hc, Option.some.injEq] at hold
      exact hold ▸ hused
    · exact h other c' hc' hne

/-- A change that keeps every connection used. -/
theorem reconnectsUsed_onConn (h : ReconnectsUsed host s) (bev : ℕ)
    (hf : ∀ c, c.Used host → (f c).Used host) : ReconnectsUsed host (s.onConn bev f) := by
  intro other c hc hne
  obtain ⟨rfl, c', hc', rfl⟩ | ⟨_, hc'⟩ := State.of_onConn hc
  · exact hf c' (h other c' hc' hne)
  · exact h other c hc' hne

/-- `m_pBev` is replaced by null or by a new connection that is noted. -/
structure Replaces (host : ByteOrder) (s s' : State) (now : ℤ) : Prop where
  sockets : s'.sockets = s.sockets + 1
  conn : s'.pBev = none ∧ s'.conn = (s.noteReplaced now).conn ∨ s'.pBev = some s.sockets ∧
    ∃ c, c.Noted host ∧ s'.conn = Function.update (s.noteReplaced now).conn s.sockets (some c)

theorem Replaces.loginsNoted {now : ℤ} (hs : Replaces host s s' now) (h : LoginsNoted host s) :
    LoginsNoted host s' := by
  have hold : ∀ bev c, (s.noteReplaced now).conn bev = some c →
      bev < s.sockets + 1 ∧ c.Noted host := by
    intro bev c hc
    rw [State.noteReplaced_conn] at hc
    split at hc
    · rw [Option.map_eq_some_iff] at hc
      obtain ⟨c', hc', rfl⟩ := hc
      obtain ⟨hlt, hnoted⟩ := h bev c' hc'
      exact ⟨Nat.lt_succ_of_lt hlt, noted_noteReplaced hnoted now⟩
    · obtain ⟨hlt, hnoted⟩ := h bev c hc
      exact ⟨Nat.lt_succ_of_lt hlt, hnoted⟩
  intro bev c hc
  rw [hs.sockets]
  obtain ⟨_, hconn⟩ | ⟨_, new, hnew, hconn⟩ := hs.conn
  · rw [hconn] at hc
    exact hold bev c hc
  · rw [hconn] at hc
    by_cases hsame : bev = s.sockets
    · rw [hsame, Function.update_self, Option.some.injEq] at hc
      exact ⟨hsame ▸ Nat.lt_succ_self bev, hc ▸ hnew⟩
    · rw [Function.update_of_ne hsame] at hc
      exact hold bev c hc

/-- Replacing abandons the connection that was current, and only that one. -/
theorem Replaces.reconnectsUsed {now : ℤ} (hs : Replaces host s s' now) (h : LoginsNoted host s)
    (hused : ReconnectsUsed host s) : ReconnectsUsed host s' ↔ MayReplace s now := by
  have hold : ∀ bev, bev < s.sockets →
      s'.pBev ≠ some bev ∧ s'.conn bev = (s.noteReplaced now).conn bev := by
    intro bev hlt
    obtain ⟨hnull, hconn⟩ | ⟨hstored, _, _, hconn⟩ := hs.conn
    · rw [hnull, hconn]
      exact ⟨(Option.some_ne_none bev).symm, rfl⟩
    · rw [hstored, hconn, Function.update_of_ne hlt.ne]
      exact ⟨fun heq => hlt.ne (Option.some.inj heq).symm, rfl⟩
  have hnew : ∀ bev c, s'.conn bev = some c → s'.pBev ≠ some bev →
      (s.noteReplaced now).conn bev = some c := by
    intro bev c hc hne
    obtain ⟨_, hconn⟩ | ⟨hstored, _, _, hconn⟩ := hs.conn
    · rwa [hconn] at hc
    · have hother : bev ≠ s.sockets := fun heq => hne (heq ▸ hstored)
      rwa [hconn, Function.update_of_ne hother] at hc
  constructor
  · intro hall c hc hskipped hestablished
    obtain ⟨bev, hbev, hcurrent⟩ := Option.bind_eq_some_iff.mp hc
    obtain ⟨hlt, hnoted⟩ := h bev c hcurrent
    obtain ⟨hgone, hkept⟩ := hold bev hlt
    rw [State.noteReplaced_conn, if_pos hbev, hcurrent, Option.map_some] at hkept
    have hafter := hall bev (c.noteReplaced now) hkept hgone
    exact (used_iff (noted_noteReplaced hnoted now)).mp hafter hskipped hestablished
  · intro hmay bev c hc hne
    have hbefore := hnew bev c hc hne
    rw [State.noteReplaced_conn] at hbefore
    by_cases hbev : s.pBev = some bev
    · rw [if_pos hbev, Option.map_eq_some_iff] at hbefore
      obtain ⟨c', hc', rfl⟩ := hbefore
      have hcurrent : c' ∈ s.current := Option.bind_eq_some_iff.mpr ⟨bev, hbev, hc'⟩
      exact (used_iff (noted_noteReplaced (h bev c' hc').2 now)).mpr (hmay c' hcurrent)
    · rw [if_neg hbev] at hbefore
      exact hused bev c hbefore hbev

/-- A call of `ConnectToSerd` after which no login of the timer is due. -/
theorem replaces_connectToSerd (host : ByteOrder) (s : State) (byTimer : Bool) (now : ℤ)
    (outcome : Outcome) (h : byTimer = true → outcome = .pending → s.bConnected = false) :
    Replaces host s (s.connectToSerd byTimer now outcome).1 now := by
  have hflag := s.noteReplaced_bConnected now
  cases outcome with
  | noBufferevent => exact ⟨rfl, Or.inl ⟨rfl, rfl⟩⟩
  | failed =>
    have hnew := noted_new host s.sockets false byTimer (s.noteReplaced now).bConnected
      fun hdue => (nomatch hdue.2.2)
    exact ⟨rfl, Or.inr ⟨rfl, _, hnew, rfl⟩⟩
  | pending =>
    have hnew : (Conn.made s.sockets true byTimer (s.noteReplaced now).bConnected).Noted host := by
      refine noted_new host s.sockets true byTimer _ fun ⟨htimer, hyes, _⟩ => ?_
      rw [hflag, h htimer rfl] at hyes
      cases hyes
    exact ⟨rfl, Or.inr ⟨rfl, _, hnew, rfl⟩⟩

/-- A tick that finds the flag set writes the login on the connection it made. -/
theorem replaces_login (host : ByteOrder) (s : State) (cur later : ℤ)
    (hflag : s.bConnected = true) : Replaces host s
      ((((s.connectToSerd true cur .pending).1.updateHeartTime later).reqLogin host).reqHeatBeat
        host) cur := by
  set made := (s.connectToSerd true cur .pending).1.updateHeartTime later with hmade
  have hconn : made.conn = Function.update (s.noteReplaced cur).conn s.sockets
      (some (Conn.made s.sockets true true true)) := by
    have hnew : Conn.made s.sockets true true (s.noteReplaced cur).bConnected =
        Conn.made s.sockets true true true := by
      rw [s.noteReplaced_bConnected cur, hflag]
    rw [← hnew]
    rfl
  have hbev : made.pBev = some s.sockets := rfl
  have hlogin : made.reqLogin host =
      made.onConn s.sockets (Conn.write (ClientConnect.loginFrame host)) :=
    State.reqLogin_of host hbev
  have hkept : (made.reqLogin host).pBev = some s.sockets := by
    rw [hlogin]
    exact hbev
  rw [State.reqHeatBeat_of host hkept, hlogin]
  refine ⟨rfl, Or.inr ⟨hbev, _, noted_loggedIn host s.sockets, funext fun bev => ?_⟩⟩
  by_cases hsame : bev = s.sockets
  · rw [hsame, State.onConn_self, State.onConn_self, hconn, Function.update_self,
      Function.update_self]
    rfl
  · rw [State.onConn_ne _ hsame, State.onConn_ne _ hsame, hconn, Function.update_of_ne hsame,
      Function.update_of_ne hsame]

/-- A tick replaces the current connection or writes one heartbeat on it. -/
theorem heartTimeoutCB_replaces (s : State) (host : ByteOrder) (cur : ℤ) (outcome : Outcome)
    (later : ℤ) :
    s.expired cur ∧ Replaces host s (s.heartTimeoutCB host cur outcome later) cur ∨
      ¬s.expired cur ∧ s.heartTimeoutCB host cur outcome later = s.reqHeatBeat host := by
  obtain ⟨hexpired, hgoes⟩ | ⟨hexpired, hflag, hgoes⟩ | ⟨hexpired, rfl, hflag, hgoes⟩ :=
    s.heartTimeoutCB_cases host cur outcome later
  · exact Or.inr ⟨hexpired, hgoes⟩
  · rw [hgoes]
    exact Or.inl ⟨hexpired, replaces_connectToSerd host s true cur outcome fun _ => hflag⟩
  · rw [hgoes]
    exact Or.inl ⟨hexpired, replaces_login host s cur later hflag⟩

theorem loginsNoted_reqHeatBeat (h : LoginsNoted host s) :
    LoginsNoted host (s.reqHeatBeat host) := by
  cases hbev : s.pBev with
  | none =>
    rw [State.reqHeatBeat_null host hbev]
    exact h
  | some bev =>
    rw [State.reqHeatBeat_of host hbev]
    exact loginsNoted_onConn h fun _ _ => noted_heatBeat

theorem reconnectsUsed_reqHeatBeat (hused : ReconnectsUsed host s) :
    ReconnectsUsed host (s.reqHeatBeat host) := by
  cases hbev : s.pBev with
  | none =>
    rw [State.reqHeatBeat_null host hbev]
    exact hused
  | some bev =>
    rw [State.reqHeatBeat_of host hbev]
    exact (reconnectsUsed_current hbev).mpr hused

end Effects

variable {host} {s s' : State}

theorem loginsNoted_step (h : LoginsNoted host s) {e : Event} (hstep : step host s e = some s') :
    LoginsNoted host s' := by
  cases e with
  | connectToSerd now outcome =>
    obtain rfl := step_connectToSerd hstep
    have hs := replaces_connectToSerd host s false now outcome fun htimer => (nomatch htimer)
    exact hs.loginsNoted h
  | readTerminal =>
    obtain ⟨bev, _, _, rfl⟩ := step_readTerminal hstep
    have hbefore : LoginsNoted host { s with terminal := false } := h
    rw [State.onConn_onConn]
    exact loginsNoted_onConn hbefore fun _ _ hc => noted_typed hc
  | readCB bev stack input now =>
    obtain ⟨_, _, _, ⟨_, rfl⟩ | ⟨_, rfl⟩ | ⟨_, rfl⟩ | ⟨_, rfl⟩⟩ := step_readCB hstep
    · have hbefore : LoginsNoted host { s.updateHeartTime now with
          timers := s.timers + 1, pevTimer := some s.timers } := h
      exact loginsNoted_onConn hbefore fun _ _ hc => noted_noteResponse hc
    · have hbefore : LoginsNoted host (s.updateHeartTime now) := h
      exact loginsNoted_onConn hbefore fun _ _ hc => noted_noteResponse hc
    · exact h
    · exact h
  | errorCB bev event now =>
    obtain ⟨c, hc, hcallbacks, rfl⟩ := step_errorCB hstep
    obtain ⟨hconn, _, hsockets⟩ := s.errorCB_frame (Report.ofFlags event)
    have hbefore : LoginsNoted host (s.errorCB (Report.ofFlags event)) := by
      rwa [LoginsNoted, hconn, hsockets]
    refine loginsNoted_onConn hbefore fun c' hc' hnoted => ?_
    rw [hconn, hc, Option.some.injEq] at hc'
    exact noted_report hnoted (hc' ▸ hcallbacks) (Report.ofFlags event) now
  | heartTimeoutCB timer cur outcome later =>
    obtain ⟨_, rfl⟩ := step_heartTimeoutCB hstep
    obtain ⟨_, hs⟩ | ⟨_, hgoes⟩ := heartTimeoutCB_replaces s host cur outcome later
    · exact hs.loginsNoted h
    · rw [hgoes]
      exact loginsNoted_reqHeatBeat h

/-- One step abandons no connection without use exactly when it meets the
guard. -/
theorem reconnectsUsed_step (h : LoginsNoted host s) (hused : ReconnectsUsed host s) {e : Event}
    (hstep : step host s e = some s') : ReconnectsUsed host s' ↔ UsesReconnect s e := by
  cases e with
  | connectToSerd now outcome =>
    obtain rfl := step_connectToSerd hstep
    have hs := replaces_connectToSerd host s false now outcome fun htimer => (nomatch htimer)
    exact hs.reconnectsUsed h hused
  | readTerminal =>
    obtain ⟨bev, hbev, _, rfl⟩ := step_readTerminal hstep
    have hcurrent : ({ s with terminal := false } : State).pBev = some bev := hbev
    rw [State.onConn_onConn, reconnectsUsed_current hcurrent]
    exact ⟨fun _ => trivial, fun _ => hused⟩
  | readCB bev stack input now =>
    have hresponse : ∀ c : Conn, c.Used host → c.noteResponse.Used host := fun _ hc => hc
    obtain ⟨_, _, _, ⟨_, rfl⟩ | ⟨_, rfl⟩ | ⟨_, rfl⟩ | ⟨_, rfl⟩⟩ := step_readCB hstep
    · have hbefore : ReconnectsUsed host { s.updateHeartTime now with
          timers := s.timers + 1, pevTimer := some s.timers } := hused
      exact ⟨fun _ => trivial, fun _ => reconnectsUsed_onConn hbefore bev hresponse⟩
    · have hbefore : ReconnectsUsed host (s.updateHeartTime now) := hused
      exact ⟨fun _ => trivial, fun _ => reconnectsUsed_onConn hbefore bev hresponse⟩
    · exact ⟨fun _ => trivial, fun _ => hused⟩
    · exact ⟨fun _ => trivial, fun _ => hused⟩
  | errorCB bev event now =>
    obtain ⟨c, hc, hcallbacks, rfl⟩ := step_errorCB hstep
    obtain ⟨hconn, hpBev, _⟩ := s.errorCB_frame (Report.ofFlags event)
    have hbefore : ReconnectsUsed host (s.errorCB (Report.ofFlags event)) := by
      rwa [ReconnectsUsed, hconn, hpBev]
    by_cases hbev : s.pBev = some bev
    · rw [reconnectsUsed_current (hpBev.trans hbev)]
      exact ⟨fun _ hother => absurd hbev hother, fun _ => hbefore⟩
    · have hother : (s.errorCB (Report.ofFlags event)).pBev ≠ some bev := by rwa [hpBev]
      have hnote := used_note (h bev c hc).2 (hused bev c hc hbev) hcallbacks
        (Report.ofFlags event) now
      rw [reconnectsUsed_other hbefore hother (hconn ▸ hc), hnote, UsesReconnect, hc]
      simp only [Option.mem_def, Option.some.injEq, forall_eq']
      exact ⟨fun hguard _ => hguard, fun hguard => hguard hbev⟩
  | heartTimeoutCB timer cur outcome later =>
    obtain ⟨_, rfl⟩ := step_heartTimeoutCB hstep
    obtain ⟨hexpired, hs⟩ | ⟨hexpired, hgoes⟩ := heartTimeoutCB_replaces s host cur outcome later
    · rw [hs.reconnectsUsed h hused]
      exact ⟨fun hmay _ => hmay, fun hmay => hmay hexpired⟩
    · rw [hgoes]
      exact ⟨fun _ hyes => absurd hyes hexpired, fun _ => reconnectsUsed_reqHeatBeat hused⟩

theorem loginsNoted_init (host : ByteOrder) : LoginsNoted host State.init :=
  fun _ _ hnone => (nomatch hnone)

/-- In a run of any events every connection that the timer made and that was
established is used before it is replaced, or excused, exactly when no step
replaces one that was skipped and is still good, and none is established only
after it was replaced. -/
theorem reconnects_along (host : ByteOrder) (es : List Event) :
    (system host).Along (ReconnectsUsed host) State.init es ↔
      (system host).Guarded UsesReconnect State.init es := by
  have hkeep : ∀ (s : State) (e : Event) (s' : State), True → LoginsNoted host s →
      (system host).step s e = some s' → LoginsNoted host s' :=
    fun s e s' _ h hstep => loginsNoted_step h hstep
  have hiff : ∀ (s : State) (e : Event) (s' : State), True → LoginsNoted host s →
      ReconnectsUsed host s → (system host).step s e = some s' →
        (ReconnectsUsed host s' ↔ UsesReconnect s e) :=
    fun s e s' _ h hused hstep => reconnectsUsed_step h hused hstep
  have hinit : ReconnectsUsed host State.init := fun _ _ hnone => (nomatch hnone)
  exact System.along_iff_guarded hkeep hiff (loginsNoted_init host) hinit fun _ _ => trivial

/-- The server restarts. The first tick after it went silent connects while the
flag is false, the next one replaces the connection that this established. -/
theorem reconnect_abandoned : ¬∀ (host : ByteOrder) (es : List Event),
    (system host).Along (ReconnectsUsed host) State.init es := by
  intro h
  let es : List Event := [.connectToSerd 0 .pending, .errorCB 0 bevEventConnected 0,
    .readTerminal, .readCB 0 .zeros [0, 100, 2, 1, 0, 3, 3, 233] 1,
    .heartTimeoutCB 0 6 .pending 6, .errorCB 0 bevEventEof 7,
    .heartTimeoutCB 0 11 .pending 11, .heartTimeoutCB 0 16 .pending 16,
    .heartTimeoutCB 0 21 .pending 21, .errorCB 1 bevEventConnected 21,
    .heartTimeoutCB 0 26 .pending 26]
  have hrun : ((system .little).run es).any (fun s => s.pBev ≠ some 1 ∧
      (s.conn 1).any (fun c => c.byTimer ∧ c.established ∧ c.written = [] ∧ c.failed = false ∧
        c.silentWhenReplaced = false) = true) = true := by decide +kernel
  obtain ⟨s, hs, hboth⟩ := (Option.any_eq_true _ _).mp hrun
  obtain ⟨hreplaced, hconn⟩ := of_decide_eq_true hboth
  obtain ⟨c, hc, hc'⟩ := (Option.any_eq_true _ _).mp hconn
  obtain ⟨htimer, hestablished, hwritten, hfailed, hsilent⟩ := of_decide_eq_true hc'
  have hused := (h .little es).of_runFrom hs
  rcases hused 1 c hc hreplaced htimer hestablished with hlogin | hyes | hyes
  · rw [hwritten] at hlogin
    cases hlogin
  · rw [hfailed] at hyes
    cases hyes
  · rw [hsilent] at hyes
    cases hyes

end NodeManager.Client
