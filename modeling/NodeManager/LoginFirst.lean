import NodeManager.Reconnect

/-!
# Login before heartbeat

A tick that finds the last sign of life fresh writes a heartbeat on whatever
`m_pBev` names. The sign of life may come from an older connection, so that a
heartbeat can be the first frame on a connection that was made meanwhile. What
an event writes is read off the list of frames sent on every connection.
-/

namespace NodeManager.Client

open ByteMemory TransitionSystem

variable (host : ByteOrder)

/-- Every heartbeat among the frames comes after a login. -/
def LoginFirst (written : List (List UInt8)) : Prop :=
  ∀ before after, written = before ++ ClientConnect.heatBeatFrame host :: after →
    ClientConnect.loginFrame host ∈ before

/-- On every connection a login comes before the heartbeats. -/
def LoginsFirst (s : State) : Prop :=
  ∀ bev c, s.conn bev = some c → LoginFirst host c.written

/-- A login was typed while the connection was current, or the timer made it
while `m_bConnected` was set and the attempt did not fail at once. -/
def Conn.LoggedIn (c : Conn) : Prop :=
  c.loginTyped = true ∨ c.byTimer = true ∧ c.flagWhenMade = true ∧ c.callbacks = true

/-- A tick that only beats finds a connection that was logged in on. -/
def BeatsLoggedIn (s : State) : Event → Prop
  | .heartTimeoutCB _ cur _ _ => ¬s.expired cur → ∀ c ∈ s.current, c.LoggedIn
  | _ => True

/-- The frames sent on every connection. -/
def State.sent (s : State) (bev : ℕ) : Option (List (List UInt8)) := (s.conn bev).map Conn.written

/-- The frames sent after one more. -/
def sendOn (bev : ℕ) (frame : List UInt8) (sent : ℕ → Option (List (List UInt8))) :
    ℕ → Option (List (List UInt8)) :=
  Function.update sent bev ((sent bev).map (· ++ [frame]))

/-- The frames of a connection after one more on some connection. -/
theorem of_sendOn {bev other : ℕ} {frame : List UInt8} {sent : ℕ → Option (List (List UInt8))}
    {frames : List (List UInt8)} (h : sendOn bev frame sent other = some frames) :
    (other = bev ∧ ∃ before, sent bev = some before ∧ frames = before ++ [frame]) ∨
      sent other = some frames := by
  by_cases hsame : other = bev
  · rw [hsame, sendOn, Function.update_self, Option.map_eq_some_iff] at h
    obtain ⟨before, hbefore, hframes⟩ := h
    exact Or.inl ⟨hsame, before, hbefore, hframes.symm⟩
  · rw [sendOn, Function.update_of_ne hsame] at h
    exact Or.inr h

section Operations

variable {host} {s s' : State}

/-- A change other than a write. -/
theorem sent_onConn (s : State) (bev : ℕ) {f : Conn → Conn} (hf : ∀ c, (f c).written = c.written) :
    (s.onConn bev f).sent = s.sent := by
  funext other
  by_cases hsame : other = bev
  · rw [State.sent, State.sent, hsame, State.onConn_self, Option.map_map]
    exact congrArg (fun g => Option.map g (s.conn bev)) (funext hf)
  · rw [State.sent, State.sent, State.onConn_ne s hsame]

/-- A write, with or without a note of it. -/
theorem sent_write (s : State) (bev : ℕ) (frame : List UInt8) {f : Conn → Conn}
    (hf : ∀ c, (f c).written = c.written ++ [frame]) :
    (s.onConn bev f).sent = sendOn bev frame s.sent := by
  funext other
  by_cases hsame : other = bev
  · rw [State.sent, hsame, State.onConn_self, sendOn, Function.update_self, State.sent,
      Option.map_map, Option.map_map]
    exact congrArg (fun g => Option.map g (s.conn bev)) (funext hf)
  · rw [State.sent, State.onConn_ne s hsame, sendOn, Function.update_of_ne hsame]
    rfl

theorem sent_noteReplaced (s : State) (now : ℤ) : (s.noteReplaced now).sent = s.sent := by
  unfold State.noteReplaced
  cases s.pBev with
  | none => rfl
  | some bev => exact sent_onConn s bev fun _ => rfl

theorem sent_storeBev (s : State) (fd : ℕ) (byTimer callbacks : Bool) :
    (s.storeBev fd byTimer callbacks).sent = Function.update s.sent fd (some []) := by
  funext bev
  dsimp only [State.sent, State.storeBev]
  by_cases hsame : bev = fd
  · rw [hsame, Function.update_self, Function.update_self]
    rfl
  · rw [Function.update_of_ne hsame, Function.update_of_ne hsame]
    rfl

/-- A call of `ConnectToSerd` makes at most one connection, without frames. -/
theorem sent_connectToSerd (s : State) (byTimer : Bool) (now : ℤ) (outcome : Outcome) :
    (s.connectToSerd byTimer now outcome).1.sent = if outcome = .noBufferevent then s.sent
      else Function.update s.sent s.sockets (some []) := by
  rw [← sent_noteReplaced s now]
  cases outcome with
  | noBufferevent => rfl
  | failed => exact sent_storeBev _ s.sockets byTimer false
  | pending => exact sent_storeBev _ s.sockets byTimer true

/-- A tick on a fresh sign of life writes one heartbeat. -/
theorem sent_reqHeatBeat (host : ByteOrder) (s : State) : (s.reqHeatBeat host).sent =
    s.pBev.elim s.sent fun bev => sendOn bev (ClientConnect.heatBeatFrame host) s.sent := by
  cases hbev : s.pBev with
  | none =>
    rw [State.reqHeatBeat_null host hbev]
    rfl
  | some bev =>
    rw [State.reqHeatBeat_of host hbev]
    exact sent_write s bev _ fun _ => rfl

/-- A reconnect with its login and heartbeat. -/
theorem sent_login (s : State) (cur later : ℤ) :
    ((((s.connectToSerd true cur .pending).1.updateHeartTime later).reqLogin host).reqHeatBeat
      host).sent = Function.update s.sent s.sockets
        (some [ClientConnect.loginFrame host, ClientConnect.heatBeatFrame host]) := by
  set made := (s.connectToSerd true cur .pending).1.updateHeartTime later with hmade
  have hbev : made.pBev = some s.sockets := rfl
  have hlogin := State.reqLogin_of host hbev
  have hkept : (made.reqLogin host).pBev = some s.sockets := by
    rw [hlogin]
    exact hbev
  have hsent : made.sent = Function.update s.sent s.sockets (some []) :=
    sent_connectToSerd s true cur .pending
  rw [sent_reqHeatBeat, hkept, Option.elim_some, hlogin,
    sent_write made s.sockets (ClientConnect.loginFrame host) fun _ => rfl, hsent]
  simp only [sendOn, Function.update_self, Option.map_some, Function.update_idem, List.nil_append,
    List.cons_append]

/-- What an event does to the frames sent: nothing, a new connection without
frames or with a login and a heartbeat, a typed login; or a heartbeat. -/
theorem sent_step {e : Event} (hstep : step host s e = some s') :
    BeatsLoggedIn s e ∧ (s'.sent = s.sent ∨
        (∃ frames ∈ [[], [ClientConnect.loginFrame host, ClientConnect.heatBeatFrame host]],
          s'.sent = Function.update s.sent s.sockets (some frames)) ∨
        ∃ bev, s'.sent = sendOn bev (ClientConnect.loginFrame host) s.sent) ∨
      (BeatsLoggedIn s e ↔ ∀ c ∈ s.current, c.LoggedIn) ∧
        s'.sent = s.pBev.elim s.sent fun bev =>
          sendOn bev (ClientConnect.heatBeatFrame host) s.sent := by
  have hconnect : ∀ byTimer now outcome,
      (s.connectToSerd byTimer now outcome).1.sent = s.sent ∨
        ∃ frames ∈ [[], [ClientConnect.loginFrame host, ClientConnect.heatBeatFrame host]],
          (s.connectToSerd byTimer now outcome).1.sent =
            Function.update s.sent s.sockets (some frames) := by
    intro byTimer now outcome
    rw [sent_connectToSerd]
    split
    · exact Or.inl rfl
    · exact Or.inr ⟨[], List.mem_cons_self, rfl⟩
  cases e with
  | connectToSerd now outcome =>
    obtain rfl := step_connectToSerd hstep
    exact Or.inl ⟨trivial, (hconnect false now outcome).imp_right Or.inl⟩
  | readTerminal =>
    obtain ⟨bev, _, _, rfl⟩ := step_readTerminal hstep
    rw [State.onConn_onConn]
    exact Or.inl ⟨trivial, Or.inr (Or.inr ⟨bev, sent_write _ bev _ fun _ => rfl⟩)⟩
  | readCB bev stack input now =>
    have hresponse : ∀ t : State, t.sent = s.sent →
        (t.onConn bev Conn.noteResponse).sent = s.sent := by
      intro t ht
      rw [← ht]
      exact sent_onConn t bev fun _ => rfl
    refine Or.inl ⟨trivial, Or.inl ?_⟩
    obtain ⟨_, _, _, ⟨_, rfl⟩ | ⟨_, rfl⟩ | ⟨_, rfl⟩ | ⟨_, rfl⟩⟩ := step_readCB hstep
    · exact hresponse _ rfl
    · exact hresponse _ rfl
    · rfl
    · rfl
  | errorCB bev event now =>
    obtain ⟨_, _, _, rfl⟩ := step_errorCB hstep
    have hreport : (s.errorCB (Report.ofFlags event)).sent = s.sent := by
      cases Report.ofFlags event <;> rfl
    refine Or.inl ⟨trivial, Or.inl ((sent_onConn _ bev fun c => ?_).trans hreport)⟩
    cases Report.ofFlags event <;> rfl
  | heartTimeoutCB timer cur outcome later =>
    obtain ⟨_, rfl⟩ := step_heartTimeoutCB hstep
    obtain ⟨hexpired, hgoes⟩ | ⟨hexpired, _, hgoes⟩ | ⟨hexpired, rfl, _, hgoes⟩ :=
      s.heartTimeoutCB_cases host cur outcome later
    · rw [hgoes]
      exact Or.inr ⟨forall_prop_of_true hexpired, sent_reqHeatBeat host s⟩
    · rw [hgoes]
      exact Or.inl ⟨fun hfresh => absurd hexpired hfresh,
        (hconnect true cur outcome).imp_right Or.inl⟩
    · rw [hgoes]
      exact Or.inl ⟨fun hfresh => absurd hexpired hfresh,
        Or.inr (Or.inl ⟨_, List.mem_cons_of_mem _ List.mem_cons_self, sent_login s cur later⟩)⟩

end Operations

section Frames

variable {host} {written : List (List UInt8)}

/-- One more frame is in order if it is no heartbeat or comes after a login. -/
theorem loginFirst_append (h : LoginFirst host written) (frame : List UInt8) :
    LoginFirst host (written ++ [frame]) ↔
      (frame = ClientConnect.heatBeatFrame host → ClientConnect.loginFrame host ∈ written) := by
  constructor
  · intro hfirst hheart
    exact hfirst written [] (by rw [hheart])
  · intro hframe before after hsplit
    rcases List.eq_nil_or_concat after with rfl | ⟨rest, last, rfl⟩
    · obtain ⟨hbefore, hlast⟩ := List.append_inj' hsplit rfl
      rw [← hbefore]
      exact hframe (List.head_eq_of_cons_eq hlast)
    · rw [List.concat_eq_append, ← List.cons_append, ← List.append_assoc] at hsplit
      obtain ⟨hbefore, _⟩ := List.append_inj' hsplit rfl
      exact h before rest hbefore

theorem loginFirst_nil (host : ByteOrder) : LoginFirst host [] := by
  intro before after hsplit
  have hlength := congrArg List.length hsplit
  simp only [List.length_nil, List.length_append, List.length_cons] at hlength
  omega

theorem loginFirst_login_heatBeat (host : ByteOrder) :
    LoginFirst host [ClientConnect.loginFrame host, ClientConnect.heatBeatFrame host] := by
  have hlogin : LoginFirst host ([] ++ [ClientConnect.loginFrame host]) :=
    (loginFirst_append (loginFirst_nil host) _).mpr fun heq =>
      absurd heq loginFrame_ne_heatBeatFrame
  exact (loginFirst_append hlogin _).mpr fun _ => List.mem_cons_self

end Frames

section Steps

variable {host} {s s' : State}

theorem loginsFirst_iff_sent : LoginsFirst host s ↔
    ∀ bev frames, s.sent bev = some frames → LoginFirst host frames := by
  constructor
  · intro h bev frames hsent
    obtain ⟨c, hc, rfl⟩ := Option.map_eq_some_iff.mp hsent
    exact h bev c hc
  · intro h bev c hc
    exact h bev c.written (congrArg (Option.map Conn.written) hc)

/-- One more frame on a connection changes nothing on the others. -/
theorem loginsFirst_sendOn (h : LoginsFirst host s) {bev : ℕ} {frame : List UInt8}
    (hsent : s'.sent = sendOn bev frame s.sent) : LoginsFirst host s' ↔
      (frame = ClientConnect.heatBeatFrame host → ∀ c, s.conn bev = some c →
        ClientConnect.loginFrame host ∈ c.written) := by
  rw [loginsFirst_iff_sent, hsent]
  constructor
  · intro hafter hheart c hc
    have hwritten : sendOn bev frame s.sent bev = some (c.written ++ [frame]) := by
      rw [sendOn, Function.update_self, State.sent, hc]
      rfl
    exact (loginFirst_append (h bev c hc) frame).mp (hafter bev _ hwritten) hheart
  · intro hframe other frames hother
    rcases of_sendOn hother with ⟨_, before, hbefore, rfl⟩ | hother
    · obtain ⟨c, hc, rfl⟩ := Option.map_eq_some_iff.mp hbefore
      exact (loginFirst_append (h bev c hc) frame).mpr fun hheart => hframe hheart c hc
    · exact loginsFirst_iff_sent.mp h other frames hother

/-- One step keeps the logins first exactly when it meets the guard. -/
theorem loginsFirst_step (hnoted : LoginsNoted host s) (h : LoginsFirst host s) {e : Event}
    (hstep : step host s e = some s') : LoginsFirst host s' ↔ BeatsLoggedIn s e := by
  obtain ⟨hguard, hsame | ⟨frames, hnew, hsent⟩ | ⟨bev, hsent⟩⟩ | ⟨hguard, hsent⟩ := sent_step hstep
  · refine iff_of_true (loginsFirst_iff_sent.mpr ?_) hguard
    rw [hsame]
    exact loginsFirst_iff_sent.mp h
  · have hframes : LoginFirst host frames := by
      rw [List.mem_cons, List.mem_singleton] at hnew
      rcases hnew with rfl | rfl
      · exact loginFirst_nil host
      · exact loginFirst_login_heatBeat host
    refine iff_of_true (loginsFirst_iff_sent.mpr fun bev written hwritten => ?_) hguard
    rw [hsent] at hwritten
    by_cases hsame : bev = s.sockets
    · rw [hsame, Function.update_self, Option.some.injEq] at hwritten
      rwa [← hwritten]
    · rw [Function.update_of_ne hsame] at hwritten
      exact loginsFirst_iff_sent.mp h bev written hwritten
  · refine iff_of_true ((loginsFirst_sendOn h hsent).mpr fun heq => ?_) hguard
    exact absurd heq loginFrame_ne_heatBeatFrame
  · rw [hguard]
    cases hbev : s.pBev with
    | none =>
      rw [hbev] at hsent
      refine iff_of_true (loginsFirst_iff_sent.mpr ?_) ?_
      · rw [hsent]
        exact loginsFirst_iff_sent.mp h
      · intro c hc
        rw [State.current, hbev] at hc
        cases hc
    | some bev =>
      rw [hbev] at hsent
      rw [loginsFirst_sendOn h hsent, State.current, hbev]
      simp only [forall_const, Option.bind_some, Option.mem_def]
      refine forall_congr' fun c => forall_congr' fun hc => ?_
      exact (hnoted bev c hc).2.login

end Steps

/-- In a run of any events no heartbeat is written on a connection before a
login exactly when every tick that only beats finds a connection in `m_pBev`
that was logged in on. -/
theorem loginsFirst_along (es : List Event) :
    (system host).Along (LoginsFirst host) State.init es ↔
      (system host).Guarded BeatsLoggedIn State.init es := by
  have hkeep : ∀ (s : State) (e : Event) (s' : State), True → LoginsNoted host s →
      (system host).step s e = some s' → LoginsNoted host s' :=
    fun s e s' _ h hstep => loginsNoted_step h hstep
  have hiff : ∀ (s : State) (e : Event) (s' : State), True → LoginsNoted host s →
      LoginsFirst host s → (system host).step s e = some s' →
        (LoginsFirst host s' ↔ BeatsLoggedIn s e) :=
    fun s e s' _ hnoted h hstep => loginsFirst_step hnoted h hstep
  have hinit : LoginsFirst host State.init := fun _ _ hnone => (nomatch hnone)
  exact System.along_iff_guarded hkeep hiff (loginsNoted_init host) hinit fun _ _ => trivial

/-- The server goes silent, the reconnect fails at once, and a late response on
the first connection makes the next tick beat on the second one. -/
theorem heartbeat_without_login : ¬∀ (host : ByteOrder) (es : List Event),
    (system host).Along (LoginsFirst host) State.init es := by
  intro h
  let es : List Event := [.connectToSerd 0 .pending, .errorCB 0 bevEventConnected 0,
    .readTerminal, .readCB 0 .zeros [0, 100, 2, 1, 0, 3, 3, 233] 1,
    .heartTimeoutCB 0 6 .pending 6, .heartTimeoutCB 0 11 .pending 11,
    .heartTimeoutCB 0 16 .pending 16, .heartTimeoutCB 0 21 .failed 21,
    .readCB 0 .zeros [0, 100, 2, 1, 0, 0, 3, 232] 22, .heartTimeoutCB 0 26 .pending 26]
  have hrun : ((system .little).run es).any (fun s => (s.conn 1).any (fun c =>
      c.written = [] ++ [ClientConnect.heatBeatFrame .little]) = true) = true := by
    decide +kernel
  obtain ⟨s, hs, hconn⟩ := (Option.any_eq_true _ _).mp hrun
  obtain ⟨c, hc, hwritten⟩ := (Option.any_eq_true _ _).mp (of_decide_eq_true hconn)
  have hfirst := (h .little es).of_runFrom hs 1 c hc [] [] (of_decide_eq_true hwritten)
  cases hfirst

end NodeManager.Client
