import NodeManager.LoginFirst
import NodeManager.OneConnection

/-!
# What a client writes and when it exits

On every connection the client writes nothing but its login and its
heartbeat, and what it has written stays written. It exits when it reads a
close frame and in no other case.
-/

namespace NodeManager.Client

open ByteMemory TransitionSystem

variable {host : ByteOrder} {s s' : State}

/-- The frames are requests of the client. -/
def Requests (host : ByteOrder) (frames : List (List UInt8)) : Prop :=
  ∀ frame ∈ frames, frame = ClientConnect.loginFrame host ∨
    frame = ClientConnect.heatBeatFrame host

/-- The frames sent on a connection, none if there is no such connection. -/
def State.framesOn (s : State) (conn : ℕ) : List (List UInt8) := (s.sent conn).getD []

theorem sockets_step {e : Event} (hstep : step host s e = some s') : s.sockets ≤ s'.sockets := by
  have hsockets : s'.sockets = ((attempt? s e).elim s.holding s.holding.attempt).sockets :=
    congrArg Holding.sockets (holding_step hstep)
  rw [hsockets]
  cases attempt? s e with
  | none => exact le_rfl
  | some outcome => exact Nat.le_succ _

/-- A frame written on some connection, seen from another one. -/
theorem framesOn_sendOn (conn : ℕ) {bev : ℕ} {frame : List UInt8}
    (hframe : Requests host [frame]) (hsent : s'.sent = sendOn bev frame s.sent) :
    ∃ more, (Requests host more ∧ more.length ≤ 2) ∧
      s'.framesOn conn = s.framesOn conn ++ more := by
  have hnone : Requests host [] := fun _ hmem => absurd hmem List.not_mem_nil
  rw [State.framesOn, State.framesOn, hsent]
  by_cases hsame : conn = bev
  · rw [hsame, sendOn, Function.update_self]
    cases s.sent bev with
    | none => exact ⟨[], ⟨hnone, Nat.zero_le 2⟩, rfl⟩
    | some frames => exact ⟨[frame], ⟨hframe, Nat.le_succ 1⟩, rfl⟩
  · rw [sendOn, Function.update_of_ne hsame]
    exact ⟨[], ⟨hnone, Nat.zero_le 2⟩, (List.append_nil _).symm⟩

/-- An event adds two requests at most to the frames of a connection that has been
made. -/
theorem framesOn_step {e : Event} (hstep : step host s e = some s') (conn : ℕ) :
    ∃ more, (Requests host more ∧ more.length ≤ 2) ∧
      (s'.framesOn conn = s.framesOn conn ++ more ∨
        s.sockets ≤ conn ∧ s'.framesOn conn = more) := by
  have hnone : Requests host [] ∧ ([] : List (List UInt8)).length ≤ 2 :=
    ⟨fun _ hmem => absurd hmem List.not_mem_nil, Nat.zero_le 2⟩
  have hlogin : Requests host [ClientConnect.loginFrame host] :=
    List.forall_mem_singleton.mpr (Or.inl rfl)
  have hbeat : Requests host [ClientConnect.heatBeatFrame host] :=
    List.forall_mem_singleton.mpr (Or.inr rfl)
  have hquiet : s'.sent = s.sent → s'.framesOn conn = s.framesOn conn ++ [] := by
    intro hsent
    rw [State.framesOn, hsent, List.append_nil, State.framesOn]
  obtain ⟨_, hsent | ⟨frames, hnew, hsent⟩ | ⟨bev, hsent⟩⟩ | ⟨_, hsent⟩ := sent_step hstep
  · exact ⟨[], hnone, Or.inl (hquiet hsent)⟩
  · by_cases hsame : conn = s.sockets
    · refine ⟨frames, ?_, Or.inr ⟨hsame.ge, ?_⟩⟩
      · simp only [List.mem_cons, List.not_mem_nil, or_false] at hnew
        rcases hnew with rfl | rfl
        · exact hnone
        · exact ⟨List.forall_mem_cons.mpr ⟨Or.inl rfl, hbeat⟩, Nat.le_refl 2⟩
      · rw [State.framesOn, hsent, hsame, Function.update_self]
        rfl
    · refine ⟨[], hnone, Or.inl ?_⟩
      rw [State.framesOn, hsent, Function.update_of_ne hsame, List.append_nil]
      rfl
  · obtain ⟨more, hmore, hframes⟩ := framesOn_sendOn conn hlogin hsent
    exact ⟨more, hmore, Or.inl hframes⟩
  · cases hbev : s.pBev with
    | none =>
      rw [hbev] at hsent
      exact ⟨[], hnone, Or.inl (hquiet hsent)⟩
    | some bev =>
      rw [hbev] at hsent
      obtain ⟨more, hmore, hframes⟩ := framesOn_sendOn conn hbeat hsent
      exact ⟨more, hmore, Or.inl hframes⟩

/-- The frames of a connection become more by two at most. -/
theorem framesOn_length_step {e : Event} (hstep : step host s e = some s') (conn : ℕ) :
    (s'.framesOn conn).length ≤ (s.framesOn conn).length + 2 := by
  obtain ⟨more, ⟨_, hfew⟩, hframes | ⟨_, hframes⟩⟩ := framesOn_step hstep conn
  · rw [hframes, List.length_append]
    exact Nat.add_le_add_left hfew _
  · rw [hframes]
    exact hfew.trans (Nat.le_add_left 2 _)

theorem buffereventWrite_exited (s : State) (buffer : List UInt8)
    (h : (s.buffereventWrite buffer).status = .exited) : s.status = .exited := by
  unfold State.buffereventWrite at h
  split at h
  · cases h
  · exact h

theorem connectToSerd_exited (s : State) (byTimer : Bool) (now : ℤ) (outcome : Outcome)
    (h : (s.connectToSerd byTimer now outcome).1.status = .exited) : s.status = .exited := by
  have hreplaced : (s.noteReplaced now).status = s.status := by
    unfold State.noteReplaced
    cases s.pBev <;> rfl
  rw [← hreplaced]
  cases outcome with
  | noBufferevent => cases h
  | failed => exact h
  | pending => exact h

/-- The client exits on a close frame and on nothing else. -/
theorem exited_of_step {e : Event} (hstep : step host s e = some s')
    (hexited : s'.status = .exited) : ∃ bev stack input now, e = .readCB bev stack input now ∧
      ClientConnect.Receives host input .reqCloseNode := by
  have hrunning := running_of_step hstep
  have hstill : s.status ≠ .exited := by
    rw [hrunning]
    exact fun h => nomatch h
  have hlogin : ∀ t : State, (t.reqLogin host).status = .exited → t.status = .exited := by
    intro t
    rw [State.reqLogin, ClientConnect.reqLogin_eq]
    exact buffereventWrite_exited t _
  have hbeat : ∀ t : State, (t.reqHeatBeat host).status = .exited → t.status = .exited := by
    intro t
    rw [State.reqHeatBeat, ClientConnect.reqHeatBeat_eq]
    exact buffereventWrite_exited t _
  cases e with
  | connectToSerd now outcome =>
    obtain rfl := step_connectToSerd hstep
    exact absurd (connectToSerd_exited s false now outcome hexited) hstill
  | readTerminal =>
    obtain ⟨_, _, _, rfl⟩ := step_readTerminal hstep
    exact absurd hexited hstill
  | readCB bev stack input now =>
    obtain ⟨_, _, _, ⟨_, rfl⟩ | ⟨_, rfl⟩ | ⟨hid, _⟩ | ⟨_, rfl⟩⟩ := step_readCB hstep
    · exact absurd hexited hstill
    · exact absurd hexited hstill
    · exact ⟨bev, stack, input, now, rfl, hid⟩
    · exact absurd hexited hstill
  | errorCB bev event now =>
    obtain ⟨_, _, _, rfl⟩ := step_errorCB hstep
    have hreport : (s.errorCB (Report.ofFlags event)).status = s.status := by
      cases Report.ofFlags event <;> rfl
    exact absurd (hreport.symm.trans hexited) hstill
  | heartTimeoutCB timer cur outcome later =>
    obtain ⟨_, rfl⟩ := step_heartTimeoutCB hstep
    obtain ⟨_, hgoes⟩ | ⟨_, _, hgoes⟩ | ⟨_, _, _, hgoes⟩ :=
      s.heartTimeoutCB_cases host cur outcome later
    · rw [hgoes] at hexited
      exact absurd (hbeat s hexited) hstill
    · rw [hgoes] at hexited
      exact absurd (connectToSerd_exited s true cur outcome hexited) hstill
    · rw [hgoes] at hexited
      have hmade := hlogin _ (hbeat _ hexited)
      exact absurd (connectToSerd_exited s true cur outcome hmade) hstill

end NodeManager.Client
