import Mathlib.Data.Option.Basic
import Mathlib.Logic.Function.Basic
import NodeManager.ClientConnect
import NodeManager.Library.TransitionSystem

/-!
# The client as a transition system

One `ClientConnect` object serves the callbacks of every bufferevent that
`ConnectToSerd` ever made: none of them is freed, so a bufferevent that
`m_pBev` no longer names goes on reporting and delivering frames to the same
object. All callbacks run on one event loop, one after the other. Every
reading of the clock is part of the event that takes it, so the clock may
jump in either direction.
-/

namespace NodeManager.Client

open ByteMemory TransitionSystem

/-- `HEART_BEAT_TIME_PASS_INTERVAL`, converted to the type it is compared at. -/
def heartBeatTimePassInterval : UInt32 := 15

/-- `Utils::GetCurTimeStamp` when `time` returns the given value. -/
def getCurTimeStamp (t : ℤ) : UInt32 := UInt32.ofInt t

/-- What `ErrorCB` makes of the flags of an event. -/
inductive Report
  | eof
  | error
  | connected
  | other
  deriving DecidableEq

/-- The flags in the order in which `ErrorCB` tests them. -/
def Report.ofFlags (event : UInt16) : Report :=
  if event &&& bevEventEof ≠ 0 then .eof
  else if event &&& bevEventError ≠ 0 then .error
  else if event &&& bevEventConnected ≠ 0 then .connected
  else .other

/-- How a call of `ConnectToSerd` goes. -/
inductive Outcome
  /-- `bufferevent_socket_new` returns null; connecting that is a crash. -/
  | noBufferevent
  /-- `bufferevent_socket_connect` returns -1. -/
  | failed
  /-- `bufferevent_socket_connect` returns 0; its result is reported later. -/
  | pending
  deriving DecidableEq

/-- A bufferevent made by `ConnectToSerd`, with what happened on it so far. -/
structure Conn where
  /-- The socket it owns. -/
  fd : ℕ
  /-- Whether `bufferevent_setcb` was called. -/
  callbacks : Bool
  /-- Whether `bufferevent_free` was called, which no client function does. -/
  freed : Bool := false
  /-- The frames written to it. -/
  written : List (List UInt8) := []
  /-- History: `HeartTimeoutCB` made it. -/
  byTimer : Bool
  /-- History: `m_bConnected` at the time it was made. -/
  flagWhenMade : Bool
  /-- History: a login was typed at the terminal while `m_pBev` named it. -/
  loginTyped : Bool := false
  /-- History: it has connected and has not since reported EOF or ERROR. -/
  connected : Bool := false
  /-- History: it has reported CONNECTED. -/
  established : Bool := false
  /-- History: it has reported EOF or ERROR. -/
  failed : Bool := false
  /-- History: the time of its first CONNECTED report. -/
  since : ℤ := 0
  /-- History: a response was read from it. -/
  answered : Bool := false
  /-- History: when it was replaced it had been established without any
  response for more than 15 seconds. -/
  silentWhenReplaced : Bool := false
  deriving DecidableEq

namespace Conn

/-- A bufferevent on which nothing has happened. -/
def made (fd : ℕ) (callbacks byTimer flagWhenMade : Bool) : Conn :=
  { fd, callbacks, byTimer, flagWhenMade }

/-- `bufferevent_write` on the connection. -/
def write (bytes : List UInt8) (c : Conn) : Conn := { c with written := c.written ++ [bytes] }

/-- History of a report. -/
def note (report : Report) (now : ℤ) (c : Conn) : Conn :=
  match report with
  | .eof => { c with connected := false, failed := true }
  | .error => { c with connected := false, failed := true }
  | .connected =>
    { c with
      connected := true
      established := true
      since := if c.established then c.since else now }
  | .other => c

/-- History of a response. -/
def noteResponse (c : Conn) : Conn := { c with answered := true }

/-- History of a login typed at the terminal. -/
def noteTyped (c : Conn) : Conn := { c with loginTyped := true }

/-- The connection has been established for over 15 seconds without any response. -/
def silent (now : ℤ) (c : Conn) : Bool :=
  c.established && !c.answered && decide (15 < now - c.since)

/-- History of the replacement in `m_pBev`. -/
def noteReplaced (now : ℤ) (c : Conn) : Conn := { c with silentWhenReplaced := c.silent now }

end Conn

/-- Whether the process still runs its event loop. -/
inductive Status
  | running
  | exited
  | crashed
  deriving DecidableEq

/-- The `ClientConnect` object with the bufferevents and timers of the process. -/
structure State where
  /-- `m_timeLastHeart`. -/
  timeLastHeart : UInt32
  /-- `m_sockFd`, once it is assigned. -/
  sockFd : Option ℕ
  /-- `m_pBev`, unless it is null or not yet assigned. -/
  pBev : Option ℕ
  /-- `m_pevTimer`, once it is assigned. -/
  pevTimer : Option ℕ
  /-- `m_bConnected`. -/
  bConnected : Bool
  /-- The sockets made so far, numbered in the order of their creation. -/
  sockets : ℕ
  /-- The bufferevents made so far; each has the number of its socket. -/
  conn : ℕ → Option Conn
  /-- The pending timer events; they are persistent and never deleted. -/
  timers : ℕ
  /-- Whether the event of the terminal, which is not persistent, is pending. -/
  terminal : Bool
  /-- Whether the process still runs. -/
  status : Status

/-- The client before `main` calls `ConnectToSerd`. -/
def State.init : State where
  timeLastHeart := 0
  sockFd := none
  pBev := none
  pevTimer := none
  bConnected := false
  sockets := 0
  conn := fun _ => none
  timers := 0
  terminal := true
  status := .running

namespace State

variable (s : State)

/-- Change one bufferevent, if there is one of that number. -/
def onConn (bev : ℕ) (f : Conn → Conn) : State :=
  { s with conn := Function.update s.conn bev ((s.conn bev).map f) }

/-- The bufferevent that `m_pBev` names. -/
def current : Option Conn := s.pBev.bind s.conn

/-- `UpdateHeartTime` when `time` returns the given value. -/
def updateHeartTime (now : ℤ) : State := { s with timeLastHeart := getCurTimeStamp now }

/-- `SetConnectState`. -/
def setConnectState (bConnect : Bool) : State := { s with bConnected := bConnect }

/-- History: the bufferevent in `m_pBev` is about to be replaced. -/
def noteReplaced (now : ℤ) : State :=
  match s.pBev with
  | none => s
  | some bev => s.onConn bev (Conn.noteReplaced now)

/-- A new bufferevent in `m_pBev` over the socket in `m_sockFd`. -/
def storeBev (fd : ℕ) (byTimer callbacks : Bool) : State :=
  { s with
    pBev := some fd
    conn := Function.update s.conn fd
      (some (Conn.made fd callbacks byTimer s.bConnected)) }

/-- `ConnectToSerd` and its result. The clock is read for the history only. -/
def connectToSerd (byTimer : Bool) (now : ℤ) (outcome : Outcome) : State × Bool :=
  let made := { s.noteReplaced now with sockFd := some s.sockets, sockets := s.sockets + 1 }
  match outcome with
  | .noBufferevent => ({ made with pBev := none, status := .crashed }, false)
  | .failed => (made.storeBev s.sockets byTimer false, false)
  | .pending => (made.storeBev s.sockets byTimer true, true)

/-- `bufferevent_write(m_pBev, buffer, sizeof(buffer))`. -/
def buffereventWrite (buffer : List UInt8) : State :=
  match s.pBev with
  | none => { s with status := .crashed }
  | some bev => s.onConn bev (Conn.write buffer)

variable (host : ByteOrder)

/-- Write a request, unless building it goes wrong. -/
def request (buffer : Except Fault (List UInt8)) : State :=
  match buffer with
  | .error _ => { s with status := .crashed }
  | .ok bytes => s.buffereventWrite bytes

/-- `ReqLogin`. -/
def reqLogin : State := s.request (ClientConnect.reqLogin host)

/-- `ReqHeatBeat`. -/
def reqHeatBeat : State := s.request (ClientConnect.reqHeatBeat host)

/-- The test that `HeartTimeoutCB` makes on the clock. -/
def expired (cur : ℤ) : Prop :=
  heartBeatTimePassInterval < getCurTimeStamp cur - s.timeLastHeart

instance (cur : ℤ) : Decidable (s.expired cur) :=
  inferInstanceAs (Decidable (_ < _))

/-- `HeartTimeoutCB`, which reads the clock once more after a reconnect. -/
def heartTimeoutCB (cur : ℤ) (outcome : Outcome) (later : ℤ) : State :=
  if s.expired cur then
    let (made, result) := s.connectToSerd true cur outcome
    -- `IsConnected` is asked about a bufferevent that cannot have reported yet
    if result && made.bConnected then
      ((made.updateHeartTime later).reqLogin host).reqHeatBeat host
    else made
  else s.reqHeatBeat host

/-- One effect of `ReadCB`. -/
def perform (now : ℤ) : ClientConnect.Action → State
  | .decode _ _ => s
  | .updateHeartTime => s.updateHeartTime now
  | .startTimer => { s with timers := s.timers + 1, pevTimer := some s.timers }
  | .exit => { s with status := .exited }

/-- `ErrorCB`. -/
def errorCB : Report → State
  | .eof => s.setConnectState false
  | .error => s.setConnectState false
  | .connected => s.setConnectState true
  | .other => s

end State

/-- What can happen to the client. -/
inductive Event
  /-- A call of `ConnectToSerd` other than by the timer, such as by `main`. -/
  | connectToSerd (now : ℤ) (outcome : Outcome)
  /-- `ReadTerminal`. -/
  | readTerminal
  /-- `ReadCB` on the contents of the input buffer. -/
  | readCB (bev : ℕ) (stack : Stack) (input : List UInt8) (now : ℤ)
  /-- `ErrorCB`. -/
  | errorCB (bev : ℕ) (event : UInt16) (now : ℤ)
  /-- `HeartTimeoutCB` with its first and second reading of the clock. -/
  | heartTimeoutCB (timer : ℕ) (cur : ℤ) (outcome : Outcome) (later : ℤ)

variable (host : ByteOrder)

/-- The effect of an event that can happen. A bufferevent calls back once it
has its callbacks, whether or not `m_pBev` still names it. -/
def step (s : State) (e : Event) : Option State :=
  if s.status ≠ .running then none
  else match e with
  | .connectToSerd now outcome => some (s.connectToSerd false now outcome).1
  | .readTerminal =>
    match s.pBev with
    | none => none
    | some bev =>
      if s.terminal then
        some (({ s with terminal := false }.onConn bev Conn.noteTyped).reqLogin host)
      else none
  | .readCB bev stack input now =>
    match s.conn bev with
    | none => none
    | some c =>
      if c.callbacks = false ∨ c.freed then none
      else match ClientConnect.readCB host stack input with
      | .error _ => some { s with status := .crashed }
      | .ok actions =>
        let performed := actions.foldl (fun t a => t.perform now a) s
        if .updateHeartTime ∈ actions then some (performed.onConn bev Conn.noteResponse)
        else some performed
  | .errorCB bev event now =>
    match s.conn bev with
    | none => none
    | some c =>
      if c.callbacks = false ∨ c.freed then none
      else
        let report := Report.ofFlags event
        some ((s.errorCB report).onConn bev (Conn.note report now))
  | .heartTimeoutCB timer cur outcome later =>
    if timer < s.timers then some (s.heartTimeoutCB host cur outcome later) else none

/-- The client from its start. -/
def system : System State Event := ⟨State.init, step host⟩

namespace State

variable {s : State} {bev : ℕ}

theorem onConn_self (s : State) (bev : ℕ) (f : Conn → Conn) :
    (s.onConn bev f).conn bev = (s.conn bev).map f :=
  Function.update_self bev _ s.conn

theorem onConn_ne (s : State) {bev other : ℕ} (h : other ≠ bev) (f : Conn → Conn) :
    (s.onConn bev f).conn other = s.conn other :=
  Function.update_of_ne h _ s.conn

theorem of_onConn {f : Conn → Conn} {other : ℕ} {c : Conn}
    (h : (s.onConn bev f).conn other = some c) :
    (other = bev ∧ ∃ c', s.conn other = some c' ∧ f c' = c) ∨
      (other ≠ bev ∧ s.conn other = some c) := by
  by_cases hsame : other = bev
  · rw [hsame, onConn_self, Option.map_eq_some_iff] at h
    exact Or.inl ⟨hsame, hsame ▸ h⟩
  · rw [onConn_ne s hsame] at h
    exact Or.inr ⟨hsame, h⟩

theorem onConn_onConn (s : State) (bev : ℕ) (f g : Conn → Conn) :
    (s.onConn bev f).onConn bev g = s.onConn bev fun c => g (f c) := by
  have hself := onConn_self s bev f
  have hconn : ((s.onConn bev f).onConn bev g).conn = (s.onConn bev fun c => g (f c)).conn := by
    rw [onConn, hself, Option.map_map]
    exact Function.update_idem ..
  exact congrArg (fun conn => { s with conn }) hconn

theorem buffereventWrite_of (h : s.pBev = some bev) (buffer : List UInt8) :
    s.buffereventWrite buffer = s.onConn bev (Conn.write buffer) := by
  rw [buffereventWrite, h]

theorem buffereventWrite_null (h : s.pBev = none) (buffer : List UInt8) :
    s.buffereventWrite buffer = { s with status := .crashed } := by
  rw [buffereventWrite, h]

theorem reqLogin_of (host : ByteOrder) (h : s.pBev = some bev) :
    s.reqLogin host = s.onConn bev (Conn.write (ClientConnect.loginFrame host)) := by
  rw [reqLogin, ClientConnect.reqLogin_eq]
  exact buffereventWrite_of h _

theorem reqHeatBeat_of (host : ByteOrder) (h : s.pBev = some bev) :
    s.reqHeatBeat host = s.onConn bev (Conn.write (ClientConnect.heatBeatFrame host)) := by
  rw [reqHeatBeat, ClientConnect.reqHeatBeat_eq]
  exact buffereventWrite_of h _

theorem reqHeatBeat_null (host : ByteOrder) (h : s.pBev = none) :
    s.reqHeatBeat host = { s with status := .crashed } := by
  rw [reqHeatBeat, ClientConnect.reqHeatBeat_eq]
  exact buffereventWrite_null h _

/-- A connection other than the replaced one is not touched. -/
theorem noteReplaced_conn (s : State) (now : ℤ) (bev : ℕ) : (s.noteReplaced now).conn bev =
    if s.pBev = some bev then (s.conn bev).map (Conn.noteReplaced now) else s.conn bev := by
  unfold noteReplaced
  cases hbev : s.pBev with
  | none => rw [if_neg (Option.some_ne_none bev).symm]
  | some current =>
    by_cases hsame : current = bev
    · rw [if_pos (congrArg some hsame), hsame]
      exact onConn_self s bev _
    · rw [if_neg fun h => hsame (Option.some.inj h)]
      exact onConn_ne s (Ne.symm hsame) _

theorem noteReplaced_bConnected (s : State) (now : ℤ) :
    (s.noteReplaced now).bConnected = s.bConnected := by
  unfold noteReplaced
  cases s.pBev <;> rfl

/-- `ErrorCB` itself touches no connection. -/
theorem errorCB_frame (s : State) (report : Report) : (s.errorCB report).conn = s.conn ∧
    (s.errorCB report).pBev = s.pBev ∧ (s.errorCB report).sockets = s.sockets := by
  cases report <;> exact ⟨rfl, rfl, rfl⟩

/-- The three ways in which a timer tick goes. -/
theorem heartTimeoutCB_cases (s : State) (host : ByteOrder) (cur : ℤ) (outcome : Outcome)
    (later : ℤ) :
    ¬s.expired cur ∧ s.heartTimeoutCB host cur outcome later = s.reqHeatBeat host ∨
      s.expired cur ∧ (outcome = .pending → s.bConnected = false) ∧
        s.heartTimeoutCB host cur outcome later = (s.connectToSerd true cur outcome).1 ∨
      s.expired cur ∧ outcome = .pending ∧ s.bConnected = true ∧
        s.heartTimeoutCB host cur outcome later =
          (((s.connectToSerd true cur outcome).1.updateHeartTime later).reqLogin host).reqHeatBeat
            host := by
  have hflag : (s.connectToSerd true cur outcome).1.bConnected = s.bConnected := by
    have hreplaced := s.noteReplaced_bConnected cur
    cases outcome <;> exact hreplaced
  by_cases hexpired : s.expired cur
  · right
    rw [heartTimeoutCB, if_pos hexpired]
    dsimp only
    rw [hflag]
    by_cases hlogin : ((s.connectToSerd true cur outcome).2 && s.bConnected) = true
    · obtain ⟨hresult, hconnected⟩ := (Bool.and_eq_true _ _).mp hlogin
      have hpending : outcome = .pending := by
        cases outcome with
        | noBufferevent => cases hresult
        | failed => cases hresult
        | pending => rfl
      exact Or.inr ⟨hexpired, hpending, hconnected, if_pos hlogin⟩
    · refine Or.inl ⟨hexpired, fun hpending => ?_, if_neg hlogin⟩
      rw [hpending] at hlogin
      exact Bool.eq_false_iff.mpr hlogin
  · exact Or.inl ⟨hexpired, if_neg hexpired⟩

/-- Where neither a write nor the clock shows, a tick looks like the call of
`ConnectToSerd` that it makes, if it makes one. -/
theorem heartTimeoutCB_view {α : Type*} {view : State → α}
    (hwrite : ∀ t buffer, view (buffereventWrite t buffer) = view t)
    (htime : ∀ t now, view (updateHeartTime t now) = view t) (s : State) (host : ByteOrder)
    (cur : ℤ) (outcome : Outcome) (later : ℤ) :
    view (s.heartTimeoutCB host cur outcome later) =
      if s.expired cur then view (s.connectToSerd true cur outcome).1 else view s := by
  have hlogin : ∀ t : State, view (t.reqLogin host) = view t := by
    intro t
    rw [reqLogin, ClientConnect.reqLogin_eq]
    exact hwrite t _
  have hheart : ∀ t : State, view (t.reqHeatBeat host) = view t := by
    intro t
    rw [reqHeatBeat, ClientConnect.reqHeatBeat_eq]
    exact hwrite t _
  obtain ⟨hexpired, hgoes⟩ | ⟨hexpired, _, hgoes⟩ | ⟨hexpired, _, _, hgoes⟩ :=
    s.heartTimeoutCB_cases host cur outcome later
  · rw [hgoes, if_neg hexpired, hheart]
  · rw [hgoes, if_pos hexpired]
  · rw [hgoes, if_pos hexpired, hheart, hlogin, htime]

end State

section Steps

variable {host} {s s' : State}

theorem running_of_step {e : Event} (h : step host s e = some s') : s.status = .running := by
  by_contra hstatus
  unfold step at h
  rw [if_pos hstatus] at h
  cases h

theorem step_connectToSerd {now : ℤ} {outcome : Outcome}
    (h : step host s (.connectToSerd now outcome) = some s') :
    s' = (s.connectToSerd false now outcome).1 := by
  have hrunning := running_of_step h
  rw [step, if_neg (not_not.mpr hrunning)] at h
  exact (Option.some.inj h).symm

theorem step_readTerminal (h : step host s .readTerminal = some s') :
    ∃ bev, s.pBev = some bev ∧ s.terminal = true ∧
      s' = ({ s with terminal := false }.onConn bev Conn.noteTyped).onConn bev
        (Conn.write (ClientConnect.loginFrame host)) := by
  have hrunning := running_of_step h
  rw [step, if_neg (not_not.mpr hrunning)] at h
  split at h
  · cases h
  · next bev hbev =>
    split at h
    · next hterminal =>
      have hstored : ({ s with terminal := false }.onConn bev Conn.noteTyped).pBev = some bev :=
        hbev
      exact ⟨bev, hbev, hterminal, (Option.some.inj h).symm.trans (State.reqLogin_of host hstored)⟩
    · cases h

/-- What a read does depends on the message only as far as it is one of the
three that the client acts on. -/
theorem step_readCB {bev : ℕ} {stack : Stack} {input : List UInt8} {now : ℤ}
    (h : step host s (.readCB bev stack input now) = some s') :
    ∃ c, s.conn bev = some c ∧ c.callbacks = true ∧
      (ClientConnect.Receives host input .respNodeLogin ∧
          s' = { s.updateHeartTime now with
            timers := s.timers + 1
            pevTimer := some s.timers }.onConn bev Conn.noteResponse ∨
        ClientConnect.Receives host input .respHeartBeat ∧
          s' = (s.updateHeartTime now).onConn bev Conn.noteResponse ∨
        ClientConnect.Receives host input .reqCloseNode ∧ s' = { s with status := .exited } ∨
        (∀ id ∈ [.respNodeLogin, .respHeartBeat, .reqCloseNode],
          ¬ClientConnect.Receives host input id) ∧ s' = s) := by
  have hrunning := running_of_step h
  rw [step, if_neg (not_not.mpr hrunning)] at h
  split at h
  · cases h
  · next c hc =>
    split at h
    · cases h
    · next hopen =>
      refine ⟨c, hc, Bool.eq_true_of_not_eq_false (not_or.mp hopen).1, ?_⟩
      have hresponse : ∀ a rest, ClientConnect.Action.updateHeartTime ∈
          (a :: .updateHeartTime :: rest : List ClientConnect.Action) := fun a rest =>
        List.mem_cons_of_mem a List.mem_cons_self
      obtain ⟨msgId, body, ⟨hid, hread⟩ | ⟨hid, hread⟩ | ⟨hid, hread⟩ | ⟨hid, hread⟩⟩ :=
        ClientConnect.readCB_cases host stack input
      · rw [hread] at h
        dsimp only at h
        rw [if_pos (hresponse _ _)] at h
        exact Or.inl ⟨hid, (Option.some.inj h).symm⟩
      · rw [hread] at h
        dsimp only at h
        rw [if_pos (hresponse _ _)] at h
        exact Or.inr (Or.inl ⟨hid, (Option.some.inj h).symm⟩)
      · rw [hread] at h
        dsimp only at h
        rw [if_neg (by simp)] at h
        exact Or.inr (Or.inr (Or.inl ⟨hid, (Option.some.inj h).symm⟩))
      · rcases hread with hread | hread
        · rw [hread] at h
          exact Or.inr (Or.inr (Or.inr ⟨hid, (Option.some.inj h).symm⟩))
        · rw [hread] at h
          dsimp only at h
          rw [if_neg (by simp)] at h
          exact Or.inr (Or.inr (Or.inr ⟨hid, (Option.some.inj h).symm⟩))

theorem step_errorCB {bev : ℕ} {event : UInt16} {now : ℤ}
    (h : step host s (.errorCB bev event now) = some s') :
    ∃ c, s.conn bev = some c ∧ c.callbacks = true ∧
      s' = (s.errorCB (Report.ofFlags event)).onConn bev
        (Conn.note (Report.ofFlags event) now) := by
  have hrunning := running_of_step h
  rw [step, if_neg (not_not.mpr hrunning)] at h
  split at h
  · cases h
  · next c hc =>
    split at h
    · cases h
    · next hopen =>
      exact ⟨c, hc, Bool.eq_true_of_not_eq_false (not_or.mp hopen).1, (Option.some.inj h).symm⟩

theorem step_heartTimeoutCB {timer : ℕ} {cur later : ℤ} {outcome : Outcome}
    (h : step host s (.heartTimeoutCB timer cur outcome later) = some s') :
    timer < s.timers ∧ s' = s.heartTimeoutCB host cur outcome later := by
  have hrunning := running_of_step h
  rw [step, if_neg (not_not.mpr hrunning)] at h
  split at h
  · next htimer => exact ⟨htimer, (Option.some.inj h).symm⟩
  · cases h

end Steps

end NodeManager.Client
