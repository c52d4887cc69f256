import Mathlib.Algebra.BigOperators.Group.Finset.Basic
import Mathlib.Algebra.Order.BigOperators.Group.Finset
import NodeManager.HeartTimer
import NodeManager.Session

/-!
# What clients and server can rely on

In every run of the clients and the server, whatever the other peers send, a
client gets the answers to its requests once each and in their order. It exits
only after the HTTP server has called `DelNode` for an ip that was mapped to one
of its connections, and it has no more heartbeat timers than it has sent logins.
-/

namespace NodeManager.Session

open ByteMemory TransitionSystem

variable (clientHost : Node → ByteOrder) (host : ByteOrder) (parse : Parser)

namespace State

variable (s : State)

/-- The frames of the server that the other end of a bufferevent has read. -/
def received (bev : Bev) : List (List UInt8) := (s.server.written bev).take (s.got bev)

/-- The frames of the server that the other end has yet to read. -/
def inFlight (bev : Bev) : List (List UInt8) := (s.server.written bev).drop (s.got bev)

/-- The frames of the server that a node has read from a bufferevent. -/
def readBy (node : Node) (bev : Bev) : List (List UInt8) :=
  if (s.peer bev).any (·.node = node) then s.received bev else []

end State

/-- No two bufferevents of the server are for one connection. -/
structure Paired (s : State) : Prop where
  bound : s.server.fault = none → ∀ {bev other}, s.peer bev = some other →
    bev < s.server.bevs.length
  distinct : ∀ {bev bev' other}, s.peer bev = some other → s.peer bev' = some other → bev = bev'

/-- `DelNode` was called for an ip that was mapped to the bufferevent. -/
def Commanded (events : List Event) (bev : Bev) : Prop :=
  ∃ before strIp stack after t, events = before ++ .server (.delNode strIp stack) :: after ∧
    (system clientHost host parse).run before = some t ∧ HttpReq.MappedTo t.server strIp bev

/-- A node has read a close frame. -/
def ReadsClose (s : State) (node : Node) : Prop :=
  ∃ bev, ∃ frame ∈ s.readBy node bev, Server.isCloseFrame frame = true

/-- A response to a login. -/
def isLoginReply (frame : List UInt8) : Bool := Server.idOf frame = MsgID.respNodeLogin.code

/-- A login. -/
def isLoginRequest (frame : List UInt8) : Bool := Server.idOf frame = MsgID.reqNodeLogin.code

/-- The responses to logins that a node has read. -/
def State.loginReplies (s : State) (node : Node) : ℕ :=
  ∑ bev ∈ Finset.range s.server.bevs.length, (s.readBy node bev).countP isLoginReply

/-- The logins that a client has sent on its connections. -/
def loginsSent (c : Client.State) : ℕ :=
  ∑ conn ∈ Finset.range c.sockets, (c.framesOn conn).countP isLoginRequest

/-- What holds after a run of the clients and the server. -/
structure After (events : List Event) (s : State) : Prop where
  run : (system clientHost host parse).run events = some s
  inv : Inv clientHost host s
  paired : Paired s
  exits : ∀ node, (s.client node).status = .exited → ReadsClose s node
  commanded : ∀ bev, s.server.closeFrames bev ≠ [] → Commanded clientHost host parse events bev
  timers : ∀ node, (s.client node).timers ≤ s.loginReplies node

section Steps

variable {clientHost host parse} {s s' : State}

/-- A bufferevent that `HandlerConnect` makes is the next one. -/
theorem bevs_handlerConnect {s t : Server.State} {worker : Worker}
    (hstep : Server.step host parse s (.handlerConnect worker true) = some t)
    (hok : t.fault = none) : ∃ v, t.bevs = s.bevs ++ [v] ∧ t.pending = s.pending := by
  obtain ⟨pConnect, rest, _, _, rfl⟩ := Server.step_handlerConnect hstep
  set popped : Server.State :=
    { s with listConnect := Function.update s.listConnect worker rest } with hpopped
  cases ha : popped.heap pConnect with
  | none =>
    rw [Server.State.handlerConnect_dead ha] at hok
    cases hok
  | some x =>
    rw [Server.State.handlerConnect_created ha]
    exact ⟨_, rfl, rfl⟩

theorem Paired.step {e : Event} (h : Paired s)
    (hstep : Session.step clientHost host parse s e = some s') : Paired s' := by
  have hkept : ∀ {e : Server.Event} {t : Server.State},
      Server.step host parse s.server e = some t → ∀ {bev other}, s.peer bev = some other →
        bev < t.bevs.length := by
    intro e t ht bev other hpeer
    obtain ⟨more, hmore⟩ := Server.bevs_step ht
    have hlt := h.bound (Server.fault_of_step ht) hpeer
    rw [hmore, List.length_append]
    exact hlt.trans_le (Nat.le_add_right _ _)
  cases e with
  | client node e =>
    obtain ⟨_, c, _, rfl⟩ := step_client hstep
    exact ⟨h.bound, h.distinct⟩
  | server e =>
    obtain ⟨_, t, ht, rfl⟩ := step_server hstep
    exact ⟨fun _ => hkept ht, h.distinct⟩
  | connect worker other =>
    obtain ⟨_, hnew, t, ht, rfl⟩ := step_connect hstep
    have hfree : ∀ {bev}, s.peer bev ≠ some other := by
      intro bev hpeer
      refine absurd hnew (Bool.eq_false_iff.not.mpr (not_not.mpr ?_))
      rw [State.connected, List.any_eq_true]
      have hlt := h.bound (Server.fault_of_step ht) hpeer
      exact ⟨bev, List.mem_range.mpr hlt, decide_eq_true hpeer⟩
    have hcases : ∀ {bev other'},
        Function.update s.peer s.server.bevs.length (some other) bev = some other' →
          bev = s.server.bevs.length ∧ other' = other ∨ s.peer bev = some other' := by
      intro bev other' hpeer
      by_cases hsame : bev = s.server.bevs.length
      · rw [hsame, Function.update_self] at hpeer
        exact Or.inl ⟨hsame, (Option.some.inj hpeer).symm⟩
      · rw [Function.update_of_ne hsame] at hpeer
        exact Or.inr hpeer
    refine ⟨?_, ?_⟩
    · intro hok bev other' hpeer
      rcases hcases hpeer with ⟨rfl, _⟩ | hold
      · obtain ⟨v, hbevs, _⟩ := bevs_handlerConnect ht hok
        dsimp only
        rw [hbevs, List.length_append]
        exact Nat.lt_succ_self _
      · exact hkept ht hold
    · intro bev bev' other' hpeer hpeer'
      rcases hcases hpeer with ⟨rfl, rfl⟩ | hold
      · rcases hcases hpeer' with ⟨rfl, _⟩ | hold'
        · rfl
        · exact absurd hold' hfree
      · rcases hcases hpeer' with ⟨rfl, rfl⟩ | hold'
        · exact absurd hold hfree
        · exact h.distinct hold hold'
  | request bev stack =>
    obtain ⟨_, _, t, _, _, ht, rfl⟩ := step_request hstep
    exact ⟨fun _ => hkept ht, h.distinct⟩
  | reply bev stack now =>
    obtain ⟨_, _, c, _, _, _, rfl⟩ := step_reply hstep
    exact ⟨h.bound, h.distinct⟩

/-- What the server writes now has not been read. -/
theorem received_server (h : Inv clientHost host s) {e : Server.Event} {t : Server.State}
    (hstep : Server.step host parse s.server e = some t) (bev : Bev) :
    (t.written bev).take (s.got bev) = s.received bev := by
  obtain ⟨more, hmore, _⟩ := Server.written_step h.server hstep bev
  rw [hmore, List.take_append_of_le_length (h.got bev)]
  rfl

/-- Nothing has been read from a bufferevent that is yet to be made. -/
theorem received_unmade (h : Inv clientHost host s) {bev : Bev}
    (hlater : s.server.bevs.length ≤ bev) : s.received bev = [] := by
  rw [State.received, (h.unread bev hlater).2, List.take_zero]

theorem readBy_unmade (h : Inv clientHost host s) (node : Node) {bev : Bev}
    (hlater : s.server.bevs.length ≤ bev) : s.readBy node bev = [] := by
  rw [State.readBy, received_unmade h hlater, ite_self]

/-- Only a read of a client changes what the nodes have read. -/
theorem readBy_step (h : Inv clientHost host s) {e : Event}
    (hstep : Session.step clientHost host parse s e = some s')
    (hother : ∀ bev stack now, e ≠ .reply bev stack now) : s'.readBy = s.readBy := by
  cases e with
  | client node e =>
    obtain ⟨_, c, _, rfl⟩ := step_client hstep
    rfl
  | server e =>
    obtain ⟨_, t, ht, rfl⟩ := step_server hstep
    funext node bev
    exact if_congr Iff.rfl (received_server h ht bev) rfl
  | connect worker other =>
    obtain ⟨_, _, t, ht, rfl⟩ := step_connect hstep
    funext node bev
    have hreceived := received_server h ht bev
    by_cases hsame : bev = s.server.bevs.length
    · have hnone := received_unmade h hsame.ge
      rw [State.readBy, State.readBy, hnone, ite_self, State.received]
      dsimp only
      rw [hreceived, hnone, ite_self]
    · have hpeer : Function.update s.peer s.server.bevs.length (some other) bev = s.peer bev :=
        Function.update_of_ne hsame ..
      have hnode := congrArg (fun peer => Option.any (·.node = node) peer = true) hpeer
      exact if_congr (iff_of_eq hnode) hreceived rfl
  | request bev stack =>
    obtain ⟨_, _, t, _, _, ht, rfl⟩ := step_request hstep
    funext node bev
    exact if_congr Iff.rfl (received_server h ht bev) rfl
  | reply bev stack now => exact absurd rfl (hother bev stack now)

/-- A read of a client adds the frame to what its node has read. -/
theorem readBy_reply {bev : Bev} {other : End} {frame : List UInt8} {c : Client.State}
    (hpeer : s.peer bev = some other) (hframe : (s.server.written bev)[s.got bev]? = some frame)
    (node : Node) (bev' : Bev) :
    State.readBy { s with
      client := Function.update s.client other.node c
      got := Function.update s.got bev (s.got bev + 1) } node bev' =
        s.readBy node bev' ++ if bev' = bev ∧ other.node = node then [frame] else [] := by
  rw [State.readBy, State.readBy, State.received, State.received]
  dsimp only
  by_cases hsame : bev' = bev
  · subst hsame
    have hmore : (s.server.written bev').take (s.got bev' + 1) =
        (s.server.written bev').take (s.got bev') ++ [frame] := by
      rw [List.take_add_one, hframe]
      rfl
    rw [Function.update_self, hmore, hpeer, Option.any_some]
    by_cases hnode : other.node = node
    · rw [if_pos (decide_eq_true hnode), if_pos (decide_eq_true hnode), if_pos ⟨rfl, hnode⟩]
    · have hnot : ¬decide (other.node = node) = true := by rwa [decide_eq_true_iff]
      rw [if_neg hnot, if_neg hnot, if_neg fun hboth => hnode hboth.2]
      rfl
  · have hnothing : ¬(bev' = bev ∧ other.node = node) := fun hboth => hsame hboth.1
    rw [Function.update_of_ne hsame, if_neg hnothing, List.append_nil]

/-- A client that has exited has read a close frame. -/
theorem readsClose_step (h : Inv clientHost host s) {e : Event}
    (hstep : Session.step clientHost host parse s e = some s') {node : Node}
    (hold : (s.client node).status = .exited → ReadsClose s node)
    (hexited : (s'.client node).status = .exited) : ReadsClose s' node := by
  have hsame : (∀ bev stack now, e ≠ .reply bev stack now) → s'.client node = s.client node →
      ReadsClose s' node := by
    intro hother hclient
    rw [hclient] at hexited
    unfold ReadsClose
    rw [readBy_step h hstep hother]
    exact hold hexited
  cases e with
  | client node' e =>
    obtain ⟨hread, c, hc, rfl⟩ := step_client hstep
    by_cases hnode : node = node'
    · subst hnode
      dsimp only at hexited
      rw [Function.update_self] at hexited
      obtain ⟨_, _, _, _, rfl, _⟩ := Client.exited_of_step hc hexited
      cases hread
    · exact hsame (fun _ _ _ => Event.noConfusion) (Function.update_of_ne hnode ..)
  | server e =>
    obtain ⟨_, t, _, rfl⟩ := step_server hstep
    exact hsame (fun _ _ _ => Event.noConfusion) rfl
  | connect worker other =>
    obtain ⟨_, _, t, _, rfl⟩ := step_connect hstep
    exact hsame (fun _ _ _ => Event.noConfusion) rfl
  | request bev stack =>
    obtain ⟨_, _, t, _, _, _, rfl⟩ := step_request hstep
    exact hsame (fun _ _ _ => Event.noConfusion) rfl
  | reply bev stack now =>
    obtain ⟨other, frame, c, hpeer, hframe, hc, rfl⟩ := step_reply hstep
    by_cases hnode : node = other.node
    · subst hnode
      dsimp only at hexited
      rw [Function.update_self] at hexited
      obtain ⟨_, _, _, _, hevent, hclose⟩ := Client.exited_of_step hc hexited
      cases hevent
      refine ⟨bev, frame, ?_, decide_eq_true hclose.2.2⟩
      rw [readBy_reply hpeer hframe, if_pos ⟨rfl, rfl⟩]
      exact List.mem_append_right _ List.mem_cons_self
    · dsimp only at hexited
      rw [Function.update_of_ne hnode] at hexited
      obtain ⟨bev', frame', hmem, hclose⟩ := hold hexited
      refine ⟨bev', frame', ?_, hclose⟩
      rw [readBy_reply hpeer hframe]
      exact List.mem_append_left _ hmem

/-- A close frame that a node has read was written to one of its connections. -/
theorem ReadsClose.closed {node : Node} (h : ReadsClose s node) :
    ∃ bev conn, s.peer bev = some ⟨node, conn⟩ ∧ s.server.closeFrames bev ≠ [] := by
  obtain ⟨bev, frame, hframe, hclose⟩ := h
  rw [State.readBy] at hframe
  split at hframe
  · next hany =>
    obtain ⟨⟨node', conn⟩, hpeer, hnode⟩ := (Option.any_eq_true _ _).mp hany
    obtain rfl : node' = node := of_decide_eq_true hnode
    exact ⟨bev, conn, hpeer,
      List.ne_nil_of_mem (List.mem_filter.mpr ⟨List.mem_of_mem_take hframe, hclose⟩)⟩
  · cases hframe

theorem Commanded.append {events : List Event} {bev : Bev}
    (h : Commanded clientHost host parse events bev) (e : Event) :
    Commanded clientHost host parse (events ++ [e]) bev := by
  obtain ⟨before, strIp, stack, after, t, rfl, hrun, hmapped⟩ := h
  exact ⟨before, strIp, stack, after ++ [e], t, by rw [List.append_assoc, List.cons_append],
    hrun, hmapped⟩

/-- A close frame is only written on command. -/
theorem commanded_step (h : Inv clientHost host s) {events : List Event} {e : Event}
    (hrun : (system clientHost host parse).run events = some s)
    (hstep : Session.step clientHost host parse s e = some s') {bev : Bev}
    (hold : s.server.closeFrames bev ≠ [] → Commanded clientHost host parse events bev)
    (hclosed : s'.server.closeFrames bev ≠ []) :
    Commanded clientHost host parse (events ++ [e]) bev := by
  by_cases hbefore : s.server.closeFrames bev = []
  · have hnew : ∀ {e : Server.Event}, Server.step host parse s.server e = some s'.server →
        ∃ strIp stack, e = .delNode strIp stack ∧ HttpReq.MappedTo s.server strIp bev :=
      fun hserver => Server.closed_of_step h.server h.repliesOnly hserver hbefore hclosed
    cases e with
    | client node e =>
      obtain ⟨_, c, _, rfl⟩ := step_client hstep
      exact absurd hbefore hclosed
    | server e =>
      obtain ⟨_, t, ht, rfl⟩ := step_server hstep
      obtain ⟨strIp, stack, rfl, hmapped⟩ := hnew ht
      exact ⟨events, strIp, stack, [], s, rfl, hrun, hmapped⟩
    | connect worker other =>
      obtain ⟨_, _, t, ht, rfl⟩ := step_connect hstep
      obtain ⟨_, _, hevent, _⟩ := hnew ht
      cases hevent
    | request bev stack =>
      obtain ⟨_, _, t, _, _, ht, rfl⟩ := step_request hstep
      obtain ⟨_, _, hevent, _⟩ := hnew ht
      cases hevent
    | reply bev stack now =>
      obtain ⟨_, _, c, _, _, _, rfl⟩ := step_reply hstep
      exact absurd hbefore hclosed
  · exact (hold hbefore).append e

/-- A client adds a timer for a response to a login and in no other case. -/
theorem timers_client {node : Node} {e : Client.Event} {c : Client.State}
    (hstep : Client.step (clientHost node) (s.client node) e = some c) :
    c.timers ≤ (s.client node).timers +
      if Client.ReadsLoginResponse (clientHost node) e then 1 else 0 := by
  have htimers := congrArg Prod.fst (Client.timerView_step hstep)
  have hleft : c.timerView.1 = c.timers := rfl
  rw [← hleft, htimers]
  split
  · exact le_rfl
  · exact Nat.le_add_right _ _

/-- The sum over the bufferevents does not change where they become more. -/
theorem loginReplies_congr (h : Inv clientHost host s) (hreads : s'.readBy = s.readBy)
    (hle : s.server.bevs.length ≤ s'.server.bevs.length) (node : Node) :
    s'.loginReplies node = s.loginReplies node := by
  rw [State.loginReplies, State.loginReplies, hreads]
  refine (Finset.sum_subset (Finset.range_mono hle) fun bev _ hnew => ?_).symm
  have hlater : s.server.bevs.length ≤ bev := Nat.le_of_not_lt fun hlt =>
    hnew (Finset.mem_range.mpr hlt)
  rw [readBy_unmade h node hlater]
  rfl

/-- One more frame that a node reads. -/
theorem loginReplies_reply (h : Inv clientHost host s) {bev : Bev} {other : End}
    {frame : List UInt8} {c : Client.State} (hpeer : s.peer bev = some other)
    (hframe : (s.server.written bev)[s.got bev]? = some frame) (node : Node) :
    State.loginReplies { s with
      client := Function.update s.client other.node c
      got := Function.update s.got bev (s.got bev + 1) } node = s.loginReplies node +
        if other.node = node ∧ isLoginReply frame = true then 1 else 0 := by
  have hlt : bev < s.server.bevs.length := by
    refine Nat.lt_of_not_le fun hlater => ?_
    rw [h.unwritten bev hlater] at hframe
    cases hframe
  have hmem := Finset.mem_range.mpr hlt
  rw [State.loginReplies, State.loginReplies, ← Finset.add_sum_erase _ _ hmem,
    ← Finset.add_sum_erase (Finset.range s.server.bevs.length) _ hmem]
  have hrest : ∀ bev' ∈ (Finset.range s.server.bevs.length).erase bev,
      (State.readBy { s with
        client := Function.update s.client other.node c
        got := Function.update s.got bev (s.got bev + 1) } node bev').countP isLoginReply =
          (s.readBy node bev').countP isLoginReply := by
    intro bev' hbev'
    have hnothing : ¬(bev' = bev ∧ other.node = node) := fun hboth =>
      Finset.ne_of_mem_erase hbev' hboth.1
    rw [readBy_reply hpeer hframe, if_neg hnothing, List.append_nil]
  rw [Finset.sum_congr rfl hrest, readBy_reply hpeer hframe, List.countP_append]
  have hone : (if bev = bev ∧ other.node = node then [frame] else []).countP isLoginReply =
      if other.node = node ∧ isLoginReply frame = true then 1 else 0 := by
    by_cases hnode : other.node = node
    · rw [if_pos ⟨rfl, hnode⟩, List.countP_singleton]
      exact if_congr (and_iff_right hnode).symm rfl rfl
    · have hnothing : ¬(bev = bev ∧ other.node = node) := fun hboth => hnode hboth.2
      have hnot : ¬(other.node = node ∧ isLoginReply frame = true) := fun hboth => hnode hboth.1
      rw [if_neg hnothing, if_neg hnot]
      rfl
  rw [hone]
  omega

/-- A client has at most one timer for each response to a login. -/
theorem timers_step (h : Inv clientHost host s) {e : Event}
    (hstep : Session.step clientHost host parse s e = some s') {node : Node}
    (hold : (s.client node).timers ≤ s.loginReplies node) :
    (s'.client node).timers ≤ s'.loginReplies node := by
  have hquiet : (∀ bev stack now, e ≠ .reply bev stack now) →
      s.server.bevs.length ≤ s'.server.bevs.length →
      (s'.client node).timers ≤ (s.client node).timers →
      (s'.client node).timers ≤ s'.loginReplies node := by
    intro hother hle htimers
    rw [loginReplies_congr h (readBy_step h hstep hother) hle]
    exact htimers.trans hold
  have hgrows : ∀ {e : Server.Event} {t : Server.State},
      Server.step host parse s.server e = some t → s.server.bevs.length ≤ t.bevs.length := by
    intro e t ht
    obtain ⟨more, hmore⟩ := Server.bevs_step ht
    rw [hmore, List.length_append]
    exact Nat.le_add_right _ _
  cases e with
  | client node' e =>
    obtain ⟨hread, c, hc, rfl⟩ := step_client hstep
    refine hquiet (fun _ _ _ => Event.noConfusion) le_rfl ?_
    dsimp only
    by_cases hnode : node = node'
    · subst hnode
      have hnone : ¬Client.ReadsLoginResponse (clientHost node) e := by
        intro hreads
        cases e with
        | readCB => cases hread
        | _ => exact hreads
      have htimers := timers_client hc
      rw [if_neg hnone] at htimers
      rw [Function.update_self]
      exact htimers
    · rw [Function.update_of_ne hnode]
  | server e =>
    obtain ⟨_, t, ht, rfl⟩ := step_server hstep
    exact hquiet (fun _ _ _ => Event.noConfusion) (hgrows ht) le_rfl
  | connect worker other =>
    obtain ⟨_, _, t, ht, rfl⟩ := step_connect hstep
    exact hquiet (fun _ _ _ => Event.noConfusion) (hgrows ht) le_rfl
  | request bev stack =>
    obtain ⟨_, _, t, _, _, ht, rfl⟩ := step_request hstep
    exact hquiet (fun _ _ _ => Event.noConfusion) (hgrows ht) le_rfl
  | reply bev stack now =>
    obtain ⟨other, frame, c, hpeer, hframe, hc, rfl⟩ := step_reply hstep
    rw [loginReplies_reply h hpeer hframe]
    dsimp only
    by_cases hnode : node = other.node
    · subst hnode
      have htimers := timers_client hc
      have hreads : Client.ReadsLoginResponse (clientHost other.node)
          (.readCB other.conn stack frame now) → isLoginReply frame = true := fun hid =>
        decide_eq_true hid.2.2
      rw [Function.update_self]
      by_cases hlogin : isLoginReply frame = true
      · rw [if_pos ⟨rfl, hlogin⟩]
        split at htimers
        · omega
        · omega
      · rw [if_neg fun hread => hlogin (hreads hread)] at htimers
        rw [if_neg fun hboth => hlogin hboth.2]
        omega
    · rw [Function.update_of_ne hnode]
      exact hold.trans (Nat.le_add_right _ _)

/-- A login is answered by a response to a login, and nothing else is. -/
theorem isLoginReply_answerTo (request : List UInt8) :
    isLoginReply (answerTo host request) = isLoginRequest request := by
  rw [answerTo, isLoginRequest]
  by_cases hlogin : Server.idOf request = MsgID.reqNodeLogin.code
  · rw [if_pos hlogin, isLoginReply, NodeConnect.loginReply,
      Server.idOf_frameOf _ _ (by decide), decide_eq_true hlogin]
    rfl
  · rw [if_neg hlogin, isLoginReply, NodeConnect.heartBeatReply,
      Server.idOf_frameOf _ _ (by decide), decide_eq_false hlogin]
    rfl

/-- On one connection, the client reads no more responses to logins than it has
sent logins. -/
theorem received_le (h : Inv clientHost host s) {bev : Bev} {other : End}
    (hpeer : s.peer bev = some other) : (s.received bev).countP isLoginReply ≤
      (s.requests other).countP isLoginRequest := by
  have hplain : ∀ frame ∈ s.server.written bev, isLoginReply frame = true →
      (!Server.isCloseFrame frame) = true := by
    intro frame _ hlogin
    have hid := of_decide_eq_true hlogin
    rw [Server.isCloseFrame, hid]
    rfl
  calc (s.received bev).countP isLoginReply
      ≤ (s.server.written bev).countP isLoginReply := (List.take_sublist _ _).countP_le
    _ = ((s.server.written bev).filter fun frame => !Server.isCloseFrame frame).countP
          isLoginReply := by
        rw [List.countP_filter]
        refine List.countP_congr fun frame hframe => ?_
        rw [Bool.and_eq_true]
        exact ⟨fun hlogin => ⟨hlogin, hplain frame hframe hlogin⟩, And.left⟩
    _ ≤ (s.server.sent bev).countP isLoginReply := by
        rw [Server.State.sent, List.countP_append]
        exact Nat.le_add_right _ _
    _ = ((s.requests other).take (s.taken bev)).countP isLoginRequest := by
        rw [h.answered hpeer, List.countP_map]
        exact congrArg (List.countP · _) (funext isLoginReply_answerTo)
    _ ≤ (s.requests other).countP isLoginRequest := (List.take_sublist _ _).countP_le

/-- No two bufferevents take their logins from one connection. -/
theorem loginReplies_le (h : Inv clientHost host s) (hpaired : Paired s) (node : Node) :
    s.loginReplies node ≤ loginsSent (s.client node) := by
  -- the connection of a bufferevent of the node
  let conn : Bev → ℕ := fun bev => ((s.peer bev).map End.conn).getD 0
  let own := (Finset.range s.server.bevs.length).filter fun bev =>
    (s.peer bev).any (·.node = node)
  have hown : ∀ bev ∈ own, s.peer bev = some ⟨node, conn bev⟩ := by
    intro bev hbev
    have hany := (Finset.mem_filter.mp hbev).2
    obtain ⟨⟨node', conn'⟩, hpeer, hnode⟩ := (Option.any_eq_true _ _).mp hany
    obtain rfl : node' = node := of_decide_eq_true hnode
    have hconn : conn bev = conn' := congrArg (fun peer => (Option.map End.conn peer).getD 0) hpeer
    rw [hpeer, hconn]
  have hinj : Set.InjOn conn own := by
    intro bev hbev bev' hbev' hsame
    have hpeer := hown bev hbev
    rw [hsame] at hpeer
    exact hpaired.distinct hpeer (hown bev' hbev')
  have hmade : own.image conn ⊆ Finset.range (s.client node).sockets := by
    intro c hc
    obtain ⟨bev, hbev, rfl⟩ := Finset.mem_image.mp hc
    exact Finset.mem_range.mpr (h.made (hown bev hbev))
  calc s.loginReplies node
      = ∑ bev ∈ own, (s.received bev).countP isLoginReply := by
        rw [State.loginReplies, Finset.sum_filter]
        refine Finset.sum_congr rfl fun bev _ => ?_
        rw [State.readBy]
        split
        · rfl
        · rfl
    _ ≤ ∑ bev ∈ own, ((s.client node).framesOn (conn bev)).countP isLoginRequest :=
        Finset.sum_le_sum fun bev hbev => received_le h (hown bev hbev)
    _ = ∑ c ∈ own.image conn, ((s.client node).framesOn c).countP isLoginRequest := by
        rw [Finset.sum_image hinj]
    _ ≤ loginsSent (s.client node) := Finset.sum_le_sum_of_subset hmade

end Steps

variable {clientHost host parse} {events : List Event} {s : State}

theorem After.step {s' : State} {e : Event} (h : After clientHost host parse events s)
    (hstep : Session.step clientHost host parse s e = some s') :
    After clientHost host parse (events ++ [e]) s' where
  run := (System.run_append h.run [e]).trans (System.runFrom_singleton hstep)
  inv := h.inv.step hstep
  paired := h.paired.step hstep
  exits := fun node => readsClose_step h.inv hstep (h.exits node)
  commanded := fun bev => commanded_step h.inv h.run hstep (h.commanded bev)
  timers := fun node => timers_step h.inv hstep (h.timers node)

theorem after_run (hrun : (system clientHost host parse).run events = some s) :
    After clientHost host parse events s := by
  have hinit : After clientHost host parse [] State.init :=
    { run := rfl
      inv := Inv.init
      paired := ⟨fun _ {_ _} h => (nomatch h), fun h => (nomatch h)⟩
      exits := fun _ h => nomatch h
      commanded := fun _ h => absurd rfl h
      timers := fun _ => Nat.zero_le _ }
  exact System.run_induction (A := fun _ => True) (After clientHost host parse) hinit
    (fun _ _ _ _ _ h hstep => h.step hstep) (fun _ _ => trivial) hrun

/-- A node logs in and is stopped by the ip of its login. -/
def stopOne : List Event := [.client 0 (.connectToSerd 0 .pending), .server (.accept 0 0),
  .connect 0 ⟨0, 0⟩, .client 0 .readTerminal, .request 0 .zeros, .server (.resume 0),
  .server (.resume 0), .server (.resume 0), .server (.resume 0), .reply 0 .zeros 5,
  .server (.delNode ClientConnect.loginMessage.ip .zeros), .reply 0 .zeros 6]

theorem stopOne_runs : ∃ s,
    (system (fun _ => .little) .big ReqNodeLogin.parseFromIstream).run stopOne = some s ∧
      s.peer 0 = some ⟨0, 0⟩ ∧ (s.client 0).status = .exited ∧ (s.client 0).timers = 1 := by
  have hruns : ((system (fun _ => .little) .big ReqNodeLogin.parseFromIstream).run stopOne).any
      (fun s => s.peer 0 = some ⟨0, 0⟩ ∧ (s.client 0).status = .exited ∧
        (s.client 0).timers = 1) = true := by decide +kernel
  obtain ⟨s, hrun, hall⟩ := (Option.any_eq_true _ _).mp hruns
  exact ⟨s, hrun, of_decide_eq_true hall⟩

/-- On each connection of a client, the answers that it has read, that are in
flight and that the server is about to write are those to the requests that the
server has read: one each, of the right kind, in their order. -/
theorem answers_along (hrun : (system clientHost host parse).run events = some s) {bev : Bev}
    {other : End} (hpeer : s.peer bev = some other) :
    s.taken bev ≤ (s.requests other).length ∧
      (s.received bev).filter (fun frame => !Server.isCloseFrame frame) ++
          (s.inFlight bev).filter (fun frame => !Server.isCloseFrame frame) ++
          s.server.pendingFrames bev =
        ((s.requests other).take (s.taken bev)).map (answerTo host) := by
  have hinv := (after_run hrun).inv
  refine ⟨hinv.taken hpeer, ?_⟩
  rw [← hinv.answered hpeer, State.received, State.inFlight, ← List.filter_append,
    List.take_append_drop]
  rfl

theorem answers_along_stopOne : ∃ s,
    (system (fun _ => .little) .big ReqNodeLogin.parseFromIstream).run stopOne = some s ∧
      s.taken 0 ≤ (s.requests ⟨0, 0⟩).length ∧
      (s.received 0).filter (fun frame => !Server.isCloseFrame frame) ++
          (s.inFlight 0).filter (fun frame => !Server.isCloseFrame frame) ++
          s.server.pendingFrames 0 =
        ((s.requests ⟨0, 0⟩).take (s.taken 0)).map (answerTo .big) := by
  obtain ⟨s, hrun, hpeer, _⟩ := stopOne_runs
  exact ⟨s, hrun, answers_along hrun hpeer⟩

/-- A client exits only when `DelNode` was called for an ip that was mapped to one
of the connections of the client. -/
theorem exits_commanded (hrun : (system clientHost host parse).run events = some s) {node : Node}
    (hexited : (s.client node).status = .exited) : ∃ bev conn,
      s.peer bev = some ⟨node, conn⟩ ∧ Commanded clientHost host parse events bev := by
  have h := after_run hrun
  obtain ⟨bev, conn, hpeer, hclosed⟩ := (h.exits node hexited).closed
  exact ⟨bev, conn, hpeer, h.commanded bev hclosed⟩

theorem exits_commanded_stopOne : ∃ (s : State) (bev : Bev) (conn : ℕ),
    s.peer bev = some ⟨0, conn⟩ ∧
      Commanded (fun _ => .little) .big ReqNodeLogin.parseFromIstream stopOne bev := by
  obtain ⟨s, hrun, _, hexited, _⟩ := stopOne_runs
  obtain ⟨bev, conn, hpeer, hcommanded⟩ := exits_commanded hrun hexited
  exact ⟨s, bev, conn, hpeer, hcommanded⟩

/-- A client has no more heartbeat timers than it has sent logins. -/
theorem timers_le_logins (hrun : (system clientHost host parse).run events = some s)
    (node : Node) : (s.client node).timers ≤ loginsSent (s.client node) := by
  have h := after_run hrun
  exact (h.timers node).trans (loginReplies_le h.inv h.paired node)

theorem timers_le_logins_stopOne : ∃ s,
    (system (fun _ => .little) .big ReqNodeLogin.parseFromIstream).run stopOne = some s ∧
      (s.client 0).timers = 1 ∧ 1 ≤ loginsSent (s.client 0) := by
  obtain ⟨s, hrun, _, _, htimers⟩ := stopOne_runs
  exact ⟨s, hrun, htimers, htimers ▸ timers_le_logins hrun 0⟩

end NodeManager.Session
