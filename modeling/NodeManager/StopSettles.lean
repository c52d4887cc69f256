import NodeManager.SessionRuns

/-!
# A node that is stopped exits

A node exits exactly when it reads a close frame. Once the HTTP server has called
`DelNode` for an ip that is mapped to a connection of a node, the node has
exited or the close frame is on its way, behind answers that the node has yet to
read. The reads of the node alone then come to an end, and the node exits.
-/

namespace NodeManager

open ByteMemory TransitionSystem

/-- Whatever the stack holds, the close frame of the server asks a client of
either byte order to close. -/
theorem NodeConnect.receives_closeFrame {host : ByteOrder} {stack : Stack} {frame : List UInt8}
    (h : closeFrame host stack = .ok frame) (client : ByteOrder) :
    ClientConnect.Receives client frame .reqCloseNode := by
  rw [closeFrame_eq] at h
  obtain rfl := Except.ok.inj h
  set head : StructProtocolHead :=
    { sendHead stack with usMsgId := MsgID.reqCloseNode.code } with hhead
  have hsize : (frameOf host head []).length = frameSize := frameOf_length (by decide)
  obtain ⟨htype, _, hid⟩ := headAt_frameOf_fields host client head []
  refine ⟨fun hempty => ?_, ?_⟩
  · rw [hempty] at hsize
    cases hsize
  · rw [databuff_frame hsize]
    exact ⟨htype, hid⟩

namespace Client

variable {host : ByteOrder} {s s' : State} {bev : ℕ} {stack : Stack} {input : List UInt8} {now : ℤ}

/-- The bufferevent exists and calls back. -/
def State.Listens (s : State) (bev : ℕ) : Prop :=
  ∃ c, s.conn bev = some c ∧ c.callbacks = true ∧ c.freed = false

/-- A read of a close frame ends the process, and every other read leaves it
running. -/
theorem status_of_readCB (hstep : step host s (.readCB bev stack input now) = some s') :
    s'.status = if ClientConnect.Receives host input .reqCloseNode then .exited else .running := by
  have hrunning := running_of_step hstep
  have hother : ∀ {id : MsgID}, id.code ≠ MsgID.reqCloseNode.code →
      ClientConnect.Receives host input id → ¬ClientConnect.Receives host input .reqCloseNode :=
    fun hne hid hclose => hne (hid.2.2.symm.trans hclose.2.2)
  obtain ⟨_, _, _, ⟨hid, rfl⟩ | ⟨hid, rfl⟩ | ⟨hid, rfl⟩ | ⟨hid, rfl⟩⟩ := step_readCB hstep
  · rw [if_neg (hother (by decide) hid)]
    exact hrunning
  · rw [if_neg (hother (by decide) hid)]
    exact hrunning
  · rw [if_pos hid]
  · rw [if_neg (hid .reqCloseNode (by simp))]
    exact hrunning

/-- A read leaves the callbacks where they are. -/
theorem listens_of_readCB (hstep : step host s (.readCB bev stack input now) = some s')
    (hlistens : s.Listens bev) : s'.Listens bev := by
  obtain ⟨c, hc, hopen⟩ := hlistens
  have hnoted : ∀ t : State, t.conn = s.conn →
      (t.onConn bev Conn.noteResponse).Listens bev := by
    intro t hconn
    refine ⟨c.noteResponse, ?_, hopen⟩
    rw [State.onConn_self, hconn, hc]
    rfl
  obtain ⟨_, _, _, ⟨_, rfl⟩ | ⟨_, rfl⟩ | ⟨_, rfl⟩ | ⟨_, rfl⟩⟩ := step_readCB hstep
  · exact hnoted _ rfl
  · exact hnoted _ rfl
  · exact ⟨c, hc, hopen⟩
  · exact ⟨c, hc, hopen⟩

/-- A client that runs can read from a bufferevent that calls back. -/
theorem readCB_enabled (hrunning : s.status = .running) (hlistens : s.Listens bev)
    (stack : Stack) (input : List UInt8) (now : ℤ) :
    ∃ s', step host s (.readCB bev stack input now) = some s' := by
  obtain ⟨c, hc, hcallbacks, hfreed⟩ := hlistens
  have hopen : ¬(c.callbacks = false ∨ c.freed = true) := by
    rw [hcallbacks, hfreed]
    decide
  obtain ⟨actions, hread⟩ : ∃ actions, ClientConnect.readCB host stack input = .ok actions :=
    ⟨_, ClientConnect.readCB_eq host stack input⟩
  rw [step, if_neg (not_not.mpr hrunning), hc]
  dsimp only
  rw [if_neg hopen, hread]
  dsimp only
  split
  · exact ⟨_, rfl⟩
  · exact ⟨_, rfl⟩

end Client

namespace Session

variable {clientHost : Node → ByteOrder} {host : ByteOrder} {parse : Parser} {s s' : State}
  {events : List Event} {bev : Bev} {other : End}

/-- A read of the client at the other end of a bufferevent. -/
def ReadsFrom (bev : Bev) (e : Event) : Prop := ∃ stack now, e = .reply bev stack now

/-- The node has exited. -/
def State.Exited (s : State) (node : Node) : Prop := (s.client node).status = .exited

/-- What the server has written stays. -/
theorem written_step (h : Inv clientHost host s) {e : Event}
    (hstep : Session.step clientHost host parse s e = some s') (bev : Bev) :
    s.server.written bev <+: s'.server.written bev := by
  have hserver : ∀ {e : Server.Event}, Server.step host parse s.server e = some s'.server →
      s.server.written bev <+: s'.server.written bev := by
    intro e ht
    obtain ⟨more, hmore, _⟩ := Server.written_step h.server ht bev
    exact ⟨more, hmore.symm⟩
  cases e with
  | client node e =>
    obtain ⟨_, c, _, rfl⟩ := step_client hstep
    exact List.prefix_refl _
  | server e =>
    obtain ⟨_, t, ht, rfl⟩ := step_server hstep
    exact hserver ht
  | connect worker other =>
    obtain ⟨_, _, t, ht, rfl⟩ := step_connect hstep
    exact hserver ht
  | request bev stack =>
    obtain ⟨_, _, t, _, _, ht, rfl⟩ := step_request hstep
    exact hserver ht
  | reply bev stack now =>
    obtain ⟨_, _, c, _, _, _, rfl⟩ := step_reply hstep
    exact List.prefix_refl _

theorem written_run (h : Inv clientHost host s)
    (hrun : (system clientHost host parse).runFrom s events = some s') (bev : Bev) :
    s.server.written bev <+: s'.server.written bev := by
  induction events generalizing s with
  | nil =>
    cases hrun
    exact List.prefix_refl _
  | cons e events ih =>
    rw [System.runFrom, Option.bind_eq_some_iff] at hrun
    obtain ⟨t, hstep, hrest⟩ := hrun
    exact (written_step h hstep bev).trans (ih (h.step hstep) hrest)

/-- A command has written a close frame to the bufferevent. -/
theorem Commanded.written (h : Commanded clientHost host parse events bev)
    (hrun : (system clientHost host parse).run events = some s) :
    ∃ frame ∈ s.server.written bev, ∀ client,
      ClientConnect.Receives client frame .reqCloseNode := by
  obtain ⟨before, strIp, stack, after, t, rfl, hbefore, hmapped⟩ := h
  rw [System.run_append hbefore, System.runFrom, Option.bind_eq_some_iff] at hrun
  obtain ⟨t', hstep, hafter⟩ := hrun
  have hcalled : Session.step clientHost host parse t (.server (.delNode strIp stack)) =
      some t' := hstep
  have hinv := (after_run hbefore).inv.step hcalled
  obtain ⟨_, u, hu, rfl⟩ := step_server hcalled
  obtain rfl := Server.step_delNode hu
  obtain ⟨frame, hframe, hdel⟩ := hmapped.delNode host stack
  refine ⟨frame, (written_run hinv hafter bev).mem ?_, NodeConnect.receives_closeFrame hframe⟩
  have hwritten : (t.server.delNode host stack strIp).written bev =
      t.server.written bev ++ [frame] := by
    rw [hdel]
    exact Function.update_self ..
  dsimp only
  rw [hwritten]
  exact List.mem_append_right _ List.mem_cons_self

/-- A node that has read a close frame has exited. -/
theorem exited_step (h : Inv clientHost host s) {e : Event}
    (hstep : Session.step clientHost host parse s e = some s') {node : Node}
    (hold : ∀ bev, ∀ frame ∈ s.readBy node bev,
      ClientConnect.Receives (clientHost node) frame .reqCloseNode → s.Exited node)
    {bev : Bev} {frame : List UInt8} (hframe : frame ∈ s'.readBy node bev)
    (hclose : ClientConnect.Receives (clientHost node) frame .reqCloseNode) : s'.Exited node := by
  have hkept : (∀ bev stack now, e ≠ .reply bev stack now) → s'.client node = s.client node →
      s'.Exited node := by
    intro hother hclient
    rw [readBy_step h hstep hother] at hframe
    rw [State.Exited, hclient]
    exact hold bev frame hframe hclose
  cases e with
  | client node' e =>
    by_cases hnode : node = node'
    · -- a client that has exited takes no step
      rw [readBy_step h hstep (fun _ _ _ => Event.noConfusion)] at hframe
      obtain ⟨_, c, hc, rfl⟩ := step_client hstep
      have hexited := hold bev frame hframe hclose
      rw [State.Exited, hnode, Client.running_of_step hc] at hexited
      cases hexited
    · refine hkept (fun _ _ _ => Event.noConfusion) ?_
      obtain ⟨_, c, _, rfl⟩ := step_client hstep
      exact Function.update_of_ne hnode ..
  | server e =>
    refine hkept (fun _ _ _ => Event.noConfusion) ?_
    obtain ⟨_, t, _, rfl⟩ := step_server hstep
    rfl
  | connect worker other =>
    refine hkept (fun _ _ _ => Event.noConfusion) ?_
    obtain ⟨_, _, t, _, rfl⟩ := step_connect hstep
    rfl
  | request bev stack =>
    refine hkept (fun _ _ _ => Event.noConfusion) ?_
    obtain ⟨_, _, t, _, _, _, rfl⟩ := step_request hstep
    rfl
  | reply bev' stack now =>
    obtain ⟨other, read, c, hpeer, hread, hc, rfl⟩ := step_reply hstep
    rw [readBy_reply hpeer hread, List.mem_append] at hframe
    have hstatus := Client.status_of_readCB hc
    by_cases hnode : node = other.node
    · subst hnode
      rw [State.Exited]
      dsimp only
      rw [Function.update_self, hstatus]
      rcases hframe with hbefore | hnow
      · have hexited := hold bev frame hbefore hclose
        rw [State.Exited, Client.running_of_step hc] at hexited
        cases hexited
      · split at hnow
        · obtain rfl := List.mem_singleton.mp hnow
          exact if_pos hclose
        · cases hnow
    · rw [if_neg fun hboth => hnode hboth.2.symm] at hframe
      have hexited := hold bev frame (hframe.resolve_right List.not_mem_nil) hclose
      have hsame : Function.update s.client other.node c node = s.client node :=
        Function.update_of_ne hnode ..
      rw [State.Exited]
      dsimp only
      rw [hsame]
      exact hexited

theorem exited_run (hrun : (system clientHost host parse).run events = some s) {node : Node}
    {frame : List UInt8} (hframe : frame ∈ s.readBy node bev)
    (hclose : ClientConnect.Receives (clientHost node) frame .reqCloseNode) : s.Exited node := by
  refine (System.run_induction (A := fun _ => True) (fun _ s => Inv clientHost host s ∧
    ∀ bev, ∀ frame ∈ s.readBy node bev,
      ClientConnect.Receives (clientHost node) frame .reqCloseNode → s.Exited node) ?_ ?_
    (fun _ _ => trivial) hrun).2 bev frame hframe hclose
  · refine ⟨Inv.init, fun bev frame hmem => ?_⟩
    cases hmem
  · rintro _ s e s' _ ⟨hinv, hold⟩ hstep
    exact ⟨hinv.step hstep, fun bev frame => exited_step hinv hstep hold⟩

/-- The client has exited, or it runs, calls back and has the close frame
before it. -/
structure Stopping (clientHost : Node → ByteOrder) (bev : Bev) (other : End) (s : State) :
    Prop where
  peer : s.peer bev = some other
  listens : (s.client other.node).Listens other.conn
  exits : s.Exited other.node ∨ (s.client other.node).status = .running ∧
    ∃ frame ∈ s.inFlight bev,
      ClientConnect.Receives (clientHost other.node) frame .reqCloseNode

/-- A read takes the first frame that is in flight. -/
theorem Stopping.step (h : Stopping clientHost bev other s) {e : Event} (he : ReadsFrom bev e)
    (hstep : Session.step clientHost host parse s e = some s') :
    Stopping clientHost bev other s' ∧ (s'.inFlight bev).length < (s.inFlight bev).length := by
  obtain ⟨stack, now, rfl⟩ := he
  obtain ⟨other', frame, c, hpeer, hframe, hc, rfl⟩ := step_reply hstep
  obtain rfl := Option.some.inj (h.peer.symm.trans hpeer)
  set s' : State := { s with
    client := Function.update s.client other.node c
    got := Function.update s.got bev (s.got bev + 1) } with hs'
  have hclient : s'.client other.node = c := Function.update_self ..
  have hfirst : s.inFlight bev = frame :: s'.inFlight bev := by
    obtain ⟨hlt, hget⟩ := List.getElem?_eq_some_iff.mp hframe
    have hgot : s'.got bev = s.got bev + 1 := Function.update_self ..
    rw [State.inFlight, State.inFlight, hgot, List.drop_eq_getElem_cons hlt, hget]
  have hstatus := Client.status_of_readCB hc
  refine ⟨⟨hpeer, ?_, ?_⟩, ?_⟩
  · rw [hclient]
    exact Client.listens_of_readCB hc h.listens
  · rw [State.Exited, hclient]
    by_cases hnow : ClientConnect.Receives (clientHost other.node) frame .reqCloseNode
    · rw [if_pos hnow] at hstatus
      exact Or.inl hstatus
    · rw [if_neg hnow] at hstatus
      rcases h.exits with hexited | ⟨_, later, hlater, hclose⟩
      · rw [State.Exited, Client.running_of_step hc] at hexited
        cases hexited
      · rw [hfirst, List.mem_cons] at hlater
        refine Or.inr ⟨hstatus, later, hlater.resolve_left fun hsame => ?_, hclose⟩
        exact hnow (hsame ▸ hclose)
  · rw [hfirst, List.length_cons]
    exact Nat.lt_succ_self _

/-- As long as the client has not exited, it can read. -/
theorem Stopping.enabled (h : Stopping clientHost bev other s) (hleft : ¬s.Exited other.node) :
    ∃ e s', ReadsFrom bev e ∧ Session.step clientHost host parse s e = some s' := by
  obtain ⟨hrunning, frame, hframe, _⟩ := h.exits.resolve_left hleft
  have hlt : s.got bev < (s.server.written bev).length := by
    by_contra hread
    rw [State.inFlight, List.drop_eq_nil_of_le (Nat.le_of_not_lt hread)] at hframe
    cases hframe
  have hnext := List.getElem?_eq_getElem hlt
  obtain ⟨c, hc⟩ : ∃ c, Client.step (clientHost other.node) (s.client other.node)
      (.readCB other.conn .zeros (s.server.written bev)[s.got bev] 0) = some c :=
    Client.readCB_enabled hrunning h.listens _ _ _
  have hgo : (Session.step clientHost host parse s (.reply bev .zeros 0)).isSome = true := by
    rw [Session.step, h.peer, hnext]
    dsimp only
    rw [hc]
    rfl
  obtain ⟨s', hstep⟩ := Option.isSome_iff_exists.mp hgo
  exact ⟨.reply bev .zeros 0, s', ⟨.zeros, 0, rfl⟩, hstep⟩

/-- A close frame that was written is on its way to a client that runs. -/
theorem Stopping.of_written (hrun : (system clientHost host parse).run events = some s)
    (hwritten : ∃ frame ∈ s.server.written bev, ∀ client,
      ClientConnect.Receives client frame .reqCloseNode)
    (hpeer : s.peer bev = some other) (hlistens : (s.client other.node).Listens other.conn)
    (halive : (s.client other.node).status ≠ .crashed) : Stopping clientHost bev other s := by
  refine ⟨hpeer, hlistens, ?_⟩
  cases hstatus : (s.client other.node).status with
  | crashed => exact absurd hstatus halive
  | exited => exact Or.inl hstatus
  | running =>
    obtain ⟨frame, hframe, hclose⟩ := hwritten
    rw [← List.take_append_drop (s.got bev) (s.server.written bev), List.mem_append] at hframe
    rcases hframe with hread | hwaits
    · have hreadBy : frame ∈ s.readBy other.node bev := by
        rw [State.readBy, hpeer, Option.any_some, if_pos (decide_eq_true rfl)]
        exact hread
      exact Or.inl (exited_run hrun hreadBy (hclose _))
    · exact Or.inr ⟨rfl, frame, hwaits, hclose _⟩

/-- In every run in which `DelNode` was called for an ip that was mapped to a
connection of a client, the client has exited or it will: its reads from that
connection come to an end, and however far they went, they lead to its exit. -/
theorem stop_settles (hrun : (system clientHost host parse).run events = some s)
    (hcommanded : Commanded clientHost host parse events bev) (hpeer : s.peer bev = some other)
    (hlistens : (s.client other.node).Listens other.conn)
    (halive : (s.client other.node).status ≠ .crashed) :
    (system clientHost host parse).Settles (ReadsFrom bev) (State.Exited · other.node) s :=
  System.settles_of_measure (I := Stopping clientHost bev other)
    (fun s => (s.inFlight bev).length) (fun _ _ _ h he hstep => h.step he hstep)
    (fun _ h hleft => h.enabled hleft)
    (Stopping.of_written hrun (hcommanded.written hrun) hpeer hlistens halive)

/-- A node has logged in and not read the response. -/
def loggedIn : List Event := [.client 0 (.connectToSerd 0 .pending), .server (.accept 0 0),
  .connect 0 ⟨0, 0⟩, .client 0 .readTerminal, .request 0 .zeros, .server (.resume 0),
  .server (.resume 0), .server (.resume 0), .server (.resume 0)]

/-- The node is stopped by the ip of its login. -/
def stopSent : List Event :=
  loggedIn ++ [.server (.delNode ClientConnect.loginMessage.ip .zeros)]

theorem stop_settles_stopSent : ∃ s,
    (system (fun _ => .little) .big ReqNodeLogin.parseFromIstream).run stopSent = some s ∧
      (system (fun _ => .little) .big ReqNodeLogin.parseFromIstream).Settles (ReadsFrom 0)
        (State.Exited · 0) s := by
  have hmapped : ((system (fun _ => .little) .big ReqNodeLogin.parseFromIstream).run
      loggedIn).any (fun s => (s.server.mapNode.lookup ClientConnect.loginMessage.ip).any fun a =>
        (s.server.heap a).any fun x => x.bev = some 0) = true := by decide +kernel
  have hends : ((system (fun _ => .little) .big ReqNodeLogin.parseFromIstream).run
      stopSent).any (fun s => s.peer 0 = some ⟨0, 0⟩ ∧ (s.client 0).status = .running ∧
        ((s.client 0).conn 0).any (fun c => c.callbacks && !c.freed) = true) = true := by
    decide +kernel
  obtain ⟨t, ht, ha⟩ := (Option.any_eq_true _ _).mp hmapped
  obtain ⟨a, hlookup, hx⟩ := (Option.any_eq_true _ _).mp ha
  obtain ⟨x, hheap, hbev⟩ := (Option.any_eq_true _ _).mp hx
  obtain ⟨s, hrun, hall⟩ := (Option.any_eq_true _ _).mp hends
  obtain ⟨hpeer, hrunning, hconn⟩ := of_decide_eq_true hall
  obtain ⟨c, hc, hopen⟩ := (Option.any_eq_true _ _).mp hconn
  obtain ⟨hcallbacks, hfreed⟩ := (Bool.and_eq_true _ _).mp hopen
  have hcommanded : Commanded (fun _ => .little) .big ReqNodeLogin.parseFromIstream stopSent 0 :=
    ⟨loggedIn, ClientConnect.loginMessage.ip, .zeros, [], t, rfl, ht, a, x, hlookup, hheap,
      of_decide_eq_true hbev⟩
  have halive : (s.client 0).status ≠ .crashed := by
    rw [hrunning]
    decide
  exact ⟨s, hrun, stop_settles hrun hcommanded hpeer
    ⟨c, hc, hcallbacks, (Bool.not_eq_true' c.freed).mp hfreed⟩ halive⟩

end Session

end NodeManager
