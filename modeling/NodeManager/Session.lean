import NodeManager.ClientRequests
import NodeManager.ConnectionReplies

/-!
# Clients and the server together

Any number of clients and the server, each going on by its own steps, with the
connections between them. A connection keeps the order of the frames, and each
read takes one whole frame; in flight is what one side has written and the
other has not read. The server may have other peers besides, which send it
anything.
-/

namespace NodeManager

open ByteMemory TransitionSystem

namespace Server

variable {host : ByteOrder} {parse : Parser} {s s' : State} {bev : Bev}

/-- Nothing is written to a bufferevent that is yet to be made. -/
def Unwritten (s : State) : Prop := ∀ bev, s.bevs.length ≤ bev → s.written bev = []

/-- What is written stays, and only bufferevents that exist are written to. -/
theorem written_step (hinv : Inv s) {e : Event} (hstep : step host parse s e = some s')
    (bev : Bev) : ∃ more, s'.written bev = s.written bev ++ more ∧
      (s.bevs.length ≤ bev → more = []) := by
  have hsame : s'.written = s.written → ∃ more, s'.written bev = s.written bev ++ more ∧
      (s.bevs.length ≤ bev → more = []) := fun h =>
    ⟨[], (congrFun h bev).trans (List.append_nil _).symm, fun _ => rfl⟩
  cases e with
  | accept pNodeCon worker =>
    obtain ⟨_, rfl⟩ := step_accept hstep
    exact hsame rfl
  | handlerConnect worker created =>
    obtain ⟨pConnect, rest, _, _, rfl⟩ := step_handlerConnect hstep
    exact hsame (State.handlerConnect_frame _ pConnect created).1
  | read bev' stack input =>
    obtain ⟨v, actions, _, _, _, rfl⟩ := step_read hstep
    exact hsame rfl
  | resume worker =>
    obtain ⟨task, rest, hpending, rfl⟩ := step_resume hstep
    refine ⟨_, (perform_frames _ task).1 bev, fun hlater => ?_⟩
    refine framesOf_eq_nil fun task' htask' => ?_
    obtain rfl := List.mem_singleton.mp htask'
    obtain ⟨v, hv, _⟩ := hinv.1.taskBev (hpending ▸ List.mem_cons_self)
    exact ((List.getElem?_eq_some_iff.mp hv).1.trans_le hlater).ne
  | errorCallBack bev' what =>
    obtain ⟨v, _, _, rfl⟩ := step_errorCallBack hstep
    refine hsame ?_
    split
    · exact (s.delete_frame v.arg).1
    · rfl
  | getAllNode =>
    obtain rfl := step_getAllNode hstep
    refine hsame ?_
    split
    · rfl
    · rfl
  | delNode strIp stack =>
    obtain rfl := step_delNode hstep
    rcases (delNode_frames host s stack strIp).1 bev with hquiet | ⟨frame, hmapped, _, hone⟩
    · exact ⟨[], hquiet.trans (List.append_nil _).symm, fun _ => rfl⟩
    · refine ⟨[frame], hone, fun hlater => ?_⟩
      obtain ⟨a, x, _, hx, hbev⟩ := hmapped
      obtain ⟨v, hv, _⟩ := hinv.1.bevFd hx hbev
      have hlt := (List.getElem?_eq_some_iff.mp hv).1
      omega

theorem Unwritten.step (h : Unwritten s) (hinv : Inv s) {e : Event}
    (hstep : step host parse s e = some s') : Unwritten s' := by
  intro bev hlater
  obtain ⟨more, hmore⟩ := bevs_step hstep
  have hbefore : s.bevs.length ≤ bev := by
    rw [hmore, List.length_append] at hlater
    omega
  obtain ⟨frames, hframes, hnone⟩ := written_step hinv hstep bev
  rw [hframes, h bev hbefore, hnone hbefore]
  rfl

/-- Nothing goes to a bufferevent that is yet to be made. -/
theorem Unwritten.sent (h : Unwritten s) (hlater : s.bevs.length ≤ bev) : s.sent bev = [] := by
  rw [State.sent, h bev hlater, State.pendingFrames, List.getElem?_eq_none hlater]
  rfl

/-- The first close frame comes from a call of `DelNode` for an ip that is mapped
to the bufferevent. -/
theorem closed_of_step (hinv : Inv s) (hplain : RepliesOnly s) {e : Event}
    (hstep : step host parse s e = some s') (hnone : s.closeFrames bev = [])
    (hsome : s'.closeFrames bev ≠ []) :
    ∃ strIp stack, e = .delNode strIp stack ∧ HttpReq.MappedTo s strIp bev := by
  have hadds := (step_adds hinv hplain hstep bev).closeFrames
  have hdelNode : e.isDelNode = true := by
    by_contra hother
    rw [if_neg hother, hnone] at hadds
    exact hsome (List.length_eq_zero_iff.mp (Nat.le_zero.mp hadds))
  cases e with
  | delNode strIp stack =>
    obtain rfl := step_delNode hstep
    rcases (delNode_frames host s stack strIp).1 bev with hquiet | ⟨frame, hmapped, _⟩
    · rw [State.closeFrames, hquiet] at hsome
      exact absurd hnone hsome
    · exact ⟨strIp, stack, rfl, hmapped⟩
  | accept => cases hdelNode
  | handlerConnect => cases hdelNode
  | read => cases hdelNode
  | resume => cases hdelNode
  | errorCallBack => cases hdelNode
  | getAllNode => cases hdelNode

end Server

namespace Session

/-- A node, which runs one client. -/
abbrev Node := ℕ

/-- The client's end of a connection. -/
structure End where
  node : Node
  /-- The socket, whose number the bufferevent of the client has as well. -/
  conn : ℕ
  deriving DecidableEq

/-- The clients, the server, and how far each connection has been read. -/
structure State where
  client : Node → Client.State
  server : Server.State
  /-- The other end of a bufferevent of the server, if it is one of the clients. -/
  peer : Bev → Option End
  /-- The number of frames that the server has read from the other end. -/
  taken : Bev → ℕ
  /-- The number of frames of the server that the other end has read. -/
  got : Bev → ℕ

/-- Nobody is connected. -/
def State.init : State where
  client := fun _ => Client.State.init
  server := Server.State.init
  peer := fun _ => none
  taken := fun _ => 0
  got := fun _ => 0

/-- What a client has written on a connection. -/
def State.requests (s : State) (other : End) : List (List UInt8) :=
  (s.client other.node).framesOn other.conn

/-- What can happen to the clients and the server. -/
inductive Event
  /-- A step of a client, but for its reads. -/
  | client (node : Node) (e : Client.Event)
  /-- A step of the server, but for its reads from a client. -/
  | server (e : Server.Event)
  /-- `HandlerConnect` makes the bufferevent for a connection of a client. -/
  | connect (worker : Worker) (other : End)
  /-- The server reads the next frame of a client. -/
  | request (bev : Bev) (stack : Stack)
  /-- A client reads the next frame of the server. -/
  | reply (bev : Bev) (stack : Stack) (now : ℤ)

/-- An event that is a read of the client. -/
def isClientRead : Client.Event → Bool
  | .readCB .. => true
  | _ => false

/-- An event that is a read of the server from one of the clients. -/
def State.readsPeer (s : State) : Server.Event → Bool
  | .read bev _ _ => (s.peer bev).isSome
  | _ => false

/-- The connection has been accepted already. -/
def State.connected (s : State) (other : End) : Bool :=
  (List.range s.server.bevs.length).any fun bev => s.peer bev = some other

variable (clientHost : Node → ByteOrder) (host : ByteOrder) (parse : Parser)

/-- The effect of an event that can happen. -/
def step (s : State) : Event → Option State
  | .client node e =>
    if isClientRead e then none
    else (Client.step (clientHost node) (s.client node) e).map fun c =>
      { s with client := Function.update s.client node c }
  | .server e =>
    if s.readsPeer e then none
    else (Server.step host parse s.server e).map fun t => { s with server := t }
  | .connect worker other =>
    if (s.client other.node).sockets ≤ other.conn ∨ s.connected other then none
    else (Server.step host parse s.server (.handlerConnect worker true)).map fun t =>
      { s with server := t, peer := Function.update s.peer s.server.bevs.length (some other) }
  | .request bev stack =>
    match s.peer bev with
    | none => none
    | some other =>
      match (s.requests other)[s.taken bev]? with
      | none => none
      | some frame => (Server.step host parse s.server (.read bev stack frame)).map fun t =>
        { s with server := t, taken := Function.update s.taken bev (s.taken bev + 1) }
  | .reply bev stack now =>
    match s.peer bev, (s.server.written bev)[s.got bev]? with
    | some other, some frame =>
      (Client.step (clientHost other.node) (s.client other.node)
        (.readCB other.conn stack frame now)).map fun c =>
          { s with
            client := Function.update s.client other.node c
            got := Function.update s.got bev (s.got bev + 1) }
    | _, _ => none

/-- The clients and the server from their start. -/
def system : System State Event := ⟨State.init, step clientHost host parse⟩

section Steps

variable {clientHost host parse} {s s' : State}

theorem step_client {node : Node} {e : Client.Event}
    (h : step clientHost host parse s (.client node e) = some s') :
    isClientRead e = false ∧ ∃ c, Client.step (clientHost node) (s.client node) e = some c ∧
      s' = { s with client := Function.update s.client node c } := by
  rw [step] at h
  split at h
  · cases h
  · next hread =>
    obtain ⟨c, hc, rfl⟩ := Option.map_eq_some_iff.mp h
    exact ⟨Bool.eq_false_iff.mpr hread, c, hc, rfl⟩

theorem step_server {e : Server.Event}
    (h : step clientHost host parse s (.server e) = some s') :
    s.readsPeer e = false ∧ ∃ t, Server.step host parse s.server e = some t ∧
      s' = { s with server := t } := by
  rw [step] at h
  split at h
  · cases h
  · next hread =>
    obtain ⟨t, ht, rfl⟩ := Option.map_eq_some_iff.mp h
    exact ⟨Bool.eq_false_iff.mpr hread, t, ht, rfl⟩

theorem step_connect {worker : Worker} {other : End}
    (h : step clientHost host parse s (.connect worker other) = some s') :
    other.conn < (s.client other.node).sockets ∧ s.connected other = false ∧ ∃ t,
      Server.step host parse s.server (.handlerConnect worker true) = some t ∧
      s' = { s with
        server := t
        peer := Function.update s.peer s.server.bevs.length (some other) } := by
  rw [step] at h
  split at h
  · cases h
  · next hready =>
    obtain ⟨hmade, hnew⟩ := not_or.mp hready
    obtain ⟨t, ht, rfl⟩ := Option.map_eq_some_iff.mp h
    exact ⟨Nat.lt_of_not_le hmade, Bool.eq_false_iff.mpr hnew, t, ht, rfl⟩

theorem step_request {bev : Bev} {stack : Stack}
    (h : step clientHost host parse s (.request bev stack) = some s') :
    ∃ other frame t, s.peer bev = some other ∧ (s.requests other)[s.taken bev]? = some frame ∧
      Server.step host parse s.server (.read bev stack frame) = some t ∧
      s' = { s with server := t, taken := Function.update s.taken bev (s.taken bev + 1) } := by
  rw [step] at h
  split at h
  · cases h
  · next other hother =>
    split at h
    · cases h
    · next frame hframe =>
      obtain ⟨t, ht, rfl⟩ := Option.map_eq_some_iff.mp h
      exact ⟨other, frame, t, hother, hframe, ht, rfl⟩

theorem step_reply {bev : Bev} {stack : Stack} {now : ℤ}
    (h : step clientHost host parse s (.reply bev stack now) = some s') :
    ∃ other frame c, s.peer bev = some other ∧
      (s.server.written bev)[s.got bev]? = some frame ∧
      Client.step (clientHost other.node) (s.client other.node)
        (.readCB other.conn stack frame now) = some c ∧
      s' = { s with
        client := Function.update s.client other.node c
        got := Function.update s.got bev (s.got bev + 1) } := by
  rw [step] at h
  split at h
  · next other frame hother hframe =>
    obtain ⟨c, hc, rfl⟩ := Option.map_eq_some_iff.mp h
    exact ⟨other, frame, c, hother, hframe, hc, rfl⟩
  · cases h

end Steps

/-- The answer of the server to a request of a client. -/
def answerTo (request : List UInt8) : List UInt8 :=
  if Server.idOf request = MsgID.reqNodeLogin.code then NodeConnect.loginReply host .zeros
  else NodeConnect.heartBeatReply host .zeros

/-- What a client sends is a whole frame whose head names a request. -/
theorem head_request {client : ByteOrder} {frame : List UInt8}
    (hframe : Client.Requests client [frame]) : frame.length = frameSize ∧
      (DataHeadCodec.headAt host frame).ucType = ProtocolType.pb.code ∧
      ((DataHeadCodec.headAt host frame).usMsgId = MsgID.reqNodeLogin.code ∨
        (DataHeadCodec.headAt host frame).usMsgId = MsgID.reqHeartBeat.code) := by
  rcases hframe frame List.mem_cons_self with rfl | rfl
  · obtain ⟨htype, _, hid⟩ := headAt_frameOf_fields client host
      (ClientConnect.loginHead ClientConnect.reqLoginHead
        ClientConnect.loginMessage.serialize.length) ClientConnect.loginMessage.serialize
    exact ⟨frameOf_length (by decide), htype, Or.inl hid⟩
  · obtain ⟨htype, _, hid⟩ := headAt_frameOf_fields client host ClientConnect.heatBeatHead []
    exact ⟨frameOf_length (by decide), htype, Or.inr hid⟩

/-- The server answers a request once. Every field of the reply is assigned, so
that the stack does not show in it. -/
theorem repliesTo_request {client : ByteOrder} {frame : List UInt8}
    (hframe : Client.Requests client [frame]) (stack : Stack) :
    Server.repliesTo host parse stack frame = [answerTo host frame] := by
  obtain ⟨hsize, htype, hid⟩ := head_request host hframe
  have hone : 0 < frame.length ∧ frame.length ≤ frameSize := by
    rw [hsize]
    exact ⟨by decide, le_rfl⟩
  have hreply : Server.repliesTo host parse stack frame =
      NodeConnect.reply host stack (DataHeadCodec.headAt host frame) := by
    have hwritten := NodeConnect.written_readCallBack host parse ⟨frame, stack, hone.1, hone.2⟩
    rw [NodeConnect.Read.head, databuff_frame hsize, NodeConnect.readCallBack_eq] at hwritten
    rw [Server.repliesTo, NodeConnect.readCallBack_eq]
    exact Except.ok.inj hwritten
  have hother : MsgID.reqNodeLogin.code ≠ MsgID.reqHeartBeat.code := by decide
  have hmsgId : Server.idOf frame = (DataHeadCodec.headAt host frame).usMsgId := by
    rw [Server.idOf, databuff_frame hsize]
    rfl
  rw [hreply, NodeConnect.reply, if_neg (not_not.mpr htype), answerTo, hmsgId]
  rcases hid with hlogin | hbeat
  · rw [hlogin, if_neg hother, if_pos rfl, if_pos rfl]
    rfl
  · rw [hbeat, if_pos rfl, if_neg hother.symm]
    rfl

/-- What holds of the clients and the server together: each client has written
requests alone, and the server has answered those that it has read. -/
structure Inv (s : State) : Prop where
  server : Server.Inv s.server
  repliesOnly : Server.RepliesOnly s.server
  unwritten : Server.Unwritten s.server
  /-- A bufferevent that is yet to be made has not been read from. -/
  unread : ∀ bev, s.server.bevs.length ≤ bev → s.taken bev = 0 ∧ s.got bev = 0
  requests : ∀ node conn, Client.Requests (clientHost node) ((s.client node).framesOn conn)
  /-- The connection of a bufferevent has been made. -/
  made : ∀ {bev other}, s.peer bev = some other → other.conn < (s.client other.node).sockets
  taken : ∀ {bev other}, s.peer bev = some other → s.taken bev ≤ (s.requests other).length
  got : ∀ bev, s.got bev ≤ (s.server.written bev).length
  answered : ∀ {bev other}, s.peer bev = some other → s.server.sent bev =
    ((s.requests other).take (s.taken bev)).map (answerTo host)

section Invariant

variable {clientHost host parse} {s s' : State}

theorem Inv.init : Inv clientHost host State.init where
  server := Server.Inv.init
  repliesOnly := fun _ _ htask => absurd htask List.not_mem_nil
  unwritten := fun _ _ => rfl
  unread := fun _ _ => ⟨rfl, rfl⟩
  requests := fun _ _ _ hframe => absurd hframe List.not_mem_nil
  made := fun h => nomatch h
  taken := fun h => nomatch h
  got := fun _ => le_rfl
  answered := fun h => nomatch h

/-- The requests of a connection that has been made only become more. -/
theorem requests_client {node : Node} {e : Client.Event} {c : Client.State} {other : End}
    (hmade : other.conn < (s.client other.node).sockets)
    (hstep : Client.step (clientHost node) (s.client node) e = some c) :
    other.conn < (Function.update s.client node c other.node).sockets ∧ ∃ more,
      (Function.update s.client node c other.node).framesOn other.conn =
        s.requests other ++ more := by
  by_cases hsame : other.node = node
  · rw [hsame, Function.update_self]
    rw [hsame] at hmade
    refine ⟨hmade.trans_le (Client.sockets_step hstep), ?_⟩
    obtain ⟨more, _, hframes | ⟨hlater, _⟩⟩ := Client.framesOn_step hstep other.conn
    · refine ⟨more, ?_⟩
      rw [hframes, State.requests, hsame]
    · exact absurd hmade (Nat.not_lt.mpr hlater)
  · rw [Function.update_of_ne hsame]
    exact ⟨hmade, [], (List.append_nil _).symm⟩

/-- A step of a client, a read included, keeps the invariant. -/
theorem Inv.client (h : Inv clientHost host s) {node : Node} {e : Client.Event}
    {c : Client.State} (hstep : Client.step (clientHost node) (s.client node) e = some c) :
    Inv clientHost host { s with client := Function.update s.client node c } where
  server := h.server
  repliesOnly := h.repliesOnly
  unwritten := h.unwritten
  unread := h.unread
  requests := by
    intro node' conn
    dsimp only
    by_cases hsame : node' = node
    · rw [hsame, Function.update_self]
      obtain ⟨more, ⟨hmore, _⟩, hframes | ⟨_, hframes⟩⟩ := Client.framesOn_step hstep conn
      · rw [hframes]
        exact List.forall_mem_append.mpr ⟨h.requests node conn, hmore⟩
      · rw [hframes]
        exact hmore
    · rw [Function.update_of_ne hsame]
      exact h.requests node' conn
  made := fun hpeer => (requests_client (h.made hpeer) hstep).1
  taken := by
    intro bev other hpeer
    obtain ⟨_, more, hmore⟩ := requests_client (h.made hpeer) hstep
    have hle := h.taken hpeer
    rw [State.requests]
    dsimp only
    rw [hmore, List.length_append]
    omega
  got := h.got
  answered := by
    intro bev other hpeer
    obtain ⟨_, more, hmore⟩ := requests_client (h.made hpeer) hstep
    rw [State.requests]
    dsimp only
    rw [hmore, List.take_append_of_le_length (h.taken hpeer)]
    exact h.answered hpeer

/-- What a step of the server does to the connections of the clients. -/
theorem Inv.ofServer (h : Inv clientHost host s) {e : Server.Event} {t : Server.State}
    (hstep : Server.step host parse s.server e = some t) {taken : Bev → ℕ}
    (hunread : ∀ bev, t.bevs.length ≤ bev → taken bev = 0)
    (hanswers : ∀ {bev other}, s.peer bev = some other → taken bev ≤ (s.requests other).length ∧
      s.server.sent bev ++ e.repliesOn host parse bev =
        ((s.requests other).take (taken bev)).map (answerTo host)) :
    Inv clientHost host { s with server := t, taken } where
  server := h.server.step hstep
  repliesOnly := h.repliesOnly.step hstep
  unwritten := h.unwritten.step h.server hstep
  unread := by
    intro bev hlater
    obtain ⟨more, hmore⟩ := Server.bevs_step hstep
    have hbefore : s.server.bevs.length ≤ bev := by
      have hlength := congrArg List.length hmore
      rw [List.length_append] at hlength
      dsimp only at hlater
      omega
    exact ⟨hunread bev hlater, (h.unread bev hbefore).2⟩
  requests := h.requests
  made := h.made
  taken := fun hpeer => (hanswers hpeer).1
  got := by
    intro bev
    obtain ⟨more, hmore, _⟩ := Server.written_step h.server hstep bev
    have hle := h.got bev
    dsimp only
    rw [hmore, List.length_append]
    omega
  answered := by
    intro bev other hpeer
    exact (Server.step_adds h.server h.repliesOnly hstep bev).sent.trans (hanswers hpeer).2

/-- A step of the server that reads from none of the clients. -/
theorem Inv.quiet (h : Inv clientHost host s) {e : Server.Event} {t : Server.State}
    (hstep : Server.step host parse s.server e = some t)
    (hquiet : ∀ {bev other}, s.peer bev = some other → e.repliesOn host parse bev = []) :
    Inv clientHost host { s with server := t } := by
  refine h.ofServer hstep (fun bev hlater => ?_) fun {bev other} hpeer => ⟨h.taken hpeer, ?_⟩
  · obtain ⟨more, hmore⟩ := Server.bevs_step hstep
    have hlength := congrArg List.length hmore
    rw [List.length_append] at hlength
    exact (h.unread bev (by omega)).1
  · rw [hquiet hpeer, List.append_nil, h.answered hpeer]

/-- The bufferevent that `HandlerConnect` makes for a connection of a client. -/
theorem Inv.connect (h : Inv clientHost host s) {worker : Worker} {other : End}
    {t : Server.State} (hmade : other.conn < (s.client other.node).sockets)
    (hstep : Server.step host parse s.server (.handlerConnect worker true) = some t) :
    Inv clientHost host { s with
      server := t
      peer := Function.update s.peer s.server.bevs.length (some other) } := by
  have hquiet := h.quiet hstep fun _ => rfl
  have hcases : ∀ {bev other'},
      Function.update s.peer s.server.bevs.length (some other) bev = some other' →
        bev = s.server.bevs.length ∧ other' = other ∨ s.peer bev = some other' := by
    intro bev other' hpeer
    by_cases hsame : bev = s.server.bevs.length
    · rw [hsame, Function.update_self] at hpeer
      exact Or.inl ⟨hsame, (Option.some.inj hpeer).symm⟩
    · rw [Function.update_of_ne hsame] at hpeer
      exact Or.inr hpeer
  have hzero : s.taken s.server.bevs.length = 0 := (h.unread _ le_rfl).1
  have hsent : t.sent s.server.bevs.length = [] := by
    rw [(Server.step_adds h.server h.repliesOnly hstep _).sent, h.unwritten.sent le_rfl]
    rfl
  refine ⟨hquiet.server, hquiet.repliesOnly, hquiet.unwritten, hquiet.unread, hquiet.requests,
    ?_, ?_, hquiet.got, ?_⟩
  · intro bev other' hpeer
    rcases hcases hpeer with ⟨_, rfl⟩ | hold
    · exact hmade
    · exact h.made hold
  · intro bev other' hpeer
    rcases hcases hpeer with ⟨rfl, rfl⟩ | hold
    · exact hzero.trans_le (Nat.zero_le _)
    · exact h.taken hold
  · intro bev other' hpeer
    rcases hcases hpeer with ⟨rfl, rfl⟩ | hold
    · dsimp only
      rw [hsent, hzero]
      rfl
    · exact hquiet.answered hold

/-- A request that the server reads is answered by the callback that it starts. -/
theorem Inv.request (h : Inv clientHost host s) {bev : Bev} {stack : Stack} {other : End}
    {frame : List UInt8} {t : Server.State} (hpeer : s.peer bev = some other)
    (hframe : (s.requests other)[s.taken bev]? = some frame)
    (hstep : Server.step host parse s.server (.read bev stack frame) = some t) :
    Inv clientHost host
      { s with server := t, taken := Function.update s.taken bev (s.taken bev + 1) } := by
  obtain ⟨hlt, hget⟩ := List.getElem?_eq_some_iff.mp hframe
  have hrequest : Client.Requests (clientHost other.node) [frame] := by
    refine List.forall_mem_singleton.mpr (h.requests other.node other.conn frame ?_)
    exact List.mem_of_getElem? hframe
  obtain ⟨v, _, hv, _⟩ := Server.step_read hstep
  have hbev : bev < s.server.bevs.length := (List.getElem?_eq_some_iff.mp hv).1
  obtain ⟨more, hmore⟩ := Server.bevs_step hstep
  have hlength := congrArg List.length hmore
  rw [List.length_append] at hlength
  refine h.ofServer hstep (fun bev' hlater => ?_) fun {bev' other'} hpeer' => ?_
  · have hbefore : s.server.bevs.length ≤ bev' := by omega
    rw [Function.update_of_ne (hbev.trans_le hbefore).ne']
    exact (h.unread bev' hbefore).1
  · by_cases hsame : bev' = bev
    · subst hsame
      obtain rfl := Option.some.inj (hpeer.symm.trans hpeer')
      rw [Function.update_self]
      refine ⟨hlt, ?_⟩
      rw [h.answered hpeer, Server.Event.repliesOn, if_pos rfl,
        repliesTo_request host parse hrequest, List.take_add_one, hframe, List.map_append]
      rfl
    · rw [Function.update_of_ne hsame]
      refine ⟨h.taken hpeer', ?_⟩
      rw [h.answered hpeer', Server.Event.repliesOn, if_neg (Ne.symm hsame), List.append_nil]

/-- A frame that a client reads has been written. -/
theorem Inv.reply (h : Inv clientHost host s) {bev : Bev} {frame : List UInt8}
    (hframe : (s.server.written bev)[s.got bev]? = some frame) :
    Inv clientHost host { s with got := Function.update s.got bev (s.got bev + 1) } where
  server := h.server
  repliesOnly := h.repliesOnly
  unwritten := h.unwritten
  unread := by
    intro bev' hlater
    have hne : bev' ≠ bev := by
      rintro rfl
      rw [h.unwritten bev' hlater] at hframe
      cases hframe
    dsimp only
    rw [Function.update_of_ne hne]
    exact h.unread bev' hlater
  requests := h.requests
  made := h.made
  taken := h.taken
  got := by
    intro bev'
    dsimp only
    by_cases hsame : bev' = bev
    · rw [hsame, Function.update_self]
      exact (List.getElem?_eq_some_iff.mp hframe).1
    · rw [Function.update_of_ne hsame]
      exact h.got bev'
  answered := h.answered

/-- Every event keeps the invariant. -/
theorem Inv.step {e : Event} (h : Inv clientHost host s)
    (hstep : Session.step clientHost host parse s e = some s') : Inv clientHost host s' := by
  cases e with
  | client node e =>
    obtain ⟨_, c, hc, rfl⟩ := step_client hstep
    exact h.client hc
  | server e =>
    obtain ⟨hother, t, ht, rfl⟩ := step_server hstep
    refine h.quiet ht fun {bev other} hpeer => ?_
    cases e with
    | read bev' stack input =>
      refine if_neg fun hsame => ?_
      rw [State.readsPeer, hsame, hpeer] at hother
      cases hother
    | accept => rfl
    | handlerConnect => rfl
    | resume => rfl
    | errorCallBack => rfl
    | getAllNode => rfl
    | delNode => rfl
  | connect worker other =>
    obtain ⟨hmade, _, t, ht, rfl⟩ := step_connect hstep
    exact h.connect hmade ht
  | request bev stack =>
    obtain ⟨other, frame, t, hpeer, hframe, ht, rfl⟩ := step_request hstep
    exact h.request hpeer hframe ht
  | reply bev stack now =>
    obtain ⟨other, frame, c, hpeer, hframe, hc, rfl⟩ := step_reply hstep
    exact (h.reply hframe).client hc

end Invariant

end Session

end NodeManager
