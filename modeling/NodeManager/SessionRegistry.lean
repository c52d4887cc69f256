import NodeManager.LoginProvenance
import NodeManager.SessionRuns

/-!
# The registry that the clients fill

Every client logs in with the same ip and the same name, which are literals of
`ReqLogin`. As long as nobody else logs in, the server knows one ip at most,
however many nodes are connected, and can stop one of them at most.
-/

namespace NodeManager.Session

open ByteMemory TransitionSystem
open ClientConnect (loginMessage)

variable {clientHost : Node → ByteOrder} {host : ByteOrder} {s s' : State}
  {parse : List UInt8 → Bool × ReqNodeLogin}

/-- The event is no login of a peer that is not one of the clients. -/
def NoForeignLogin (host : ByteOrder) : Event → Prop
  | .server (.read _ stack input) => Server.loginBody host stack input = none
  | _ => True

/-- The server holds the ip and the name of the clients and no others. -/
def KnowsClients (s : Server.State) : Prop :=
  s.Told (fun _ ip => ip = loginMessage.ip) fun _ name => name = [] ∨ name = loginMessage.name

/-- A login that the server reads from a client carries the message of `ReqLogin`. -/
theorem loginBody_request {client : ByteOrder} {frame : List UInt8}
    (hframe : Client.Requests client [frame]) (stack : Stack) {body : List UInt8}
    (hbody : Server.loginBody host stack frame = some body) : body = loginMessage.serialize := by
  obtain ⟨hsize, htype, _⟩ := head_request host hframe
  have hne : frame ≠ [] := by
    intro hnil
    rw [hnil] at hsize
    cases hsize
  rw [Server.loginBody, databuff_frame hsize] at hbody
  rw [if_neg (not_or.mpr ⟨hne, not_not.mpr htype⟩)] at hbody
  rcases hframe frame List.mem_cons_self with rfl | rfl
  · have hfits : bodyMsgPos + loginMessage.serialize.length ≤ frameSize := by decide
    obtain ⟨_, hlen, _⟩ := headAt_frameOf_fields client host
      (ClientConnect.loginHead ClientConnect.reqLoginHead loginMessage.serialize.length)
      loginMessage.serialize
    have hlength : (ClientConnect.loginHead ClientConnect.reqLoginHead
        loginMessage.serialize.length).usLen.toNat = loginMessage.serialize.length := by decide
    rw [ClientConnect.loginFrame] at hbody
    split at hbody
    · rw [hlen, hlength, bytesFrom_inside stack (by rwa [frameOf_length hfits]),
        body_frameOf] at hbody
      exact (Option.some.inj hbody).symm
    · cases hbody
  · obtain ⟨_, _, hid⟩ := headAt_frameOf_fields client host ClientConnect.heatBeatHead []
    have hbeat : ClientConnect.heatBeatHead.usMsgId ≠ MsgID.reqNodeLogin.code := by decide
    rw [ClientConnect.heatBeatFrame, if_neg (hid ▸ hbeat)] at hbody
    cases hbody

/-- A step of the server that reads at most the login of a client. -/
theorem KnowsClients.server (hparse : parse loginMessage.serialize = (true, loginMessage))
    (h : KnowsClients s.server) {e : Server.Event} {t : Server.State}
    (hlogins : ∀ bev stack input, e = .read bev stack input → ∀ body,
      Server.loginBody host stack input = some body → body = loginMessage.serialize)
    (hstep : Server.step host parse s.server e = some t) :
    KnowsClients t := by
  refine Server.State.Told.step h (fun _ => Or.inl rfl) ?_ hstep
  intro login hlogin v _
  cases e with
  | read bev stack input =>
    rw [Server.Event.logins, Option.mem_toList] at hlogin
    obtain ⟨body, hbody, rfl⟩ := Option.map_eq_some_iff.mp hlogin
    rw [hlogins bev stack input rfl body hbody, PbCodec.handleNodeOnlineReq, hparse]
    exact ⟨rfl, Or.inr rfl⟩
  | _ => cases hlogin

/-- Every step keeps it, unless another peer logs in. -/
theorem KnowsClients.step (hparse : parse loginMessage.serialize = (true, loginMessage))
    (h : KnowsClients s.server) (hinv : Inv clientHost host s) {e : Event}
    (hforeign : NoForeignLogin host e)
    (hstep : Session.step clientHost host parse s e = some s') :
    KnowsClients s'.server := by
  cases e with
  | client node e =>
    obtain ⟨_, c, _, rfl⟩ := step_client hstep
    exact h
  | server e =>
    obtain ⟨_, t, ht, rfl⟩ := step_server hstep
    refine h.server hparse ?_ ht
    rintro bev stack input rfl body hbody
    have hnone : Server.loginBody host stack input = none := hforeign
    rw [hnone] at hbody
    cases hbody
  | connect worker other =>
    obtain ⟨_, _, t, ht, rfl⟩ := step_connect hstep
    exact h.server hparse (e := .handlerConnect worker true) (fun _ _ _ he => nomatch he) ht
  | request bev stack =>
    obtain ⟨other, frame, t, _, hframe, ht, rfl⟩ := step_request hstep
    refine h.server hparse ?_ ht
    intro bev' stack' input he body hbody
    cases he
    have hrequest : Client.Requests (clientHost other.node) [frame] := by
      intro frame' hmem
      rw [List.mem_singleton.mp hmem]
      exact hinv.requests other.node other.conn frame (List.mem_of_getElem? hframe)
    exact loginBody_request hrequest stack hbody
  | reply bev stack now =>
    obtain ⟨other, frame, c, _, _, _, rfl⟩ := step_reply hstep
    exact h

/-- In a run in which only the clients log in, the registry has one entry at most,
and its ip and its name are the literals of `ReqLogin`, whatever parser reads the
message of `ReqLogin` back. -/
theorem registry_of_clients {events : List Event}
    (hparse : parse loginMessage.serialize = (true, loginMessage))
    (hrun : (system clientHost host parse).run events = some s)
    (hforeign : ∀ e ∈ events, NoForeignLogin host e) :
    s.server.mapNode.keys.length ≤ 1 ∧
      ∀ ip a, s.server.mapNode.lookup ip = some a → ip = loginMessage.ip ∧
        ∀ x, s.server.heap a = some x → x.strNodeName = [] ∨ x.strNodeName = loginMessage.name := by
  have hknows : Inv clientHost host s ∧ KnowsClients s.server := by
    refine System.run_induction (A := NoForeignLogin host)
      (fun _ s => Inv clientHost host s ∧ KnowsClients s.server) ⟨Inv.init, ?_⟩ ?_ hforeign hrun
    · exact ⟨fun h => (nomatch h), fun h => (nomatch h), fun h => (nomatch h),
        fun h => (nomatch h)⟩
    · rintro _ s e s' he ⟨hinv, h⟩ hstep
      exact ⟨hinv.step hstep, h.step hparse hinv he hstep⟩
  have hkeys : ∀ ip ∈ s.server.mapNode.keys, ip = loginMessage.ip := by
    intro ip hip
    obtain ⟨a, hlookup⟩ := Option.isSome_iff_exists.mp (AList.lookup_isSome.mpr hip)
    exact hknows.2.mapped hlookup
  refine ⟨?_, fun ip a hlookup => ⟨hknows.2.mapped hlookup, fun x hx => hknows.2.named hx⟩⟩
  have hsubset : s.server.mapNode.keys ⊆ [loginMessage.ip] :=
    fun ip hip => List.mem_singleton.mpr (hkeys ip hip)
  exact (List.subperm_of_subset s.server.mapNode.keys_nodup hsubset).length_le

/-- Two nodes log in, one after the other. -/
def twoLogins : List Event := [.client 0 (.connectToSerd 0 .pending),
  .client 1 (.connectToSerd 0 .pending), .server (.accept 0 0), .server (.accept 1 0),
  .connect 0 ⟨0, 0⟩, .connect 0 ⟨1, 0⟩, .client 0 .readTerminal, .client 1 .readTerminal,
  .request 0 .zeros, .server (.resume 0), .server (.resume 0), .server (.resume 0),
  .server (.resume 0), .request 1 .zeros, .server (.resume 0), .server (.resume 0),
  .server (.resume 0), .server (.resume 0)]

/-- The second node takes the place of the first one. -/
theorem registry_of_clients_twoLogins : ∃ s,
    (system (fun _ => .little) .big ReqNodeLogin.parseFromIstream).run twoLogins = some s ∧
      s.server.mapNode.lookup loginMessage.ip = some 1 ∧ s.server.mapNode.keys.length ≤ 1 := by
  have hruns : ((system (fun _ => .little) .big ReqNodeLogin.parseFromIstream).run twoLogins).any
      (fun s => s.server.mapNode.lookup loginMessage.ip = some 1) = true := by decide +kernel
  obtain ⟨s, hrun, hlookup⟩ := (Option.any_eq_true _ _).mp hruns
  have hforeign : ∀ e ∈ twoLogins, NoForeignLogin .big e := by
    intro e he
    simp only [twoLogins, List.mem_cons, List.not_mem_nil, or_false] at he
    rcases he with rfl | rfl | rfl | rfl | rfl | rfl | rfl | rfl | rfl | rfl | rfl | rfl | rfl |
      rfl | rfl | rfl | rfl | rfl
    all_goals trivial
  have hparse : ReqNodeLogin.parseFromIstream loginMessage.serialize = (true, loginMessage) := by
    decide +kernel
  exact ⟨s, hrun, of_decide_eq_true hlookup, (registry_of_clients hparse hrun hforeign).1⟩

end NodeManager.Session
