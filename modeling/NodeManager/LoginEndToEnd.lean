import NodeManager.ClientConnect
import NodeManager.MessageMerge
import NodeManager.Server

/-!
# A login from the client's frame to the server's reply

The frame of the client's recipe, for any message that fits and any other
head fields, read by the server on any of its connections. The two hosts may
differ in byte order, since format, length and identifier are the same on
both; the wide head fields, which the codec loses, decide nothing.
-/

namespace NodeManager

open ByteMemory TransitionSystem

/-- A received frame is handed on with exactly its body. -/
theorem receive_frameOf (host host' : ByteOrder) (stack : Stack) {head : StructProtocolHead}
    {body : List UInt8} (htype : head.ucType = ProtocolType.pb.code)
    (hlen : head.usLen.toNat = body.length) (hfits : bodyMsgPos + body.length ≤ frameSize)
    (more : List UInt8) :
    ∃ head', head'.usMsgId = head.usMsgId ∧
      receive host' stack (frameOf host head body ++ more) = .ok (some (head', body)) := by
  have hsize : (frameOf host head body).length = frameSize := frameOf_length hfits
  obtain ⟨htype', hlen', hid'⟩ := headAt_frameOf_fields host host' head body
  have hne : frameOf host head body ++ more ≠ [] := by
    intro hnil
    rw [(List.append_eq_nil_iff.mp hnil).1] at hsize
    cases hsize
  have hbody : bytesFrom stack (frameOf host head body) bodyMsgPos head.usLen.toNat = body := by
    rw [hlen, bytesFrom_inside stack (by rwa [hsize]), body_frameOf]
  refine ⟨_, hid', ?_⟩
  rw [receive_eq, databuff_append hsize]
  dsimp only
  rw [if_neg (not_or.mpr ⟨hne, not_not.mpr (htype'.trans htype)⟩), hlen', hbody]

namespace Server

variable {parse : Parser}

/-- The effects of the server's callback on a login frame of the client. -/
theorem readCallBack_login (client server : ByteOrder) (stack : Stack)
    (head : StructProtocolHead) {m : ReqNodeLogin} (hparse : parse m.serialize = (true, m))
    (hshort : m.serialize.length ≤ 1000) (more : List UInt8) :
    NodeConnect.readCallBack server parse stack
        (frameOf client (ClientConnect.loginHead head m.serialize.length) m.serialize ++ more) =
      .ok [.decode MsgID.reqNodeLogin.code m.serialize, .setNodeName m.name,
        .addNode { strIp := m.ip, strCity := m.city, strName := m.name },
        .write (NodeConnect.loginReply server stack)] := by
  have hlen : (ClientConnect.loginHead head m.serialize.length).usLen.toNat =
      m.serialize.length := by
    rw [ClientConnect.loginHead, UInt16.toNat_ofNat']
    omega
  have hfits : bodyMsgPos + m.serialize.length ≤ frameSize := by
    unfold bodyMsgPos frameSize
    omega
  have htype : (ClientConnect.loginHead head m.serialize.length).ucType =
      ProtocolType.pb.code := rfl
  obtain ⟨head', hid, hreceive⟩ := receive_frameOf client server stack htype hlen hfits more
  have hlogin : head'.usMsgId = MsgID.reqNodeLogin.code := hid
  have hother : MsgID.reqNodeLogin.code ≠ MsgID.reqHeartBeat.code := by decide
  rw [NodeConnect.readCallBack, hreceive, ok_bind]
  dsimp only
  rw [hlogin, if_neg hother, if_pos rfl, NodeConnect.replyFrame_login, ok_bind,
    PbCodec.handleNodeOnlineReq, hparse]
  rfl

/-- The effects of the client's callback on the server's reply. -/
theorem readCB_loginReply (client server : ByteOrder) (stack stack' : Stack)
    (more : List UInt8) : ∃ body,
      ClientConnect.readCB client stack' (NodeConnect.loginReply server stack ++ more) =
        .ok [.decode MsgID.respNodeLogin.code body, .updateHeartTime, .startTimer] := by
  have htype : (NodeConnect.replyHead stack .respNodeLogin 3).ucType = ProtocolType.pb.code := rfl
  have hlen : (NodeConnect.replyHead stack .respNodeLogin 3).usLen.toNat =
      NodeConnect.loginResp.serialize.length := rfl
  obtain ⟨head', hid, hreceive⟩ := receive_frameOf server client stack' htype hlen (by decide) more
  have hlogin : head'.usMsgId = MsgID.respNodeLogin.code := hid
  refine ⟨NodeConnect.loginResp.serialize, ?_⟩
  rw [ClientConnect.readCB, NodeConnect.loginReply, hreceive, ok_bind]
  dsimp only
  rw [hlogin, if_pos rfl]
  rfl

/-- Reading the login and going on with the callback to its end. -/
def loginEvents (bev : Bev) (worker : Worker) (stack : Stack) (input : List UInt8) : List Event :=
  [.read bev stack input, .resume worker, .resume worker, .resume worker, .resume worker]

/-- What the callback of a login leaves behind. -/
theorem run_login {host : ByteOrder} {s : State} {bev : Bev} {v : BufferEvent} {x : NodeConnect}
    {stack : Stack} {input reply body : List UInt8} {msgId : UInt16} (info : NodeInfo)
    (hok : s.fault = none) (hbev : s.bevs[bev]? = some v) (hopen : v.freed = false)
    (hidle : s.pending v.base = []) (hx : s.heap v.arg = some x)
    (hactions : NodeConnect.readCallBack host parse stack input = .ok
      [.decode msgId body, .setNodeName info.strName, .addNode info, .write reply]) :
    ∃ s', (system host parse).runFrom s (loginEvents bev v.base stack input) = some s' ∧
      s'.fault = none ∧ s'.pending v.base = [] ∧
      s'.heap = Function.update s.heap v.arg (some { x with strNodeName := info.strName }) ∧
      s'.mapNode = s.mapNode.insert info.strIp v.arg ∧
      s'.written = Function.update s.written bev (s.written bev ++ [reply]) := by
  let task : NodeConnect.Action → Task := Task.mk bev v.arg
  let write : List Task := [task (.write reply)]
  let register := task (.addNode info) :: write
  let name := task (.setNodeName info.strName) :: register
  let decode := task (.decode msgId body) :: name
  let read : State := { s with
    pending := Function.update s.pending v.base decode
    reads := s.reads ++ [received host parse bev v.fd stack input] }
  let decoded : State := { read with pending := Function.update read.pending v.base name }
  let named : State := { decoded with
    pending := Function.update decoded.pending v.base register
    heap := Function.update s.heap v.arg (some { x with strNodeName := info.strName }) }
  let registered : State :=
    { named with pending := Function.update named.pending v.base write }.addNode bev v.arg info
  let done : State := { registered with
    pending := Function.update registered.pending v.base [] }.buffereventWrite bev reply
  have hread : (system host parse).step s (.read bev stack input) = some read :=
    step_read_of hok hbev hopen hidle hactions
  have hdecodes : read.pending v.base = decode := Function.update_self ..
  have hnames : decoded.pending v.base = name := Function.update_self ..
  have hregisters : named.pending v.base = register := Function.update_self ..
  have hwrites : registered.pending v.base = write := Function.update_self ..
  have hlive : { decoded with
    pending := Function.update decoded.pending v.base register }.heap v.arg = some x := hx
  have hset : { decoded with pending := Function.update decoded.pending v.base register }.perform
      (task (.setNodeName info.strName)) = named := State.setNodeName_live hlive info.strName
  have hokRead : read.fault = none := hok
  have hokDecoded : decoded.fault = none := hok
  have hokNamed : named.fault = none := hok
  have hokRegistered : registered.fault = none := hok
  have hdecode : (system host parse).step read (.resume v.base) = some decoded :=
    step_resume_of host parse hokRead hdecodes
  have hname : (system host parse).step decoded (.resume v.base) = some named :=
    (step_resume_of host parse hokDecoded hnames).trans (congrArg some hset)
  have hregister : (system host parse).step named (.resume v.base) = some registered :=
    step_resume_of host parse hokNamed hregisters
  have hwrite : (system host parse).step registered (.resume v.base) = some done :=
    step_resume_of host parse hokRegistered hwrites
  refine ⟨done, ?_, hok, Function.update_self .., rfl, rfl, rfl⟩
  rw [loginEvents, System.runFrom_cons hread, System.runFrom_cons hdecode,
    System.runFrom_cons hname, System.runFrom_cons hregister, System.runFrom_cons hwrite,
    System.runFrom_nil]

/-- The login of any node whose message fits: the client's frame, read on any
connection of the server, registers the ip and the name of that connection
and nothing else, and the one reply starts the client's heartbeat. -/
theorem login_endToEnd (client server : ByteOrder) (parse : Parser)
    (hparse : ∀ m : ReqNodeLogin, m.Utf8 → m.serialize.length ≤ 1000 →
      parse m.serialize = (true, m))
    (m : ReqNodeLogin) (hutf8 : m.Utf8) (hshort : m.serialize.length ≤ 1000)
    (head : StructProtocolHead) (s : State) (bev : Bev) (v : BufferEvent) (x : NodeConnect)
    (hok : s.fault = none) (hbev : s.bevs[bev]? = some v) (hopen : v.freed = false)
    (hidle : s.pending v.base = []) (hx : s.heap v.arg = some x)
    (stack stack' : Stack) (more more' : List UInt8) :
    ∃ frame reply s' body,
      ClientConnect.loginRequest client head m = .ok frame ∧ frame.length = frameSize ∧
      NodeConnect.readCallBack server parse stack (frame ++ more) =
        .ok [.decode MsgID.reqNodeLogin.code m.serialize, .setNodeName m.name,
          .addNode { strIp := m.ip, strCity := m.city, strName := m.name }, .write reply] ∧
      (system server parse).runFrom s (loginEvents bev v.base stack (frame ++ more)) = some s' ∧
      s'.fault = none ∧
      s'.heap v.arg = some { x with strNodeName := m.name } ∧
      s'.mapNode.lookup m.ip = some v.arg ∧
      (∀ ip, ip ≠ m.ip → s'.mapNode.lookup ip = s.mapNode.lookup ip) ∧
      s'.written = Function.update s.written bev (s.written bev ++ [reply]) ∧
      reply.length = frameSize ∧
      ClientConnect.readCB client stack' (reply ++ more') =
        .ok [.decode MsgID.respNodeLogin.code body, .updateHeartTime, .startTimer] := by
  have hfits : bodyMsgPos + m.serialize.length ≤ frameSize := by
    unfold bodyMsgPos frameSize
    omega
  have hreply : bodyMsgPos + NodeConnect.loginResp.serialize.length ≤ frameSize := by decide
  have hactions := readCallBack_login client server stack head (hparse m hutf8 hshort) hshort more
  obtain ⟨s', hrun, hfault, _, hheap, hmap, hwritten⟩ :=
    run_login { strIp := m.ip, strCity := m.city, strName := m.name } hok hbev hopen hidle hx
      hactions
  obtain ⟨body, hclient⟩ := readCB_loginReply client server stack stack' more'
  refine ⟨_, _, s', body, ClientConnect.loginRequest_eq client head hfits,
    frameOf_length hfits, hactions, hrun, hfault, ?_, ?_, ?_, hwritten, frameOf_length hreply,
    hclient⟩
  · rw [hheap, Function.update_self]
  · rw [hmap, AList.lookup_insert]
  · intro ip hip
    rw [hmap, AList.lookup_insert_ne hip]

/-- A server with one connection. -/
def oneConnection : State := { State.init with
  heap := Function.update State.init.heap 0 (some { sock := 0, base := 0, bev := some 0 })
  bevs := [{ fd := 0, base := 0, arg := 0 }]
  accepted := 1 }

/-- The login that the client sends, parsed by the generated parser. -/
theorem login_endToEnd_client : ∃ frame s',
    ClientConnect.reqLogin .little = .ok frame ∧
      (system .little ReqNodeLogin.parseFromIstream).runFrom oneConnection
        (loginEvents 0 0 .zeros (frame ++ [])) = some s' ∧
      s'.mapNode.lookup ClientConnect.loginMessage.ip = some 0 := by
  have hparse : ∀ m : ReqNodeLogin, m.Utf8 → m.serialize.length ≤ 1000 →
      ReqNodeLogin.parseFromIstream m.serialize = (true, m) :=
    fun m hutf8 hshort => ReqNodeLogin.parseWith_of_serialize ProtobufWire.wireReader_lawful hutf8
      (hshort.trans_lt (by decide))
  have hutf8 : ClientConnect.loginMessage.Utf8 :=
    ⟨ProtobufWire.validUtf8_ascii (by decide), ProtobufWire.validUtf8_ascii (by decide),
      ProtobufWire.validUtf8_ascii (by decide)⟩
  obtain ⟨frame, _, s', _, hframe, _, _, hrun, _, _, hlookup, _⟩ :=
    login_endToEnd .little .little ReqNodeLogin.parseFromIstream hparse
      ClientConnect.loginMessage hutf8 (by decide) ClientConnect.reqLoginHead oneConnection 0
      { fd := 0, base := 0, arg := 0 } { sock := 0, base := 0, bev := some 0 } rfl rfl rfl rfl rfl
      .zeros .zeros [] []
  exact ⟨frame, s', hframe, hrun, hlookup⟩

end Server

end NodeManager
