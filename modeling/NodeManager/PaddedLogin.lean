import NodeManager.LoginEndToEnd
import NodeManager.MessageMerge
import NodeManager.ReceivedLengths

/-!
# Logins that claim too many bytes or arrive in part

`databuff` is zeroed before each read, and the zero tag ends the loop of the
parser. A login whose body was received whole is therefore registered with
its own fields, whatever longer body its head claims within `databuff`,
although the parser rejects it when the claim is longer.
-/

namespace NodeManager

open ByteMemory ProtobufWire

/-- A frame that was received up to the end of its body fills `databuff` as
the whole frame does. -/
theorem databuff_take_frameOf (host : ByteOrder) (head : StructProtocolHead) {body : List UInt8}
    {k : ℕ} (hfits : bodyMsgPos + body.length ≤ frameSize) (hk : bodyMsgPos + body.length ≤ k) :
    databuff ((frameOf host head body).take k) = frameOf host head body := by
  have hdone : (DataHeadCodec.headBytes host head ++ body).length =
      bodyMsgPos + body.length := by
    rw [List.length_append, DataHeadCodec.headBytes_length]
  obtain ⟨pad, hpad⟩ : ∃ pad, frameSize = bodyMsgPos + body.length + pad :=
    ⟨frameSize - (bodyMsgPos + body.length), by omega⟩
  obtain ⟨more, rfl⟩ : ∃ more, k = bodyMsgPos + body.length + more :=
    ⟨k - (bodyMsgPos + body.length), by omega⟩
  have hframe : frameOf host head body =
      (DataHeadCodec.headBytes host head ++ body) ++ List.replicate pad 0 := by
    rw [frameOf, overlay, hdone, List.drop_replicate, hpad, Nat.add_sub_cancel_left]
  have htake : (frameOf host head body).take (bodyMsgPos + body.length + more) =
      (DataHeadCodec.headBytes host head ++ body) ++ List.replicate (min more pad) 0 := by
    rw [hframe, ← hdone, List.take_length_add_append, List.take_replicate]
  have hshort : ((DataHeadCodec.headBytes host head ++ body) ++
      List.replicate (min more pad) (0 : UInt8)).length ≤ frameSize := by
    rw [List.length_append, hdone, List.length_replicate]
    omega
  have hrest : frameSize - (bodyMsgPos + body.length + min more pad) = pad - min more pad := by
    omega
  rw [databuff, htake, List.take_of_length_le hshort, overlay, List.length_append, hdone,
    List.length_replicate, List.drop_replicate, hrest, List.append_assoc,
    List.replicate_append_replicate, hframe]
  congr 2
  omega

/-- The body bytes that a long claim hands on. -/
theorem bytesFrom_frameOf (host : ByteOrder) (stack : Stack) (head : StructProtocolHead)
    {body : List UInt8} {len : ℕ} (hfits : bodyMsgPos + body.length < frameSize)
    (hlen : body.length ≤ len) :
    bytesFrom stack (frameOf host head body) bodyMsgPos len = body ∨
      ∃ more, bytesFrom stack (frameOf host head body) bodyMsgPos len = body ++ 0 :: more := by
  have hdone : (DataHeadCodec.headBytes host head ++ body).length =
      bodyMsgPos + body.length := by
    rw [List.length_append, DataHeadCodec.headBytes_length]
  obtain ⟨pad, hpad⟩ : ∃ pad, frameSize = bodyMsgPos + body.length + (pad + 1) :=
    ⟨frameSize - (bodyMsgPos + body.length) - 1, by omega⟩
  obtain ⟨more, rfl⟩ : ∃ more, len = body.length + more := ⟨len - body.length, by omega⟩
  have hdrop : (frameOf host head body).drop bodyMsgPos = body ++ 0 :: List.replicate pad 0 := by
    have hhead := DataHeadCodec.headBytes_length host head
    rw [frameOf, overlay, hdone, List.drop_replicate, hpad, Nat.add_sub_cancel_left,
      List.append_assoc, ← hhead, List.drop_left, List.replicate_succ]
  cases more with
  | zero =>
    refine Or.inl ?_
    rw [bytesFrom_inside stack (by rw [frameOf_length hfits.le]; omega), Nat.add_zero,
      body_frameOf]
  | succ more =>
    refine Or.inr ⟨(List.replicate pad 0).take more ++ (List.range (body.length + (more + 1) -
      ((frameOf host head body).length - bodyMsgPos))).map stack.beyond, ?_⟩
    rw [bytesFrom, hdrop, List.take_length_add_append, List.take_succ_cons, List.append_assoc,
      List.cons_append]

namespace Server

/-- The effects of the callback on a login that was received up to the end of
its body or further and claims at least its body. -/
theorem readCallBack_padded {r : Reader} (hr : r.Lawful) (client server : ByteOrder)
    (stack : Stack) {head : StructProtocolHead} {body : List UInt8} {m : ReqNodeLogin} {k : ℕ}
    (haccepted : ReqNodeLogin.parseWith r body = (true, m))
    (htype : head.ucType = ProtocolType.pb.code)
    (hid : head.usMsgId = MsgID.reqNodeLogin.code)
    (hfits : bodyMsgPos + body.length < frameSize) (hlen : body.length ≤ head.usLen.toNat)
    (hinside : head.usLen.toNat ≤ frameSize - bodyMsgPos) (hk : bodyMsgPos + body.length ≤ k) :
    ∃ handed, NodeConnect.readCallBack server (ReqNodeLogin.parseWith r) stack
        ((frameOf client head body).take k) =
      .ok [.decode MsgID.reqNodeLogin.code handed, .setNodeName m.name,
        .addNode { strIp := m.ip, strCity := m.city, strName := m.name },
        .write (NodeConnect.loginReply server stack)] := by
  obtain ⟨htype', hlen', hid'⟩ := headAt_frameOf_fields client server head body
  have hne : (frameOf client head body).take k ≠ [] := by
    rw [← List.length_pos_iff, List.length_take, frameOf_length hfits.le]
    unfold bodyMsgPos frameSize at *
    omega
  have hshort : (bytesFrom stack (frameOf client head body) bodyMsgPos
      head.usLen.toNat).length < sizeLimit := by
    rw [bytesFrom_inside stack (by rw [frameOf_length hfits.le]; omega), List.length_take]
    exact (Nat.min_le_left _ _).trans_lt (hinside.trans_lt (by decide))
  have hmessage : (ReqNodeLogin.parseWith r
      (bytesFrom stack (frameOf client head body) bodyMsgPos head.usLen.toNat)).2 = m := by
    rcases bytesFrom_frameOf client stack head hfits hlen with hbody | ⟨more, hbody⟩
    · rw [hbody, haccepted]
    · rw [hbody] at hshort
      rw [hbody, ReqNodeLogin.parseWith_append_zero hr more hshort haccepted]
  have hother : MsgID.reqNodeLogin.code ≠ MsgID.reqHeartBeat.code := by decide
  refine ⟨bytesFrom stack (frameOf client head body) bodyMsgPos head.usLen.toNat, ?_⟩
  rw [NodeConnect.readCallBack_eq, databuff_take_frameOf client head hfits.le hk]
  dsimp only
  rw [if_neg (not_or.mpr ⟨hne, not_not.mpr (htype'.trans htype)⟩), NodeConnect.handle, hid',
    hlen', hid, if_neg hother, if_pos rfl, PbCodec.handleNodeOnlineReq]
  dsimp only
  rw [hmessage]

/-- On any connection such a login registers exactly the fields of its body
and is answered once. -/
theorem run_paddedLogin {r : Reader} (hr : r.Lawful) (client server : ByteOrder) {s : State}
    {bev : Bev} {v : BufferEvent} {x : NodeConnect} {stack : Stack} {head : StructProtocolHead}
    {body : List UInt8} {m : ReqNodeLogin} {k : ℕ} (hok : s.fault = none)
    (hbev : s.bevs[bev]? = some v) (hopen : v.freed = false) (hidle : s.pending v.base = [])
    (hx : s.heap v.arg = some x) (haccepted : ReqNodeLogin.parseWith r body = (true, m))
    (htype : head.ucType = ProtocolType.pb.code)
    (hid : head.usMsgId = MsgID.reqNodeLogin.code)
    (hfits : bodyMsgPos + body.length < frameSize) (hlen : body.length ≤ head.usLen.toNat)
    (hinside : head.usLen.toNat ≤ frameSize - bodyMsgPos) (hk : bodyMsgPos + body.length ≤ k) :
    ∃ s', (system server (ReqNodeLogin.parseWith r)).runFrom s
        (loginEvents bev v.base stack ((frameOf client head body).take k)) = some s' ∧
      s'.fault = none ∧ s'.pending v.base = [] ∧
      s'.heap = Function.update s.heap v.arg (some { x with strNodeName := m.name }) ∧
      s'.mapNode = s.mapNode.insert m.ip v.arg ∧
      s'.written = Function.update s.written bev
        (s.written bev ++ [NodeConnect.loginReply server stack]) := by
  obtain ⟨handed, hactions⟩ :=
    readCallBack_padded hr client server stack haccepted htype hid hfits hlen hinside hk
  exact run_login { strIp := m.ip, strCity := m.city, strName := m.name } hok hbev hopen hidle hx
    hactions

/-- The head of the client's login with the longest claim that `databuff` holds. -/
def longestClaim : StructProtocolHead := { ClientConnect.reqLoginHead with
  ucType := ProtocolType.pb.code, usMsgId := MsgID.reqNodeLogin.code, usLen := 1000 }

/-- The client's login behind it, received up to its last field. -/
theorem run_paddedLogin_client : ∃ s',
    (system .little (ReqNodeLogin.parseWith wireReader)).runFrom oneConnection
      (loginEvents 0 0 .zeros ((frameOf .big longestClaim
        ClientConnect.loginMessage.serialize).take 100)) = some s' ∧
      s'.mapNode.lookup ClientConnect.loginMessage.ip = some 0 := by
  have hutf8 : ClientConnect.loginMessage.Utf8 :=
    ⟨validUtf8_ascii (by decide), validUtf8_ascii (by decide), validUtf8_ascii (by decide)⟩
  have hbev : oneConnection.bevs[0]? = some { fd := 0, base := 0, arg := 0 } := rfl
  have hx : oneConnection.heap 0 = some { sock := 0, base := 0, bev := some 0 } := rfl
  have hlen : ClientConnect.loginMessage.serialize.length ≤ longestClaim.usLen.toNat := by
    decide
  obtain ⟨s', hrun, _, _, _, hmap, _⟩ := run_paddedLogin wireReader_lawful .big .little (k := 100)
    rfl hbev rfl rfl hx
    (ReqNodeLogin.parseWith_of_serialize wireReader_lawful hutf8 (by decide)) rfl rfl
    (by decide) hlen (by decide) (by decide)
  refine ⟨s', hrun, ?_⟩
  rw [hmap, AList.lookup_insert]

end Server

end NodeManager
