import NodeManager.PbCodec

/-!
# The callbacks of a server connection

`NodeConnect::ReadCallBack` as the list of its effects in program order, so
that a run can interleave other threads between any two of them, together
with the frames that the server sends and the reports on which
`NodeConnect::ErrorCallBack` deletes its object. What the callback does
depends only on the bytes of one read.
-/

namespace NodeManager.NodeConnect

open ByteMemory

variable (host : ByteOrder) (parse : Parser)

/-- One effect of `ReadCallBack`, in the order in which they happen. -/
inductive Action
  /-- `pbMsg.Decode(head.usMsgId, databuff + BODY_MSG_POS, head.usLen)`. -/
  | decode (msgId : UInt16) (body : List UInt8)
  /-- `pThis->SetNodeName(info.strName)`. -/
  | setNodeName (name : Str)
  /-- `Global::GetInstance()->AddNode(info.strIp, pThis)`, for this login. -/
  | addNode (info : NodeInfo)
  /-- `bufferevent_write(bev, bufferSend, sizeof(bufferSend))`. -/
  | write (bytes : List UInt8)
  deriving DecidableEq

/-- The fields that every frame of the server fills in the same way. -/
def sendHead (stack : Stack) : StructProtocolHead :=
  { stack.head with
    usTag := 100
    ucVersion := 2
    ucType := ProtocolType.pb.code
    ullMsgSn := 101
    uiPriority := 789
    uiReserver1 := 456 }

/-- A reply frame for a serialized body of `nBodyDataLen` bytes. -/
def replyFrame (stack : Stack) (msgId : MsgID) (body : List UInt8) (nBodyDataLen : ℕ) :
    Except Fault (List UInt8) :=
  let headSend := { sendHead stack with
    usLen := UInt16.ofNat nBodyDataLen
    usMsgId := msgId.code }
  buildFrame host headSend body nBodyDataLen

/-- `RespNodeLogin` with the return code that every login is answered with. -/
def loginResp : RespNodeLogin := { retCode := 6789 }

/-- `NodeConnect::ReadCallBack` on the bytes that wait in the input buffer.
The write at the end is common to all identifiers. -/
def readCallBack (stack : Stack) (input : List UInt8) : Except Fault (List Action) := do
  match ← receive host stack input with
  | none => return []
  | some (head, body) =>
    if head.usMsgId = MsgID.reqHeartBeat.code then
      -- `RespHeartBeat` has no fields
      let bufferSend ← replyFrame host stack .respHeartBeat [] 0
      return [.decode head.usMsgId body, .write bufferSend]
    else if head.usMsgId = MsgID.reqNodeLogin.code then
      let info := PbCodec.handleNodeOnlineReq parse body
      let bufferSend ← replyFrame host stack .respNodeLogin loginResp.serialize
        loginResp.byteSizeLong
      return [.decode head.usMsgId body, .setNodeName info.strName, .addNode info,
        .write bufferSend]
    else return [.decode head.usMsgId body, .write (List.replicate frameSize 0)]

/-- The frame of `SendReqCloseNode`, whose `usLen` is never assigned. -/
def closeFrame (stack : Stack) : Except Fault (List UInt8) :=
  let headSend := { sendHead stack with usMsgId := MsgID.reqCloseNode.code }
  DataHeadCodec.encode host headSend (List.replicate frameSize 0) 1024

/-- `ErrorCallBack` deletes its object in each of its three branches. -/
def errorCallBackDeletes (what : UInt16) : Bool :=
  if what &&& bevEventError ≠ 0 then true
  else if what &&& bevEventTimeout ≠ 0 then true
  else if what &&& bevEventEof ≠ 0 then true
  else false

/-- The head of a reply to a login or a heartbeat. -/
def replyHead (stack : Stack) (msgId : MsgID) (len : UInt16) : StructProtocolHead :=
  { sendHead stack with usLen := len, usMsgId := msgId.code }

/-- The reply to a heartbeat request. -/
def heartBeatReply (stack : Stack) : List UInt8 :=
  frameOf host (replyHead stack .respHeartBeat 0) []

/-- The reply to a login request. -/
def loginReply (stack : Stack) : List UInt8 :=
  frameOf host (replyHead stack .respNodeLogin 3) loginResp.serialize

theorem replyFrame_heartBeat (stack : Stack) :
    replyFrame host stack .respHeartBeat [] 0 = .ok (heartBeatReply host stack) := by
  have hfits : bodyMsgPos + ([] : List UInt8).length ≤ frameSize := by decide
  exact buildFrame_eq host (replyHead stack .respHeartBeat 0) hfits

theorem replyFrame_login (stack : Stack) :
    replyFrame host stack .respNodeLogin loginResp.serialize loginResp.byteSizeLong =
      .ok (loginReply host stack) := by
  rw [RespNodeLogin.byteSizeLong_eq]
  exact buildFrame_eq host (replyHead stack .respNodeLogin 3) (by decide)

/-- The close frame carries whatever length the stack held. -/
theorem closeFrame_eq (stack : Stack) : closeFrame host stack =
    .ok (frameOf host { sendHead stack with usMsgId := MsgID.reqCloseNode.code } []) := by
  have hfits : bodyMsgPos ≤ (List.replicate frameSize (0 : UInt8)).length := by
    rw [List.length_replicate]
    decide
  rw [closeFrame, DataHeadCodec.encode_eq host _ (by decide) hfits, frameOf, List.append_nil]

/-- The effects of the callback for a message that passed the format test. -/
def handle (stack : Stack) (head : StructProtocolHead) (body : List UInt8) : List Action :=
  if head.usMsgId = MsgID.reqHeartBeat.code then
    [.decode head.usMsgId body, .write (heartBeatReply host stack)]
  else if head.usMsgId = MsgID.reqNodeLogin.code then
    let info := PbCodec.handleNodeOnlineReq parse body
    [.decode head.usMsgId body, .setNodeName info.strName, .addNode info,
      .write (loginReply host stack)]
  else [.decode head.usMsgId body, .write (List.replicate frameSize 0)]

/-- The callback never fails; it does nothing for an empty read or a foreign
format and otherwise what `handle` says. -/
theorem readCallBack_eq (stack : Stack) (input : List UInt8) :
    readCallBack host parse stack input = .ok (
      let head := DataHeadCodec.headAt host (databuff input)
      if input = [] ∨ head.ucType ≠ ProtocolType.pb.code then []
      else handle host parse stack head
        (bytesFrom stack (databuff input) bodyMsgPos head.usLen.toNat)) := by
  rw [readCallBack, receive_eq, ok_bind]
  dsimp only
  by_cases hskip : input = [] ∨
      (DataHeadCodec.headAt host (databuff input)).ucType ≠ ProtocolType.pb.code
  · rw [if_pos hskip, if_pos hskip]
    rfl
  · rw [if_neg hskip, if_neg hskip]
    dsimp only
    unfold handle
    split
    · rw [replyFrame_heartBeat, ok_bind]
      rfl
    · split
      · rw [replyFrame_login, ok_bind]
        rfl
      · rfl

end NodeManager.NodeConnect
