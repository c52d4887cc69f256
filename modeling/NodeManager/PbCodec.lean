import NodeManager.HeadRoundTrip
import NodeManager.Message

/-!
# Receiving and building frames

The common start of both read callbacks (one `bufferevent_read` into a
zeroed `databuff`, decode the head, test the format, hand the body to
`PbCodec`) and the recipe that every sender repeats (encode a head into a
zeroed buffer of 1024 bytes, serialize the body behind it). Memory that the
code reads without having written it is an explicit argument.
-/

namespace NodeManager

open ByteMemory

/-- Bytes of a frame, of `databuff` and of every send buffer. -/
def frameSize : ℕ := 1024

/-- What a callback finds in memory it has not written. -/
structure Stack where
  /-- The bytes behind the end of `databuff`. -/
  beyond : ℕ → UInt8
  /-- The contents of a `StructProtocolHead` without initializer. -/
  head : StructProtocolHead

/-- A stack that happens to hold zeros. -/
def Stack.zeros : Stack := ⟨fun _ => 0, ⟨0, 0, 0, 0, 0, 0, 0, 0⟩⟩

/-- The answer of `ParseFromIstream` on a body and the message it leaves. -/
abbrev Parser := List UInt8 → Bool × ReqNodeLogin

/-- `NodeInfo`; its `port` is never assigned and never read. -/
structure NodeInfo where
  strIp : Str
  strCity : Str
  strName : Str
  deriving DecidableEq

namespace PbCodec

/-- `PbCodec::HandleNodeOnlineReq`: the verdict of the parser is not looked at. -/
def handleNodeOnlineReq (parse : Parser) (buffer : List UInt8) : NodeInfo :=
  let req := (parse buffer).2
  { strIp := req.ip, strCity := req.city, strName := req.name }

/-- The cases of the `switch` in `PbCodec::Decode`. -/
inductive Branch
  | nodeOnlineReq (info : NodeInfo)
  | nodeOnlineResp
  | heartBeatReq
  | heartBeatResp
  | invalid
  deriving DecidableEq

/-- `PbCodec::Decode`, as the case taken; apart from logging it has no effect. -/
def decode (parse : Parser) (msgId : UInt16) (buffer : List UInt8) : Branch :=
  if msgId = MsgID.reqNodeLogin.code then .nodeOnlineReq (handleNodeOnlineReq parse buffer)
  else if msgId = MsgID.respNodeLogin.code then .nodeOnlineResp
  else if msgId = MsgID.reqHeartBeat.code then .heartBeatReq
  else if msgId = MsgID.respHeartBeat.code then .heartBeatResp
  else .invalid

end PbCodec

/-- `databuff` after one `bufferevent_read`: at most 1024 bytes of the input
over a zeroed array. -/
def databuff (input : List UInt8) : List UInt8 :=
  overlay (input.take frameSize) (List.replicate frameSize 0)

/-- The `len` bytes from an offset in `databuff` on, reaching past its end
where they do not fit. -/
def bytesFrom (stack : Stack) (buffer : List UInt8) (offset len : ℕ) : List UInt8 :=
  (buffer.drop offset).take len ++
    (List.range (len - (buffer.length - offset))).map stack.beyond

/-- Read once, decode the head, and give up unless the format is protobuf;
the result is the head with the bytes that `PbCodec::Decode` is handed. -/
def receive (host : ByteOrder) (stack : Stack) (input : List UInt8) :
    Except Fault (Option (StructProtocolHead × List UInt8)) := do
  if input = [] then return none
  else
    let head ← DataHeadCodec.decode host (databuff input) 1024
    if head.ucType ≠ ProtocolType.pb.code then return none
    else return some (head, bytesFrom stack (databuff input) bodyMsgPos head.usLen.toNat)

@[simp] theorem databuff_length (input : List UInt8) : (databuff input).length = frameSize := by
  rw [databuff, overlay_length] <;> simp only [List.length_take, List.length_replicate]
  omega

/-- A whole frame fills `databuff`, so more bytes behind it do not reach it. -/
theorem databuff_append {frame : List UInt8} (h : frame.length = frameSize) (more : List UInt8) :
    databuff (frame ++ more) = frame := by
  have htake : (frame ++ more).take frameSize = frame := by
    rw [← h, List.take_left]
  have hdrop : (List.replicate frameSize (0 : UInt8)).drop frame.length = [] :=
    List.drop_of_length_le (by rw [List.length_replicate, h])
  rw [databuff, htake, overlay, hdrop, List.append_nil]

theorem databuff_frame {frame : List UInt8} (h : frame.length = frameSize) :
    databuff frame = frame := by
  have hnone := databuff_append h []
  rwa [List.append_nil] at hnone

/-- Body bytes that lie inside the buffer do not depend on what is behind it. -/
theorem bytesFrom_inside (stack : Stack) {buffer : List UInt8} {offset len : ℕ}
    (h : offset + len ≤ buffer.length) :
    bytesFrom stack buffer offset len = (buffer.drop offset).take len := by
  have hnone : len - (buffer.length - offset) = 0 := by omega
  rw [bytesFrom, hnone, List.range_zero, List.map_nil, List.append_nil]

@[simp] theorem bytesFrom_length (stack : Stack) (buffer : List UInt8) (offset len : ℕ) :
    (bytesFrom stack buffer offset len).length = len := by
  rw [bytesFrom, List.length_append, List.length_take, List.length_drop, List.length_map,
    List.length_range]
  omega

/-- Decoding the head of `databuff` never fails. -/
theorem receive_eq (host : ByteOrder) (stack : Stack) (input : List UInt8) :
    receive host stack input = .ok (
      let head := DataHeadCodec.headAt host (databuff input)
      if input = [] ∨ head.ucType ≠ ProtocolType.pb.code then none
      else some (head, bytesFrom stack (databuff input) bodyMsgPos head.usLen.toNat)) := by
  have hdecode : DataHeadCodec.decode host (databuff input) 1024 =
      .ok (DataHeadCodec.headAt host (databuff input)) :=
    DataHeadCodec.decode_eq host (by decide) (by rw [databuff_length]; decide)
  rw [receive, hdecode, ok_bind]
  by_cases hempty : input = []
  · rw [if_pos hempty, if_pos (Or.inl hempty)]
    rfl
  · rw [if_neg hempty]
    by_cases htype : (DataHeadCodec.headAt host (databuff input)).ucType ≠ ProtocolType.pb.code
    · rw [if_pos htype, if_pos (Or.inr htype)]
      rfl
    · rw [if_neg htype, if_neg (not_or.mpr ⟨hempty, htype⟩)]
      rfl

/-- Encode the head into a zeroed buffer and serialize the body behind it. -/
def buildFrame (host : ByteOrder) (head : StructProtocolHead) (body : List UInt8) (size : ℕ) :
    Except Fault (List UInt8) := do
  let buffer ← DataHeadCodec.encode host head (List.replicate frameSize 0) 1024
  serializeToArray body buffer bodyMsgPos size

/-- A frame with the given head and body, padded with zeros. -/
def frameOf (host : ByteOrder) (head : StructProtocolHead) (body : List UInt8) : List UInt8 :=
  overlay (DataHeadCodec.headBytes host head ++ body) (List.replicate frameSize 0)

/-- The recipe succeeds on every body that fits behind the head. -/
theorem buildFrame_eq (host : ByteOrder) (head : StructProtocolHead) {body : List UInt8}
    (hbody : bodyMsgPos + body.length ≤ frameSize) :
    buildFrame host head body body.length = .ok (frameOf host head body) := by
  have hencode : DataHeadCodec.encode host head (List.replicate frameSize 0) 1024 =
      .ok (overlay (DataHeadCodec.headBytes host head) (List.replicate frameSize 0)) :=
    DataHeadCodec.encode_eq host head (by decide) (by rw [List.length_replicate]; decide)
  rw [buildFrame, hencode, ok_bind, serializeToArray, if_neg (Nat.lt_irrefl _),
    store_overlay (DataHeadCodec.headBytes_length host head) (by rwa [List.length_replicate])]
  rfl

theorem frameOf_length {host : ByteOrder} {head : StructProtocolHead} {body : List UInt8}
    (hbody : bodyMsgPos + body.length ≤ frameSize) :
    (frameOf host head body).length = frameSize := by
  rw [frameOf, overlay_length, List.length_replicate]
  rwa [List.length_append, DataHeadCodec.headBytes_length, List.length_replicate]

/-- The receiver of a frame reads its head up to the losses of the codec. -/
theorem headAt_frameOf (host : ByteOrder) (head : StructProtocolHead) (body : List UInt8) :
    DataHeadCodec.headAt host (frameOf host head body) = DataHeadCodec.roundTripped host head := by
  refine DataHeadCodec.headAt_of_headBytes host ?_
  rw [frameOf, overlay, List.append_assoc]
  exact List.prefix_append _ _

/-- What either host reads of a frame that the other one built. -/
theorem headAt_frameOf_fields (host host' : ByteOrder) (head : StructProtocolHead)
    (body : List UInt8) :
    (DataHeadCodec.headAt host' (frameOf host head body)).ucType = head.ucType ∧
      (DataHeadCodec.headAt host' (frameOf host head body)).usLen = head.usLen ∧
      (DataHeadCodec.headAt host' (frameOf host head body)).usMsgId = head.usMsgId := by
  have hread := headAt_frameOf host head body
  -- these fields do not depend on the host that reads
  exact ⟨congrArg (·.ucType) hread, congrArg (·.usLen) hread, congrArg (·.usMsgId) hread⟩

/-- The body of a frame stands behind its head. -/
theorem body_frameOf (host : ByteOrder) (head : StructProtocolHead) (body : List UInt8) :
    ((frameOf host head body).drop bodyMsgPos).take body.length = body := by
  have hhead := DataHeadCodec.headBytes_length host head
  rw [frameOf, overlay, List.append_assoc, ← hhead, List.drop_left, List.take_left]

theorem decode_frameOf {host : ByteOrder} {head : StructProtocolHead} {body : List UInt8}
    (hbody : bodyMsgPos + body.length ≤ frameSize) :
    DataHeadCodec.decode host (frameOf host head body) 1024 =
      .ok (DataHeadCodec.roundTripped host head) := by
  have hhead : bodyMsgPos ≤ (frameOf host head body).length := by
    rw [frameOf_length hbody]
    decide
  rw [DataHeadCodec.decode_eq host (by decide) hhead, headAt_frameOf]

end NodeManager
