import NodeManager.PbCodec

/-!
# The callbacks of the client

`ClientConnect::ReadCB` as the list of its effects in program order, the two
requests that the client sends, and the event flags in the order in which
`ClientConnect::ErrorCB` tests them. Every field of the request heads is
assigned, so the requests do not depend on the stack.
-/

namespace NodeManager.ClientConnect

open ByteMemory

variable (host : ByteOrder)

/-- One effect of `ReadCB`, in the order in which they happen. -/
inductive Action
  /-- `pbMsg.Decode(head.usMsgId, databuff + BODY_MSG_POS, head.usLen)`. -/
  | decode (msgId : UInt16) (body : List UInt8)
  /-- `pthis->UpdateHeartTime()`. -/
  | updateHeartTime
  /-- `event_new`, `SetEvTimer` and `event_add` of a persistent timer. -/
  | startTimer
  /-- `exit(0)`. -/
  | exit
  deriving DecidableEq

/-- `ClientConnect::ReadCB` on the bytes that wait in the input buffer. -/
def readCB (stack : Stack) (input : List UInt8) : Except Fault (List Action) := do
  match ← receive host stack input with
  | none => return []
  | some (head, body) =>
    if head.usMsgId = MsgID.respNodeLogin.code then
      return [.decode head.usMsgId body, .updateHeartTime, .startTimer]
    else if head.usMsgId = MsgID.respHeartBeat.code then
      return [.decode head.usMsgId body, .updateHeartTime]
    else if head.usMsgId = MsgID.reqCloseNode.code then
      return [.decode head.usMsgId body, .exit]
    else return [.decode head.usMsgId body]

/-- The recipe of `ReqLogin` for any message and any other head fields. -/
def loginRequest (head : StructProtocolHead) (reqLogin : ReqNodeLogin) :
    Except Fault (List UInt8) :=
  let nBodyLen := reqLogin.byteSizeLong
  let head := { head with
    ucType := ProtocolType.pb.code
    usLen := UInt16.ofNat nBodyLen
    usMsgId := MsgID.reqNodeLogin.code }
  buildFrame host head reqLogin.serialize nBodyLen

/-- The bytes of a literal of the source. -/
def literal (s : String) : Str := s.toList.map fun c => UInt8.ofNat c.toNat

/-- The message that `ReqLogin` fills in. -/
def loginMessage : ReqNodeLogin where
  ip := literal "123.456.789.452"
  port := 105
  city := literal "guangzhou"
  name := literal "node_ms_01"

/-- The head of `ClientConnect::ReqLogin`; the recipe assigns length and
identifier. -/
def reqLoginHead : StructProtocolHead where
  usTag := 100
  ucVersion := 2
  ucType := ProtocolType.pb.code
  usLen := 0
  usMsgId := MsgID.reqNodeLogin.code
  ullMsgSn := 100
  uiPriority := 456
  uiReserver1 := 789

/-- The frame of `ClientConnect::ReqLogin`. -/
def reqLogin : Except Fault (List UInt8) := loginRequest host reqLoginHead loginMessage

/-- The head of `ClientConnect::ReqHeatBeat`; `ReqHeartBeat` has no fields. -/
def heatBeatHead : StructProtocolHead where
  usTag := 100
  ucVersion := 2
  ucType := ProtocolType.pb.code
  usLen := 0
  usMsgId := MsgID.reqHeartBeat.code
  ullMsgSn := 100
  uiPriority := 4789
  uiReserver1 := 54

/-- The frame of `ClientConnect::ReqHeatBeat`. -/
def reqHeatBeat : Except Fault (List UInt8) := buildFrame host heatBeatHead [] 0

/-- The effects of the callback for a message that passed the format test. -/
def handle (msgId : UInt16) (body : List UInt8) : List Action :=
  if msgId = MsgID.respNodeLogin.code then [.decode msgId body, .updateHeartTime, .startTimer]
  else if msgId = MsgID.respHeartBeat.code then [.decode msgId body, .updateHeartTime]
  else if msgId = MsgID.reqCloseNode.code then [.decode msgId body, .exit]
  else [.decode msgId body]

/-- The callback never fails; it does nothing for an empty read or a foreign
format and otherwise what `handle` says. -/
theorem readCB_eq (stack : Stack) (input : List UInt8) :
    readCB host stack input = .ok (
      let head := DataHeadCodec.headAt host (databuff input)
      if input = [] ∨ head.ucType ≠ ProtocolType.pb.code then []
      else handle head.usMsgId
        (bytesFrom stack (databuff input) bodyMsgPos head.usLen.toNat)) := by
  rw [readCB, receive_eq, ok_bind]
  dsimp only
  by_cases hskip : input = [] ∨
      (DataHeadCodec.headAt host (databuff input)).ucType ≠ ProtocolType.pb.code
  · rw [if_pos hskip, if_pos hskip]
    rfl
  · rw [if_neg hskip, if_neg hskip]
    dsimp only
    unfold handle
    split
    · rfl
    · split
      · rfl
      · split
        · rfl
        · rfl

/-- The read starts with the head of a protobuf message of the identifier. -/
def Receives (input : List UInt8) (id : MsgID) : Prop :=
  input ≠ [] ∧ (DataHeadCodec.headAt host (databuff input)).ucType = ProtocolType.pb.code ∧
    (DataHeadCodec.headAt host (databuff input)).usMsgId = id.code

instance (input : List UInt8) (id : MsgID) : Decidable (Receives host input id) :=
  inferInstanceAs (Decidable (_ ∧ _ ∧ _))

/-- The four ways in which the callback goes. -/
theorem readCB_cases (stack : Stack) (input : List UInt8) : ∃ msgId body,
    Receives host input .respNodeLogin ∧
        readCB host stack input = .ok [.decode msgId body, .updateHeartTime, .startTimer] ∨
      Receives host input .respHeartBeat ∧
        readCB host stack input = .ok [.decode msgId body, .updateHeartTime] ∨
      Receives host input .reqCloseNode ∧
        readCB host stack input = .ok [.decode msgId body, .exit] ∨
      (∀ id ∈ [.respNodeLogin, .respHeartBeat, .reqCloseNode], ¬Receives host input id) ∧
        (readCB host stack input = .ok [] ∨
          readCB host stack input = .ok [.decode msgId body]) := by
  rw [readCB_eq]
  dsimp only
  set head := DataHeadCodec.headAt host (databuff input) with hhead
  refine ⟨head.usMsgId, bytesFrom stack (databuff input) bodyMsgPos head.usLen.toNat, ?_⟩
  by_cases hskip : input = [] ∨ head.ucType ≠ ProtocolType.pb.code
  · rw [if_pos hskip]
    refine Or.inr (Or.inr (Or.inr ⟨fun id _ hid => ?_, Or.inl rfl⟩))
    rcases hskip with hempty | hformat
    · exact hid.1 hempty
    · exact hformat hid.2.1
  · obtain ⟨hread, hformat⟩ := not_or.mp hskip
    rw [if_neg hskip]
    unfold handle
    by_cases hlogin : head.usMsgId = MsgID.respNodeLogin.code
    · rw [if_pos hlogin]
      exact Or.inl ⟨⟨hread, not_not.mp hformat, hlogin⟩, rfl⟩
    · rw [if_neg hlogin]
      by_cases hheart : head.usMsgId = MsgID.respHeartBeat.code
      · rw [if_pos hheart]
        exact Or.inr (Or.inl ⟨⟨hread, not_not.mp hformat, hheart⟩, rfl⟩)
      · rw [if_neg hheart]
        by_cases hclose : head.usMsgId = MsgID.reqCloseNode.code
        · rw [if_pos hclose]
          exact Or.inr (Or.inr (Or.inl ⟨⟨hread, not_not.mp hformat, hclose⟩, rfl⟩))
        · rw [if_neg hclose]
          refine Or.inr (Or.inr (Or.inr ⟨fun id hid hreceives => ?_, Or.inr rfl⟩))
          have hcode := hreceives.2.2
          rw [List.mem_cons, List.mem_cons, List.mem_singleton] at hid
          rcases hid with rfl | rfl | rfl
          · exact hlogin hcode
          · exact hheart hcode
          · exact hclose hcode

/-- The head of a login request for a body of the given length. -/
def loginHead (head : StructProtocolHead) (len : ℕ) : StructProtocolHead :=
  { head with
    ucType := ProtocolType.pb.code
    usLen := UInt16.ofNat len
    usMsgId := MsgID.reqNodeLogin.code }

/-- The recipe succeeds on every message that fits behind the head. -/
theorem loginRequest_eq (head : StructProtocolHead) {m : ReqNodeLogin}
    (hfits : bodyMsgPos + m.serialize.length ≤ frameSize) : loginRequest host head m =
      .ok (frameOf host (loginHead head m.serialize.length) m.serialize) := by
  rw [loginRequest, ReqNodeLogin.byteSizeLong_eq]
  exact buildFrame_eq host (loginHead head m.serialize.length) hfits

/-- The frame that every login of the client writes. -/
def loginFrame : List UInt8 :=
  frameOf host (loginHead reqLoginHead loginMessage.serialize.length) loginMessage.serialize

/-- The frame that every heartbeat of the client writes. -/
def heatBeatFrame : List UInt8 := frameOf host heatBeatHead []

theorem reqLogin_eq : reqLogin host = .ok (loginFrame host) :=
  loginRequest_eq host reqLoginHead (by decide)

theorem reqHeatBeat_eq : reqHeatBeat host = .ok (heatBeatFrame host) := by
  have hfits : bodyMsgPos + ([] : List UInt8).length ≤ frameSize := by decide
  exact buildFrame_eq host heatBeatHead hfits

end NodeManager.ClientConnect
