import Mathlib.Data.Nat.Notation

/-!
# Message identifiers, formats, the protocol head and event flags

The enumerations of `commondef.h` and `dataProtocolHead.h` with the numbers
they stand for on the wire, the message head with its byte offsets, and the
flags with which a bufferevent reports what happened to its connection.
-/

namespace NodeManager

/-- Bytes of a `std::string`; the program never assumes an encoding. -/
abbrev Str := List UInt8

/-- `enum MsgID`: the business identifier of a message. -/
inductive MsgID
  | reqHeartBeat
  | reqNodeLogin
  | reqCloseNode
  | respHeartBeat
  | respNodeLogin
  deriving DecidableEq, Repr

/-- The number an identifier is stored as in `usMsgId`. -/
def MsgID.code : MsgID → UInt16
  | reqHeartBeat => 100
  | reqNodeLogin => 101
  | reqCloseNode => 102
  | respHeartBeat => 1000
  | respNodeLogin => 1001

/-- `enum PROTOCOL_TYPE`: the format of a message body. -/
inductive ProtocolType
  | json
  | pb
  | binary
  deriving DecidableEq, Repr

/-- The number a format is stored as in `ucType`. -/
def ProtocolType.code : ProtocolType → UInt8
  | json => 0
  | pb => 1
  | binary => 2

/-- `StructProtocolHead`, the head in front of every message body. -/
@[ext] structure StructProtocolHead where
  /-- Leading tag of a message. -/
  usTag : UInt16
  /-- Protocol version. -/
  ucVersion : UInt8
  /-- Format of the body, a `ProtocolType.code`. -/
  ucType : UInt8
  /-- Length of the body without the head. -/
  usLen : UInt16
  /-- Business identifier, a `MsgID.code`. -/
  usMsgId : UInt16
  /-- Serial number of the message. -/
  ullMsgSn : UInt64
  /-- Priority of the message. -/
  uiPriority : UInt32
  /-- Reserved field. -/
  uiReserver1 : UInt32
  deriving DecidableEq, Repr

/-- `HEAD_TAG_POS`. -/
def headTagPos : ℕ := 0
/-- `HEAD_VERSION_POS`. -/
def headVersionPos : ℕ := 2
/-- `HEAD_TYPER_POS`. -/
def headTyperPos : ℕ := 3
/-- `HEAD_LEN_POS`. -/
def headLenPos : ℕ := 4
/-- `HEAD_MSG_ID_POS`. -/
def headMsgIdPos : ℕ := 6
/-- `HEAD_MSG_SN_POS`. -/
def headMsgSnPos : ℕ := 8
/-- `HEAD_MSG_PRIORITY`. -/
def headMsgPriority : ℕ := 16
/-- `HEAD_MSG_RSV1`. -/
def headMsgRsv1 : ℕ := 20
/-- `BODY_MSG_POS`: where the body starts, behind the whole head. -/
def bodyMsgPos : ℕ := 24

/-- `BEV_EVENT_EOF`. -/
def bevEventEof : UInt16 := 0x10
/-- `BEV_EVENT_ERROR`. -/
def bevEventError : UInt16 := 0x20
/-- `BEV_EVENT_TIMEOUT`. -/
def bevEventTimeout : UInt16 := 0x40
/-- `BEV_EVENT_CONNECTED`. -/
def bevEventConnected : UInt16 := 0x80

end NodeManager
