import NodeManager.CommonDef
import NodeManager.Library.ByteMemory
import NodeManager.Library.ProtobufWire

/-!
# The protobuf messages

The messages of `message.proto` as the generated `message.pb.cpp` sizes,
serializes and parses them, over the wire format of the protobuf runtime.
`ReqHeartBeat` and `RespHeartBeat` have no fields. Unknown fields are parsed
and dropped here; the runtime would keep them for a later serialization,
which no caller makes.
-/

namespace NodeManager

open ByteMemory ProtobufWire

/-- `message ReqNodeLogin`. -/
@[ext] structure ReqNodeLogin where
  /-- `string ip = 1`. -/
  ip : Str := []
  /-- `int32 port = 2`. -/
  port : Int32 := 0
  /-- `string city = 3`. -/
  city : Str := []
  /-- `string name = 4`. -/
  name : Str := []
  deriving DecidableEq

/-- `message RespNodeLogin`. -/
structure RespNodeLogin where
  /-- `int32 ret_code = 1`. -/
  retCode : Int32 := 0
  deriving DecidableEq

/-- A string field; proto3 leaves out the empty string. -/
def stringField (tag : UInt8) (s : Str) : List UInt8 :=
  if s = [] then [] else tag :: encodeBytes s

/-- An `int32` field, sign-extended to 64 bits; proto3 leaves out zero. -/
def int32Field (tag : UInt8) (v : Int32) : List UInt8 :=
  if v = 0 then [] else tag :: encodeVarint v.toInt64.toUInt64

/-- `WireFormatLite::StringSize`. -/
def stringSize (s : Str) : ℕ := (encodeVarint (UInt64.ofNat s.length)).length + s.length

/-- `WireFormatLite::Int32Size`. -/
def int32Size (v : Int32) : ℕ := (encodeVarint v.toInt64.toUInt64).length

namespace ReqNodeLogin

/-- `_InternalSerialize`: the fields in the order of their numbers. -/
def serialize (m : ReqNodeLogin) : List UInt8 :=
  stringField 10 m.ip ++ int32Field 16 m.port ++ stringField 26 m.city ++ stringField 34 m.name

/-- `ByteSizeLong`, which sums the strings before the port. -/
def byteSizeLong (m : ReqNodeLogin) : ℕ :=
  (if m.ip = [] then 0 else 1 + stringSize m.ip) +
    (if m.city = [] then 0 else 1 + stringSize m.city) +
    (if m.name = [] then 0 else 1 + stringSize m.name) +
    (if m.port = 0 then 0 else 1 + int32Size m.port)

/-- A string field in one round of the loop: the string is read into its place
and verified, and the loop goes on behind it if both succeed. -/
def parseString (r : Reader) (set : Str → ReqNodeLogin) (old : Str) (bs : List UInt8) :
    ReqNodeLogin × Option (List UInt8) :=
  let (s, rest) := r.readString old bs
  (set s, if r.verifyUtf8 s then rest else none)

/-- One round of the loop of `_InternalParse` behind the tag. An end-group tag or
a zero tag ends the loop before the end of the input, which the caller rejects. -/
def parseField (r : Reader) (m : ReqNodeLogin) (tag : UInt32) (bs : List UInt8) :
    ReqNodeLogin × Option (List UInt8) :=
  if tag = 10 then parseString r (fun ip => { m with ip }) m.ip bs
  else if tag = 16 then
    let (v, rest) := r.readVarint bs
    ({ m with port := v.toInt64.toInt32 }, rest)
  else if tag = 26 then parseString r (fun city => { m with city }) m.city bs
  else if tag = 34 then parseString r (fun name => { m with name }) m.name bs
  else if tag.toNat % 8 = 4 ∨ tag = 0 then (m, none)
  else (m, r.skipField tag bs)

/-- `_InternalParse` on a message and the unread bytes, with the verdict of
`ParseFromIstream`. Fields read before a failure stay in the message. -/
def internalParse (r : Reader) : ℕ → ReqNodeLogin → List UInt8 → Bool × ReqNodeLogin
  | 0, m, _ => (false, m)
  | _ + 1, m, [] => (true, m)
  | fuel + 1, m, b :: bs =>
    match r.readTag (b :: bs) with
    | none => (false, m)
    | some (tag, rest) =>
      match parseField r m tag rest with
      | (m, none) => (false, m)
      | (m, some rest) => internalParse r fuel m rest

/-- `ParseFromIstream` on a fresh message, over the reading functions of the
protobuf runtime; every round of the loop reads a tag, so the length of the
input bounds their number. -/
def parseWith (r : Reader) (bs : List UInt8) : Bool × ReqNodeLogin :=
  internalParse r (bs.length + 1) {} bs

/-- `ParseFromIstream` over reading functions that keep to the wire format. -/
def parseFromIstream : List UInt8 → Bool × ReqNodeLogin := parseWith wireReader

/-- All strings of the message are valid UTF-8. -/
def Utf8 (m : ReqNodeLogin) : Prop :=
  validUtf8 m.ip = true ∧ validUtf8 m.city = true ∧ validUtf8 m.name = true

end ReqNodeLogin

namespace RespNodeLogin

/-- `_InternalSerialize`. -/
def serialize (m : RespNodeLogin) : List UInt8 := int32Field 8 m.retCode

/-- `ByteSizeLong`. -/
def byteSizeLong (m : RespNodeLogin) : ℕ :=
  if m.retCode = 0 then 0 else 1 + int32Size m.retCode

end RespNodeLogin

/-- `SerializeToArray`: nothing is written when the message needs more than
`size` bytes; otherwise its bytes go to the offset in the buffer. -/
def serializeToArray (bytes : List UInt8) (buffer : List UInt8) (offset size : ℕ) :
    Except Fault (List UInt8) :=
  if size < bytes.length then .ok buffer else store buffer offset bytes

theorem stringField_length (tag : UInt8) (s : Str) :
    (stringField tag s).length = if s = [] then 0 else 1 + stringSize s := by
  unfold stringField
  split
  · rfl
  · rw [List.length_cons, encodeBytes, List.length_append, stringSize, Nat.add_comm]

theorem int32Field_length (tag : UInt8) (v : Int32) :
    (int32Field tag v).length = if v = 0 then 0 else 1 + int32Size v := by
  unfold int32Field
  split
  · rfl
  · rw [List.length_cons, int32Size, Nat.add_comm]

theorem ReqNodeLogin.byteSizeLong_eq (m : ReqNodeLogin) :
    m.byteSizeLong = m.serialize.length := by
  simp only [byteSizeLong, serialize, List.length_append, stringField_length, int32Field_length]
  omega

theorem RespNodeLogin.byteSizeLong_eq (m : RespNodeLogin) :
    m.byteSizeLong = m.serialize.length := by
  rw [byteSizeLong, serialize, int32Field_length]

end NodeManager
