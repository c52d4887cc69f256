import NodeManager.CommonDef
import NodeManager.Library.ByteMemory

/-!
# The head codec

`DataHeadCodec` of `dataProtocolHead.cpp` over checked byte buffers, for a
host of either byte order. Every accessor keeps its own assertion as the
source has it. The 32-bit accessors go through the 16-bit swaps `htons` and
`ntohs`, and the 64-bit setter overwrites its first copy with the second.
-/

namespace NodeManager.DataHeadCodec

open ByteMemory

variable (host : ByteOrder)

/-- `htons`: the host word whose bytes are the network bytes of the value. -/
def htons (v : UInt16) : UInt16 := UInt16.ofNat (host.value (ByteOrder.big.bytes 2 v.toNat))

/-- `htonl`, the same for 32 bits. -/
def htonl (v : UInt32) : UInt32 := UInt32.ofNat (host.value (ByteOrder.big.bytes 4 v.toNat))

/-- `ntohs`: the value whose network bytes are the bytes of the host word. -/
def ntohs (v : UInt16) : UInt16 := UInt16.ofNat (ByteOrder.big.value (host.bytes 2 v.toNat))

/-- `GetByte`; its assertion admits the offset one past the end. -/
def getByte (buffer : List UInt8) (unSize : UInt32) (unOffset : ℕ) : Except Fault UInt8 := do
  check (unOffset ≤ unSize.toNat)
  let bytes ← load buffer unOffset 1
  return bytes.headD 0

/-- `GetUnsignedShort`. -/
def getUnsignedShort (buffer : List UInt8) (unSize : UInt32) (unOffset : ℕ) :
    Except Fault UInt16 := do
  check (unOffset + 2 ≤ unSize.toNat)
  let bytes ← load buffer unOffset 2
  return ntohs host (UInt16.ofNat (host.value bytes))

/-- `GetUnsignedInt`: the assertion is commented out, and `ntohs` narrows the
loaded word to 16 bits. -/
def getUnsignedInt (buffer : List UInt8) (unOffset : ℕ) : Except Fault UInt32 := do
  let bytes ← load buffer unOffset 4
  let val := UInt32.ofNat (host.value bytes)
  return (ntohs host val.toUInt16).toUInt32

/-- `GetUnsignedLonglong`, from two 32-bit reads. -/
def getUnsignedLonglong (buffer : List UInt8) (unOffset : ℕ) : Except Fault UInt64 := do
  let high ← getUnsignedInt host buffer unOffset
  let low ← getUnsignedInt host buffer (unOffset + 4)
  return high.toUInt64 <<< 32 ||| low.toUInt64

/-- `SetByte`. -/
def setByte (buffer : List UInt8) (unSize : UInt32) (unOffset : ℕ) (ucVal : UInt8) :
    Except Fault (List UInt8) := do
  check (unOffset + 1 ≤ unSize.toNat)
  store buffer unOffset [ucVal]

/-- `SetUnsignedShort`; its assertion leaves room for one byte only. -/
def setUnsignedShort (buffer : List UInt8) (unSize : UInt32) (unOffset : ℕ) (usVal : UInt16) :
    Except Fault (List UInt8) := do
  check (unOffset + 1 ≤ unSize.toNat)
  let temp := htons host usVal
  store buffer unOffset (host.bytes 2 temp.toNat)

/-- `SetUnsignedInt`: the value is narrowed to 16 bits by `htons`. -/
def setUnsignedInt (buffer : List UInt8) (unSize : UInt32) (unOffset : ℕ) (unVal : UInt32) :
    Except Fault (List UInt8) := do
  check (unOffset + 1 ≤ unSize.toNat)
  let temp : UInt32 := (htons host unVal.toUInt16).toUInt32
  store buffer unOffset (host.bytes 4 temp.toNat)

/-- `SetUnsignedLonglong`: the low half is stored first, then eight bytes of
the shifted value, in host order, go over both halves. -/
def setUnsignedLonglong (buffer : List UInt8) (unSize : UInt32) (unOffset : ℕ)
    (ullVal : UInt64) : Except Fault (List UInt8) := do
  check (unOffset + 1 ≤ unSize.toNat)
  let temp := htonl host ullVal.toUInt32
  let buffer ← store buffer (unOffset + 4) (host.bytes 4 temp.toNat)
  -- the second `htonl` of the source goes into `temp`, which is not read again
  store buffer unOffset (host.bytes 8 (ullVal >>> 32).toNat)

/-- `DataHeadCodec::Decode`. -/
def decode (buffer : List UInt8) (unSize : UInt32) : Except Fault StructProtocolHead := do
  let usTag ← getUnsignedShort host buffer unSize headTagPos
  let ucVersion ← getByte buffer unSize headVersionPos
  let ucType ← getByte buffer unSize headTyperPos
  let usLen ← getUnsignedShort host buffer unSize headLenPos
  let usMsgId ← getUnsignedShort host buffer unSize headMsgIdPos
  let ullMsgSn ← getUnsignedLonglong host buffer headMsgSnPos
  let uiPriority ← getUnsignedInt host buffer headMsgPriority
  let uiReserver1 ← getUnsignedInt host buffer headMsgRsv1
  return { usTag, ucVersion, ucType, usLen, usMsgId, ullMsgSn, uiPriority, uiReserver1 }

/-- `DataHeadCodec::Encode`. -/
def encode (head : StructProtocolHead) (buffer : List UInt8) (unSize : UInt32) :
    Except Fault (List UInt8) := do
  let buffer ← setUnsignedShort host buffer unSize headTagPos head.usTag
  let buffer ← setByte buffer unSize headVersionPos head.ucVersion
  let buffer ← setByte buffer unSize headTyperPos head.ucType
  let buffer ← setUnsignedShort host buffer unSize headLenPos head.usLen
  let buffer ← setUnsignedShort host buffer unSize headMsgIdPos head.usMsgId
  let buffer ← setUnsignedLonglong host buffer unSize headMsgSnPos head.ullMsgSn
  let buffer ← setUnsignedInt host buffer unSize headMsgPriority head.uiPriority
  setUnsignedInt host buffer unSize headMsgRsv1 head.uiReserver1

/-- Bytes that `setUnsignedInt` stores. -/
def intBytes (v : UInt32) : List UInt8 := host.bytes 4 (htons host v.toUInt16).toNat

/-- Bytes that `setUnsignedLonglong` leaves behind. -/
def longlongBytes (v : UInt64) : List UInt8 := host.bytes 8 (v >>> 32).toNat

/-- The 24 bytes that `encode` puts in front of the body. -/
def headBytes (head : StructProtocolHead) : List UInt8 :=
  ByteOrder.big.bytes 2 head.usTag.toNat ++ [head.ucVersion] ++ [head.ucType] ++
    ByteOrder.big.bytes 2 head.usLen.toNat ++ ByteOrder.big.bytes 2 head.usMsgId.toNat ++
    longlongBytes host head.ullMsgSn ++ intBytes host head.uiPriority ++
    intBytes host head.uiReserver1

@[simp] theorem intBytes_length (v : UInt32) : (intBytes host v).length = 4 :=
  host.bytes_length _ _

@[simp] theorem longlongBytes_length (v : UInt64) : (longlongBytes host v).length = 8 :=
  host.bytes_length _ _

@[simp] theorem headBytes_length (head : StructProtocolHead) :
    (headBytes host head).length = bodyMsgPos := by
  simp only [headBytes, List.length_append, ByteOrder.bytes_length, List.length_cons,
    List.length_nil, longlongBytes_length, intBytes_length, bodyMsgPos]

/-- In host memory the word made by `htons` reads as the network bytes. -/
theorem bytes_htons (v : UInt16) :
    host.bytes 2 (htons host v).toNat = ByteOrder.big.bytes 2 v.toNat := by
  have hlen := ByteOrder.big.bytes_length 2 v.toNat
  have hlt := host.value_lt (ByteOrder.big.bytes 2 v.toNat)
  have hval := host.bytes_value (ByteOrder.big.bytes 2 v.toNat)
  rw [hlen] at hlt hval
  have hnat : (htons host v).toNat = host.value (ByteOrder.big.bytes 2 v.toNat) := by
    rw [htons, UInt16.toNat_ofNat', Nat.mod_eq_of_lt (by simpa using hlt)]
  rw [hnat, hval]

/-- `ntohs` of two loaded bytes is their network value on every host. -/
theorem ntohs_value {bs : List UInt8} (hbs : bs.length = 2) :
    ntohs host (UInt16.ofNat (host.value bs)) = UInt16.ofNat (ByteOrder.big.value bs) := by
  have hlt := host.value_lt bs
  have hval := host.bytes_value bs
  rw [hbs] at hlt hval
  rw [ntohs, UInt16.toNat_ofNat', Nat.mod_eq_of_lt (by simpa using hlt), hval]

theorem ntohs_htons (v : UInt16) : ntohs host (htons host v) = v := by
  have h := ByteOrder.big.value_bytes 2 v.toNat
  have hlt : v.toNat < 256 ^ 2 := v.toNat_lt
  rw [Nat.mod_eq_of_lt hlt] at h
  rw [ntohs, bytes_htons, h, UInt16.ofNat_toNat]

section Setters

variable {host} {unSize : UInt32} {offset : ℕ} {done buffer : List UInt8}

theorem setByte_overlay {v : UInt8} (ho : done.length = offset)
    (hsize : offset + 1 ≤ unSize.toNat) (hbuffer : offset + 1 ≤ buffer.length) :
    setByte (overlay done buffer) unSize offset v = .ok (overlay (done ++ [v]) buffer) := by
  rw [setByte, check_of hsize]
  exact store_overlay ho hbuffer

theorem setUnsignedShort_overlay {v : UInt16} (ho : done.length = offset)
    (hsize : offset + 1 ≤ unSize.toNat) (hbuffer : offset + 2 ≤ buffer.length) :
    setUnsignedShort host (overlay done buffer) unSize offset v =
      .ok (overlay (done ++ ByteOrder.big.bytes 2 v.toNat) buffer) := by
  have hlen := ByteOrder.big.bytes_length 2 v.toNat
  rw [setUnsignedShort, check_of hsize, ok_bind]
  dsimp only
  rw [bytes_htons]
  exact store_overlay ho (by rwa [hlen])

theorem setUnsignedInt_overlay {v : UInt32} (ho : done.length = offset)
    (hsize : offset + 1 ≤ unSize.toNat) (hbuffer : offset + 4 ≤ buffer.length) :
    setUnsignedInt host (overlay done buffer) unSize offset v =
      .ok (overlay (done ++ intBytes host v) buffer) := by
  have hlen := intBytes_length host v
  have hstore : store (overlay done buffer) offset (intBytes host v) =
      .ok (overlay (done ++ intBytes host v) buffer) := store_overlay ho (by rwa [hlen])
  rw [setUnsignedInt, check_of hsize, ok_bind]
  dsimp only
  rw [UInt16.toNat_toUInt32]
  exact hstore

/-- The first copy lies inside the range of the second and leaves no trace. -/
theorem setUnsignedLonglong_overlay {v : UInt64} (ho : done.length = offset)
    (hsize : offset + 1 ≤ unSize.toNat) (hbuffer : offset + 8 ≤ buffer.length) :
    setUnsignedLonglong host (overlay done buffer) unSize offset v =
      .ok (overlay (done ++ longlongBytes host v) buffer) := by
  have hlen := longlongBytes_length host v
  have hfour := host.bytes_length 4 (htonl host v.toUInt32).toNat
  have hstore : store (overlay done buffer) offset (longlongBytes host v) =
      .ok (overlay (done ++ longlongBytes host v) buffer) := store_overlay ho (by rwa [hlen])
  obtain ⟨mid, hmid⟩ : ∃ mid, store (overlay done buffer) (offset + 4)
      (host.bytes 4 (htonl host v.toUInt32).toNat) = .ok mid := by
    refine ⟨_, if_pos ?_⟩
    rw [hfour, overlay_length (by omega)]
    omega
  have habsorb := store_absorb (longlongBytes host v) hmid (by rw [hfour, hlen])
  rw [setUnsignedLonglong, check_of hsize, ok_bind]
  dsimp only
  rw [hmid, ok_bind]
  exact habsorb.trans hstore

end Setters

/-- `encode` puts the head bytes in front of an unchanged body. -/
theorem encode_eq (head : StructProtocolHead) {buffer : List UInt8} {unSize : UInt32}
    (hsize : bodyMsgPos ≤ unSize.toNat) (hbuffer : bodyMsgPos ≤ buffer.length) :
    encode host head buffer unSize = .ok (overlay (headBytes host head) buffer) := by
  unfold bodyMsgPos at hsize hbuffer
  calc encode host head buffer unSize
      = encode host head (overlay [] buffer) unSize := by rw [overlay_nil]
    _ = .ok (overlay (headBytes host head) buffer) := by
      rw [encode, setUnsignedShort_overlay, ok_bind, setByte_overlay, ok_bind, setByte_overlay,
        ok_bind, setUnsignedShort_overlay, ok_bind, setUnsignedShort_overlay, ok_bind,
        setUnsignedLonglong_overlay, ok_bind, setUnsignedInt_overlay, ok_bind,
        setUnsignedInt_overlay]
      · rfl
      all_goals
        simp only [List.length_append, ByteOrder.bytes_length, List.length_cons, List.length_nil,
          longlongBytes_length, intBytes_length, headTagPos, headVersionPos, headTyperPos,
          headLenPos, headMsgIdPos, headMsgSnPos, headMsgPriority, headMsgRsv1]
      all_goals omega

/-- Network value of two bytes of a buffer. -/
def shortAt (buffer : List UInt8) (offset : ℕ) : UInt16 :=
  UInt16.ofNat (ByteOrder.big.value ((buffer.drop offset).take 2))

/-- What `getUnsignedInt` makes of four bytes of a buffer. -/
def intAt (buffer : List UInt8) (offset : ℕ) : UInt32 :=
  (ntohs host (UInt32.ofNat (host.value ((buffer.drop offset).take 4))).toUInt16).toUInt32

/-- The head that `decode` reads; the fields after the identifier depend on
the byte order of the host. -/
def headAt (buffer : List UInt8) : StructProtocolHead where
  usTag := shortAt buffer headTagPos
  ucVersion := (buffer.drop headVersionPos).headD 0
  ucType := (buffer.drop headTyperPos).headD 0
  usLen := shortAt buffer headLenPos
  usMsgId := shortAt buffer headMsgIdPos
  ullMsgSn := (intAt host buffer headMsgSnPos).toUInt64 <<< 32 |||
    (intAt host buffer (headMsgSnPos + 4)).toUInt64
  uiPriority := intAt host buffer headMsgPriority
  uiReserver1 := intAt host buffer headMsgRsv1

section Getters

variable {unSize : UInt32} {offset : ℕ} {buffer : List UInt8}

theorem getByte_eq (hsize : offset ≤ unSize.toNat) (hbuffer : offset + 1 ≤ buffer.length) :
    getByte buffer unSize offset = .ok ((buffer.drop offset).headD 0) := by
  rw [getByte, check_of hsize, ok_bind, load, if_pos hbuffer, ok_bind]
  cases buffer.drop offset with
  | nil => rfl
  | cons b bs => rfl

theorem getUnsignedShort_eq (hsize : offset + 2 ≤ unSize.toNat)
    (hbuffer : offset + 2 ≤ buffer.length) :
    getUnsignedShort host buffer unSize offset = .ok (shortAt buffer offset) := by
  have hlen : ((buffer.drop offset).take 2).length = 2 := by
    rw [List.length_take, List.length_drop]
    omega
  rw [getUnsignedShort, check_of hsize, ok_bind, load, if_pos hbuffer, ok_bind,
    ntohs_value host hlen]
  rfl

theorem getUnsignedInt_eq (hbuffer : offset + 4 ≤ buffer.length) :
    getUnsignedInt host buffer offset = .ok (intAt host buffer offset) := by
  rw [getUnsignedInt, load, if_pos hbuffer, ok_bind]
  rfl

theorem getUnsignedLonglong_eq (hbuffer : offset + 8 ≤ buffer.length) :
    getUnsignedLonglong host buffer offset = .ok ((intAt host buffer offset).toUInt64 <<< 32 |||
      (intAt host buffer (offset + 4)).toUInt64) := by
  rw [getUnsignedLonglong, getUnsignedInt_eq host (by omega), ok_bind,
    getUnsignedInt_eq host (by omega), ok_bind]
  rfl

end Getters

/-- `decode` succeeds on every buffer that holds the whole head. -/
theorem decode_eq {buffer : List UInt8} {unSize : UInt32}
    (hsize : bodyMsgPos ≤ unSize.toNat) (hbuffer : bodyMsgPos ≤ buffer.length) :
    decode host buffer unSize = .ok (headAt host buffer) := by
  unfold bodyMsgPos at hsize hbuffer
  rw [decode, getUnsignedShort_eq, ok_bind, getByte_eq, ok_bind, getByte_eq, ok_bind,
    getUnsignedShort_eq, ok_bind, getUnsignedShort_eq, ok_bind, getUnsignedLonglong_eq, ok_bind,
    getUnsignedInt_eq, ok_bind, getUnsignedInt_eq, ok_bind]
  · rfl
  all_goals
    simp only [headTagPos, headVersionPos, headTyperPos, headLenPos, headMsgIdPos, headMsgSnPos,
      headMsgPriority, headMsgRsv1]
  all_goals omega

end NodeManager.DataHeadCodec
