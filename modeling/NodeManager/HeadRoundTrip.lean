import NodeManager.DataProtocolHead

/-!
# Encoding a head and decoding it again

The five fields that go through the byte and 16-bit accessors come back
unchanged. The two 32-bit fields come back modulo `2^16`, and of the serial
number only sixteen bits of the upper half come back, in the wrong half on a
big-endian host and byte-swapped on a little-endian one. The round trip is
exact for precisely the heads whose wide fields survive this.
-/

namespace NodeManager.DataHeadCodec

open ByteMemory

variable (host : ByteOrder)

section Fields

variable {host} {offset : ℕ} {front buffer : List UInt8}

theorem take_field {field : List UInt8} {width : ℕ} (h : front ++ field <+: buffer)
    (ho : front.length = offset) (hw : field.length = width) :
    (buffer.drop offset).take width = field := by
  obtain ⟨back, rfl⟩ := h
  subst ho hw
  rw [List.append_assoc, List.drop_left, List.take_left]

theorem shortAt_field {v : UInt16} (h : front ++ ByteOrder.big.bytes 2 v.toNat <+: buffer)
    (ho : front.length = offset) : shortAt buffer offset = v := by
  have hlt : v.toNat < 256 ^ 2 := v.toNat_lt
  rw [shortAt, take_field h ho (ByteOrder.bytes_length _ _ _), ByteOrder.value_bytes_of_lt _ hlt,
    UInt16.ofNat_toNat]

theorem headD_field {v : UInt8} (h : front ++ [v] <+: buffer) (ho : front.length = offset) :
    (buffer.drop offset).headD 0 = v := by
  obtain ⟨back, rfl⟩ := h
  subst ho
  rw [List.append_assoc, List.drop_left]
  rfl

/-- A word of four bytes in host memory is narrowed to 16 bits and swapped. -/
theorem intAt_bytes {n : ℕ} (h : front ++ host.bytes 4 n <+: buffer)
    (ho : front.length = offset) (hn : n < 2 ^ 32) :
    intAt host buffer offset = (ntohs host (UInt16.ofNat n)).toUInt32 := by
  rw [intAt, take_field h ho (ByteOrder.bytes_length _ _ _), ByteOrder.value_bytes_of_lt _ hn]
  congr 2
  apply UInt16.toNat_inj.mp
  rw [UInt32.toNat_toUInt16, UInt32.toNat_ofNat', UInt16.toNat_ofNat']
  omega

/-- What a 32-bit field reads as is its value narrowed to 16 bits. -/
theorem intAt_field {v : UInt32} (h : front ++ intBytes host v <+: buffer)
    (ho : front.length = offset) : intAt host buffer offset = v.toUInt16.toUInt32 := by
  have hlt := (htons host v.toUInt16).toNat_lt
  rw [intAt_bytes h ho (by omega), UInt16.ofNat_toNat, ntohs_htons]

end Fields

/-- The serial number as `decode` reads what `encode` stored for it. -/
def readSn : ByteOrder → UInt64 → UInt64
  | .little, v => (ntohs .little (UInt16.ofNat (v >>> 32).toNat)).toUInt64 <<< 32
  | .big, v => (UInt16.ofNat (v >>> 32).toNat).toUInt64

theorem ntohs_big (v : UInt16) : ntohs .big v = v := by
  have hlt : v.toNat < 256 ^ 2 := v.toNat_lt
  rw [ntohs, ByteOrder.value_bytes_of_lt _ hlt, UInt16.ofNat_toNat]

/-- On a little-endian host `ntohs` exchanges the two bytes. -/
theorem ntohs_little_toNat (v : UInt16) :
    (ntohs .little v).toNat = v.toNat % 256 * 256 + v.toNat / 256 := by
  have hlt := v.toNat_lt
  have hswap : ByteOrder.big.value (ByteOrder.little.bytes 2 v.toNat) =
      v.toNat % 256 * 256 + v.toNat / 256 := by
    simp only [ByteOrder.bytes, ByteOrder.value, lowBytes, lowValue, List.reverse_cons,
      List.reverse_nil, List.nil_append, List.cons_append, UInt8.toNat_ofNat']
    omega
  rw [ntohs, hswap, UInt16.toNat_ofNat']
  omega

theorem shiftRight_toNat (v : UInt64) : (v >>> 32).toNat = v.toNat / 2 ^ 32 := by
  rw [UInt64.toNat_shiftRight, Nat.shiftRight_eq_div_pow]
  rfl

theorem longlongBytes_little (v : UInt64) : longlongBytes .little v =
    ByteOrder.little.bytes 4 (v >>> 32).toNat ++ ByteOrder.little.bytes 4 0 := by
  have hlt := v.toNat_lt
  have hhigh : (v >>> 32).toNat / 256 ^ 4 = 0 := by
    rw [shiftRight_toNat]
    omega
  have hsplit := lowBytes_add 4 4 (v >>> 32).toNat
  rwa [hhigh] at hsplit

theorem longlongBytes_big (v : UInt64) : longlongBytes .big v =
    ByteOrder.big.bytes 4 0 ++ ByteOrder.big.bytes 4 (v >>> 32).toNat := by
  have hsplit := longlongBytes_little v
  have hreverse : longlongBytes .big v = (longlongBytes .little v).reverse := rfl
  rw [hreverse, hsplit, List.reverse_append]
  rfl

/-- The two 32-bit reads of the serial number see one half each of what the
second copy of the setter left there. -/
theorem longlong_field {v : UInt64} {offset : ℕ} {front buffer : List UInt8}
    (h : front ++ longlongBytes host v <+: buffer) (ho : front.length = offset) :
    (intAt host buffer offset).toUInt64 <<< 32 ||| (intAt host buffer (offset + 4)).toUInt64 =
      readSn host v := by
  have hlt := v.toNat_lt
  have hn : (v >>> 32).toNat < 2 ^ 32 := by
    rw [shiftRight_toNat]
    omega
  cases host with
  | little =>
    rw [longlongBytes_little, ← List.append_assoc] at h
    have hfirst := (List.prefix_append _ _).trans h
    have hbehind : (front ++ ByteOrder.little.bytes 4 (v >>> 32).toNat).length = offset + 4 := by
      rw [List.length_append, ho, ByteOrder.bytes_length]
    have hzero : (ntohs .little (UInt16.ofNat 0)).toUInt32.toUInt64 = 0 := by decide
    rw [intAt_bytes hfirst ho hn, intAt_bytes h hbehind (by decide), hzero,
      UInt16.toUInt64_toUInt32, UInt64.or_zero]
    rfl
  | big =>
    rw [longlongBytes_big, ← List.append_assoc] at h
    have hfirst := (List.prefix_append _ _).trans h
    have hbehind : (front ++ ByteOrder.big.bytes 4 0).length = offset + 4 := by
      rw [List.length_append, ho, ByteOrder.bytes_length]
    have hzero : (UInt16.ofNat 0).toUInt32.toUInt64 <<< 32 = 0 := by decide
    rw [intAt_bytes hfirst ho (by decide), intAt_bytes h hbehind hn, ntohs_big, ntohs_big, hzero,
      UInt64.zero_or, UInt16.toUInt64_toUInt32]
    rfl

/-- The head that comes back from `decode` after `encode`. -/
def roundTripped (head : StructProtocolHead) : StructProtocolHead :=
  { head with
    ullMsgSn := readSn host head.ullMsgSn
    uiPriority := head.uiPriority.toUInt16.toUInt32
    uiReserver1 := head.uiReserver1.toUInt16.toUInt32 }

/-- The head in front of any body reads as the round-tripped head. -/
theorem headAt_of_headBytes {head : StructProtocolHead} {written : List UInt8}
    (hreserver : headBytes host head <+: written) :
    headAt host written = roundTripped host head := by
  unfold headBytes at hreserver
  have hpriority := (List.prefix_append _ _).trans hreserver
  have hsn := (List.prefix_append _ _).trans hpriority
  have hid := (List.prefix_append _ _).trans hsn
  have hlen := (List.prefix_append _ _).trans hid
  have htype := (List.prefix_append _ _).trans hlen
  have hversion := (List.prefix_append _ _).trans htype
  have htag : [] ++ ByteOrder.big.bytes 2 head.usTag.toNat <+: written :=
    (List.prefix_append _ _).trans hversion
  have hword : ∀ n, (ByteOrder.big.bytes 2 n).length = 2 := ByteOrder.big.bytes_length 2
  have hlong := longlongBytes_length host head.ullMsgSn
  have hint := intBytes_length host head.uiPriority
  refine StructProtocolHead.ext (shortAt_field htag rfl) (headD_field hversion ?_)
    (headD_field htype ?_) (shortAt_field hlen ?_) (shortAt_field hid ?_)
    (longlong_field host hsn ?_) (intAt_field hpriority ?_) (intAt_field hreserver ?_)
  all_goals
    simp only [List.length_append, List.length_cons, List.length_nil, hword, hlong, hint,
      headVersionPos, headTyperPos, headLenPos, headMsgIdPos, headMsgSnPos, headMsgPriority,
      headMsgRsv1]

/-- Decoding what was encoded, for every head, buffer and host. -/
theorem decode_encode (head : StructProtocolHead) {buffer : List UInt8} {unSize : UInt32}
    (hsize : bodyMsgPos ≤ unSize.toNat) (hbuffer : bodyMsgPos ≤ buffer.length) :
    (encode host head buffer unSize >>= fun written => decode host written unSize) =
      .ok (roundTripped host head) := by
  have hlen : (overlay (headBytes host head) buffer).length = buffer.length :=
    overlay_length (by rwa [headBytes_length])
  have hread : headAt host (overlay (headBytes host head) buffer) = roundTripped host head :=
    headAt_of_headBytes host (List.prefix_append _ _)
  rw [encode_eq host head hsize hbuffer, ok_bind, decode_eq host hsize (by rwa [hlen]), hread]

/-- A serial number that reads back unchanged: on a little-endian host a
multiple of `0x0101` by a byte in the upper half with nothing below it, on a
big-endian host only zero. -/
def SnSurvives : ByteOrder → UInt64 → Prop
  | .little, v => ∃ k < 256, v.toNat = k * 0x0101 * 2 ^ 32
  | .big, v => v = 0

theorem readSn_toNat_little (v : UInt64) : (readSn .little v).toNat =
    (v.toNat / 2 ^ 32 % 2 ^ 16 % 256 * 256 + v.toNat / 2 ^ 32 % 2 ^ 16 / 256) * 2 ^ 32 := by
  have hlow := ntohs_little_toNat (UInt16.ofNat (v >>> 32).toNat)
  rw [UInt16.toNat_ofNat', shiftRight_toNat] at hlow
  rw [readSn, UInt64.toNat_shiftLeft, UInt16.toNat_toUInt64, shiftRight_toNat, hlow]
  have hshift : (32 : UInt64).toNat % 64 = 32 := rfl
  rw [hshift, Nat.shiftLeft_eq]
  omega

/-- Sixteen bits that exchanging their bytes leaves as they are. -/
theorem swapped_eq_iff (q : ℕ) :
    q % 2 ^ 16 % 256 * 256 + q % 2 ^ 16 / 256 = q ↔ ∃ k < 256, q = k * 0x0101 := by
  constructor
  · intro h
    have hfit : q < 2 ^ 16 := by omega
    rw [Nat.mod_eq_of_lt hfit] at h
    have hsame : q % 256 = q / 256 := by omega
    exact ⟨q % 256, Nat.mod_lt _ (by decide), by omega⟩
  · rintro ⟨k, hk, rfl⟩
    have hfit : k * 0x0101 % 2 ^ 16 = k * 0x0101 := Nat.mod_eq_of_lt (by omega)
    have hlow : k * 0x0101 % 256 = k := by omega
    have hhigh : k * 0x0101 / 256 = k := by omega
    rw [hfit, hlow, hhigh]
    omega

theorem readSn_eq_iff (v : UInt64) : readSn host v = v ↔ SnSurvives host v := by
  have hlt := v.toNat_lt
  rw [← UInt64.toNat_inj]
  cases host with
  | little =>
    rw [readSn_toNat_little]
    constructor
    · intro h
      have hhigh := Nat.eq_div_of_mul_eq_left (by decide) h
      obtain ⟨k, hk, hq⟩ := (swapped_eq_iff _).mp hhigh
      exact ⟨k, hk, by rw [← hq, ← h, Nat.mul_div_cancel _ (by decide)]⟩
    · rintro ⟨k, hk, hv⟩
      have hhigh : v.toNat / 2 ^ 32 = k * 0x0101 := by rw [hv, Nat.mul_div_cancel _ (by decide)]
      rw [(swapped_eq_iff _).mpr ⟨k, hk, hhigh⟩, hhigh, hv]
  | big =>
    rw [readSn, UInt16.toNat_toUInt64, UInt16.toNat_ofNat', shiftRight_toNat, SnSurvives,
      ← UInt64.toNat_inj, UInt64.toNat_zero]
    omega

theorem narrow_eq_iff (v : UInt32) : v.toUInt16.toUInt32 = v ↔ v.toNat < 2 ^ 16 := by
  rw [← UInt32.toNat_inj, UInt16.toNat_toUInt32, UInt32.toNat_toUInt16]
  omega

theorem roundTripped_eq_iff (head : StructProtocolHead) : roundTripped host head = head ↔
    SnSurvives host head.ullMsgSn ∧ head.uiPriority.toNat < 2 ^ 16 ∧
      head.uiReserver1.toNat < 2 ^ 16 := by
  rw [← readSn_eq_iff, ← narrow_eq_iff, ← narrow_eq_iff]
  constructor
  · intro h
    exact ⟨congrArg (·.ullMsgSn) h, congrArg (·.uiPriority) h, congrArg (·.uiReserver1) h⟩
  · rintro ⟨hsn, hpriority, hreserver⟩
    rw [roundTripped, hsn, hpriority, hreserver]

/-- Encoding a head and decoding it on the same buffer gives the head back
exactly when both 32-bit fields fit 16 bits and the serial number survives. -/
theorem roundTrip_iff (head : StructProtocolHead) (buffer : List UInt8) (unSize : UInt32)
    (hsize : 24 ≤ unSize.toNat) (hbuffer : buffer.length = unSize.toNat) :
    (encode host head buffer unSize >>= fun written => decode host written unSize) = .ok head ↔
      SnSurvives host head.ullMsgSn ∧ head.uiPriority.toNat < 2 ^ 16 ∧
        head.uiReserver1.toNat < 2 ^ 16 := by
  rw [decode_encode host head hsize (hbuffer.symm ▸ hsize), ← roundTripped_eq_iff,
    Except.ok.injEq]

/-- A head with a zero serial number and small wide fields comes back. -/
theorem roundTrip_small : (encode .little ⟨100, 2, 1, 42, 101, 0, 456, 789⟩
    (List.replicate 24 0) 24 >>= fun written => decode .little written 24) =
      .ok ⟨100, 2, 1, 42, 101, 0, 456, 789⟩ :=
  (roundTrip_iff .little ⟨100, 2, 1, 42, 101, 0, 456, 789⟩ (List.replicate 24 0) 24 (by decide)
    (by decide)).mpr ⟨⟨0, by decide, by decide⟩, by decide, by decide⟩

/-- The head that the client sends a login with loses its serial number 100. -/
theorem roundTrip_loses_serial : ¬∀ (head : StructProtocolHead) (buffer : List UInt8)
    (unSize : UInt32), 24 ≤ unSize.toNat → buffer.length = unSize.toNat →
      (encode .little head buffer unSize >>= fun written => decode .little written unSize) =
        .ok head := by
  intro h
  have hlogin := h ⟨100, 2, 1, 42, 101, 100, 456, 789⟩ (List.replicate 24 0) 24 (by decide)
    (by decide)
  rw [decode_encode .little _ (by decide) (by decide), Except.ok.injEq] at hlogin
  exact absurd (congrArg (·.ullMsgSn) hlogin) (by decide)

end NodeManager.DataHeadCodec
