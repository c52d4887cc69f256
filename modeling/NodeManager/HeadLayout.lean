import NodeManager.HeadRoundTrip

/-!
# Where and how the fields lie on the wire

`encode` puts every field at its offset and touches nothing else, on every
host and whatever the buffer held before. The 8-bit and 16-bit fields are in
network order. The wider ones are not: `htons` cuts a 32-bit field down to its
low half, and the second copy of the 64-bit setter is in host order and holds
the upper half only.
-/

namespace NodeManager.DataHeadCodec

open ByteMemory

variable (host : ByteOrder)

/-- A field of the head: where it lies, its value in network order, and how
`encode` writes it. -/
structure HeadField where
  /-- The offset of the field. -/
  pos : ℕ
  /-- The offset of the next field. -/
  next : ℕ
  /-- The bytes of the value, most significant first. -/
  network : List UInt8
  /-- The call of the setter on a buffer of the given size. -/
  write : List UInt8 → UInt32 → Except Fault (List UInt8)

/-- The eight fields in the order in which `encode` writes them. -/
def headFields (head : StructProtocolHead) : List HeadField :=
  [⟨headTagPos, headVersionPos, ByteOrder.big.bytes 2 head.usTag.toNat,
      fun buffer unSize => setUnsignedShort host buffer unSize headTagPos head.usTag⟩,
    ⟨headVersionPos, headTyperPos, [head.ucVersion],
      fun buffer unSize => setByte buffer unSize headVersionPos head.ucVersion⟩,
    ⟨headTyperPos, headLenPos, [head.ucType],
      fun buffer unSize => setByte buffer unSize headTyperPos head.ucType⟩,
    ⟨headLenPos, headMsgIdPos, ByteOrder.big.bytes 2 head.usLen.toNat,
      fun buffer unSize => setUnsignedShort host buffer unSize headLenPos head.usLen⟩,
    ⟨headMsgIdPos, headMsgSnPos, ByteOrder.big.bytes 2 head.usMsgId.toNat,
      fun buffer unSize => setUnsignedShort host buffer unSize headMsgIdPos head.usMsgId⟩,
    ⟨headMsgSnPos, headMsgPriority, ByteOrder.big.bytes 8 head.ullMsgSn.toNat,
      fun buffer unSize => setUnsignedLonglong host buffer unSize headMsgSnPos head.ullMsgSn⟩,
    ⟨headMsgPriority, headMsgRsv1, ByteOrder.big.bytes 4 head.uiPriority.toNat,
      fun buffer unSize => setUnsignedInt host buffer unSize headMsgPriority head.uiPriority⟩,
    ⟨headMsgRsv1, bodyMsgPos, ByteOrder.big.bytes 4 head.uiReserver1.toNat,
      fun buffer unSize => setUnsignedInt host buffer unSize headMsgRsv1 head.uiReserver1⟩]

/-- What a buffer should be after `encode` has written the head to it. -/
structure LaidOut (head : StructProtocolHead) (buffer : List UInt8) (unSize : UInt32)
    (written : List UInt8) : Prop where
  /-- Every field fills its range in network order. -/
  fields : ∀ f ∈ headFields host head, (written.drop f.pos).take (f.next - f.pos) = f.network
  /-- The write of a field alters no byte of another. -/
  apart : ∀ f ∈ headFields host head, ∀ before after, f.write before unSize = .ok after →
    ∀ i, i < f.pos ∨ f.next ≤ i → after[i]? = before[i]?
  /-- The body and what follows it are unchanged. -/
  body : written.drop bodyMsgPos = buffer.drop bodyMsgPos
  /-- The head is the same whatever the buffer held before. -/
  independent : ∀ other, bodyMsgPos ≤ other.length → ∃ written',
    encode host head other unSize = .ok written' ∧
      written'.take bodyMsgPos = written.take bodyMsgPos

/-- A serial number that is stored in network order: on a little-endian host
one whose upper half reads the same backwards and whose lower half is zero, on
a big-endian host only zero. -/
def SnInOrder : ByteOrder → UInt64 → Prop
  | .little, v => ∃ outer < 256, ∃ inner < 256,
      v.toNat = (outer * 0x01000001 + inner * 0x00010100) * 2 ^ 32
  | .big, v => v = 0

/-- A 32-bit field that is stored in network order. -/
def IntInOrder : ByteOrder → UInt32 → Prop
  | .little, v => v = 0
  | .big, v => v.toNat < 2 ^ 16

section Ranges

variable {host} {unSize : UInt32} {pos i : ℕ} {before after : List UInt8}

theorem setByte_getElem? {v : UInt8} (h : setByte before unSize pos v = .ok after)
    (hi : i < pos ∨ pos + 1 ≤ i) : after[i]? = before[i]? := by
  unfold setByte check at h
  split at h
  · exact store_getElem? h hi
  · cases h

theorem setUnsignedShort_getElem? {v : UInt16}
    (h : setUnsignedShort host before unSize pos v = .ok after) (hi : i < pos ∨ pos + 2 ≤ i) :
    after[i]? = before[i]? := by
  unfold setUnsignedShort check at h
  split at h
  · refine store_getElem? h ?_
    rwa [ByteOrder.bytes_length]
  · cases h

theorem setUnsignedInt_getElem? {v : UInt32}
    (h : setUnsignedInt host before unSize pos v = .ok after) (hi : i < pos ∨ pos + 4 ≤ i) :
    after[i]? = before[i]? := by
  unfold setUnsignedInt check at h
  split at h
  · refine store_getElem? h ?_
    rwa [ByteOrder.bytes_length]
  · cases h

/-- Both copies of the 64-bit setter stay in its range. -/
theorem setUnsignedLonglong_getElem? {v : UInt64}
    (h : setUnsignedLonglong host before unSize pos v = .ok after) (hi : i < pos ∨ pos + 8 ≤ i) :
    after[i]? = before[i]? := by
  unfold setUnsignedLonglong check at h
  split at h
  · rw [ok_bind] at h
    dsimp only at h
    cases hmid : store before (pos + 4) (host.bytes 4 (htonl host v.toUInt32).toNat) with
    | error f =>
      rw [hmid] at h
      cases h
    | ok mid =>
      rw [hmid, ok_bind] at h
      have hsecond : after[i]? = mid[i]? := by
        refine store_getElem? h ?_
        rwa [ByteOrder.bytes_length]
      have hfirst : mid[i]? = before[i]? := by
        refine store_getElem? hmid ?_
        rw [ByteOrder.bytes_length]
        omega
      exact hsecond.trans hfirst
  · cases h

/-- No write of a field alters a byte of another. -/
theorem headFields_apart (head : StructProtocolHead) (unSize : UInt32) :
    ∀ f ∈ headFields host head, ∀ before after, f.write before unSize = .ok after →
      ∀ i, i < f.pos ∨ f.next ≤ i → after[i]? = before[i]? := by
  simp only [headFields, List.forall_mem_cons, List.not_mem_nil, IsEmpty.forall_iff, implies_true,
    and_true]
  exact ⟨fun _ _ h _ hi => setUnsignedShort_getElem? h hi, fun _ _ h _ hi => setByte_getElem? h hi,
    fun _ _ h _ hi => setByte_getElem? h hi, fun _ _ h _ hi => setUnsignedShort_getElem? h hi,
    fun _ _ h _ hi => setUnsignedShort_getElem? h hi,
    fun _ _ h _ hi => setUnsignedLonglong_getElem? h hi,
    fun _ _ h _ hi => setUnsignedInt_getElem? h hi,
    fun _ _ h _ hi => setUnsignedInt_getElem? h hi⟩

end Ranges

/-- The 8-bit and 16-bit fields are in network order, so the layout is a
matter of the three wide ones. -/
theorem fields_iff {head : StructProtocolHead} {written : List UInt8}
    (h : headBytes host head <+: written) :
    (∀ f ∈ headFields host head, (written.drop f.pos).take (f.next - f.pos) = f.network) ↔
      longlongBytes host head.ullMsgSn = ByteOrder.big.bytes 8 head.ullMsgSn.toNat ∧
        intBytes host head.uiPriority = ByteOrder.big.bytes 4 head.uiPriority.toNat ∧
        intBytes host head.uiReserver1 = ByteOrder.big.bytes 4 head.uiReserver1.toNat := by
  unfold headBytes at h
  have hpriority := (List.prefix_append _ _).trans h
  have hsn := (List.prefix_append _ _).trans hpriority
  have hid := (List.prefix_append _ _).trans hsn
  have hlen := (List.prefix_append _ _).trans hid
  have htype := (List.prefix_append _ _).trans hlen
  have hversion := (List.prefix_append _ _).trans htype
  have htag : [] ++ ByteOrder.big.bytes 2 head.usTag.toNat <+: written :=
    (List.prefix_append _ _).trans hversion
  have hword : ∀ n, (ByteOrder.big.bytes 2 n).length = 2 := ByteOrder.big.bytes_length 2
  have hlong := longlongBytes_length host head.ullMsgSn
  have hint := intBytes_length host head.uiPriority
  have htagAt : (written.drop headTagPos).take (headVersionPos - headTagPos) =
      ByteOrder.big.bytes 2 head.usTag.toNat := take_field htag rfl (hword _)
  have hversionAt : (written.drop headVersionPos).take (headTyperPos - headVersionPos) =
      [head.ucVersion] := take_field hversion ?_ rfl
  have htypeAt : (written.drop headTyperPos).take (headLenPos - headTyperPos) =
      [head.ucType] := take_field htype ?_ rfl
  have hlenAt : (written.drop headLenPos).take (headMsgIdPos - headLenPos) =
      ByteOrder.big.bytes 2 head.usLen.toNat := take_field hlen ?_ (hword _)
  have hidAt : (written.drop headMsgIdPos).take (headMsgSnPos - headMsgIdPos) =
      ByteOrder.big.bytes 2 head.usMsgId.toNat := take_field hid ?_ (hword _)
  have hsnAt : (written.drop headMsgSnPos).take (headMsgPriority - headMsgSnPos) =
      longlongBytes host head.ullMsgSn := take_field hsn ?_ hlong
  have hpriorityAt : (written.drop headMsgPriority).take (headMsgRsv1 - headMsgPriority) =
      intBytes host head.uiPriority := take_field hpriority ?_ hint
  have hreserverAt : (written.drop headMsgRsv1).take (bodyMsgPos - headMsgRsv1) =
      intBytes host head.uiReserver1 := take_field h ?_ (intBytes_length host _)
  · simp only [headFields, List.forall_mem_cons, List.not_mem_nil, IsEmpty.forall_iff,
      implies_true, and_true, htagAt, hversionAt, htypeAt, hlenAt, hidAt, hsnAt, hpriorityAt,
      hreserverAt, true_and]
  all_goals
    simp only [List.length_append, List.length_cons, List.length_nil, hword, hlong, hint,
      headVersionPos, headTyperPos, headLenPos, headMsgIdPos, headMsgSnPos, headMsgPriority,
      headMsgRsv1]

/-- Words of one width with the same bytes are the same modulo that width. -/
theorem bytes_inj (order : ByteOrder) (w m n : ℕ) :
    order.bytes w m = order.bytes w n ↔ m % 256 ^ w = n % 256 ^ w := by
  rw [← order.value_bytes w m, ← order.value_bytes w n]
  constructor
  · intro h
    rw [h]
  · intro h
    have hm := order.bytes_value (order.bytes w m)
    have hn := order.bytes_value (order.bytes w n)
    rw [ByteOrder.bytes_length] at hm hn
    rw [← hm, h, hn]

/-- A word in network order is its upper half followed by its lower half. -/
theorem bytes_big_add (v w n : ℕ) : ByteOrder.big.bytes (v + w) n =
    ByteOrder.big.bytes w (n / 256 ^ v) ++ ByteOrder.big.bytes v n := by
  rw [ByteOrder.bytes, lowBytes_add, List.reverse_append]
  rfl

theorem lowBytes_four (q : ℕ) : lowBytes 4 q = [UInt8.ofNat (q % 256),
    UInt8.ofNat (q / 256 % 256), UInt8.ofNat (q / 256 / 256 % 256),
    UInt8.ofNat (q / 256 / 256 / 256 % 256)] := rfl

theorem ofNat_byte_inj (m n : ℕ) :
    UInt8.ofNat (m % 256) = UInt8.ofNat (n % 256) ↔ m % 256 = n % 256 := by
  rw [← UInt8.toNat_inj, UInt8.toNat_ofNat', UInt8.toNat_ofNat']
  omega

/-- Four bytes that read the same in both orders. -/
theorem palindrome_iff {q : ℕ} (hq : q < 2 ^ 32) :
    ByteOrder.little.bytes 4 q = ByteOrder.big.bytes 4 q ↔
      ∃ outer < 256, ∃ inner < 256, q = outer * 0x01000001 + inner * 0x00010100 := by
  rw [ByteOrder.bytes, ByteOrder.bytes, lowBytes_four]
  simp only [List.reverse_cons, List.reverse_nil, List.nil_append, List.cons_append,
    List.cons.injEq, and_true, ofNat_byte_inj]
  constructor
  · rintro ⟨houter, hinner, _, _⟩
    exact ⟨q % 256, Nat.mod_lt _ (by decide), q / 256 % 256, Nat.mod_lt _ (by decide), by omega⟩
  · rintro ⟨outer, houter, inner, hinner, rfl⟩
    have hdigits : outer * 0x01000001 + inner * 0x00010100 =
        outer + 256 * (inner + 256 * (inner + 256 * outer)) := by ring
    have hnext : ∀ low high, low < 256 → (low + 256 * high) / 256 = high := by
      intro low high hlow
      omega
    rw [hdigits, hnext _ _ houter, hnext _ _ hinner, hnext _ _ hinner]
    omega

theorem longlongBytes_inOrder_iff (v : UInt64) :
    longlongBytes host v = ByteOrder.big.bytes 8 v.toNat ↔ SnInOrder host v := by
  have hlt := v.toNat_lt
  have hhigh := shiftRight_toNat v
  have hsplit : ByteOrder.big.bytes 8 v.toNat =
      ByteOrder.big.bytes 4 (v >>> 32).toNat ++ ByteOrder.big.bytes 4 v.toNat := by
    rw [hhigh]
    exact bytes_big_add 4 4 v.toNat
  have hlength : ∀ (order order' : ByteOrder) m n,
      (order.bytes 4 m).length = (order'.bytes 4 n).length := by
    intro order order' m n
    rw [ByteOrder.bytes_length, ByteOrder.bytes_length]
  rw [hsplit]
  cases host with
  | little =>
    have hzero : ByteOrder.little.bytes 4 0 = ByteOrder.big.bytes 4 0 := by decide
    have hhalves : longlongBytes .little v =
        ByteOrder.big.bytes 4 (v >>> 32).toNat ++ ByteOrder.big.bytes 4 v.toNat ↔
          ByteOrder.little.bytes 4 (v >>> 32).toNat = ByteOrder.big.bytes 4 (v >>> 32).toNat ∧
            ByteOrder.big.bytes 4 0 = ByteOrder.big.bytes 4 v.toNat := by
      rw [longlongBytes_little, hzero]
      constructor
      · intro h
        exact List.append_inj h (hlength _ _ _ _)
      · rintro ⟨hfirst, hsecond⟩
        rw [hfirst, hsecond]
    rw [hhalves, palindrome_iff (by omega), bytes_inj, hhigh]
    constructor
    · rintro ⟨⟨outer, houter, inner, hinner, hq⟩, hlow⟩
      refine ⟨outer, houter, inner, hinner, ?_⟩
      rw [← hq]
      omega
    · rintro ⟨outer, houter, inner, hinner, hv⟩
      refine ⟨⟨outer, houter, inner, hinner, ?_⟩, ?_⟩
      · rw [hv, Nat.mul_div_cancel _ (by decide)]
      · omega
  | big =>
    have hhalves : longlongBytes .big v =
        ByteOrder.big.bytes 4 (v >>> 32).toNat ++ ByteOrder.big.bytes 4 v.toNat ↔
          ByteOrder.big.bytes 4 0 = ByteOrder.big.bytes 4 (v >>> 32).toNat ∧
            ByteOrder.big.bytes 4 (v >>> 32).toNat = ByteOrder.big.bytes 4 v.toNat := by
      rw [longlongBytes_big]
      constructor
      · intro h
        exact List.append_inj h (hlength _ _ _ _)
      · rintro ⟨hfirst, hsecond⟩
        rw [← hfirst, ← hsecond, ← hfirst]
    rw [hhalves, bytes_inj, bytes_inj, hhigh, SnInOrder, ← UInt64.toNat_inj, UInt64.toNat_zero]
    omega

theorem intBytes_inOrder_iff (v : UInt32) :
    intBytes host v = ByteOrder.big.bytes 4 v.toNat ↔ IntInOrder host v := by
  have hlt := v.toNat_lt
  have hnarrow : v.toUInt16.toNat = v.toNat % 2 ^ 16 := UInt32.toNat_toUInt16 v
  cases host with
  | little =>
    -- two bytes of the low half, in network order, before two zeros
    have hword : (htons .little v.toUInt16).toNat / 256 ^ 2 = 0 := by
      have hsmall := (htons .little v.toUInt16).toNat_lt
      omega
    have hstored : intBytes .little v =
        ByteOrder.big.bytes 2 v.toNat ++ ByteOrder.big.bytes 2 0 := by
      have hsplit : ByteOrder.little.bytes 4 (htons .little v.toUInt16).toNat =
          ByteOrder.little.bytes 2 (htons .little v.toUInt16).toNat ++
            ByteOrder.little.bytes 2 ((htons .little v.toUInt16).toNat / 256 ^ 2) :=
        lowBytes_add 2 2 _
      have hzero : ByteOrder.little.bytes 2 0 = ByteOrder.big.bytes 2 0 := by decide
      have hlow : ByteOrder.big.bytes 2 v.toUInt16.toNat = ByteOrder.big.bytes 2 v.toNat := by
        rw [bytes_inj, hnarrow]
        omega
      rw [intBytes, hsplit, hword, bytes_htons, hzero, hlow]
    have hvalue : ByteOrder.big.bytes 4 v.toNat =
        ByteOrder.big.bytes 2 (v.toNat / 256 ^ 2) ++ ByteOrder.big.bytes 2 v.toNat :=
      bytes_big_add 2 2 v.toNat
    rw [hstored, hvalue, IntInOrder, ← UInt32.toNat_inj, UInt32.toNat_zero]
    constructor
    · intro h
      have hlength : (ByteOrder.big.bytes 2 v.toNat).length =
          (ByteOrder.big.bytes 2 (v.toNat / 256 ^ 2)).length := by
        rw [ByteOrder.bytes_length, ByteOrder.bytes_length]
      obtain ⟨hfirst, hsecond⟩ := List.append_inj h hlength
      have hhigh := (bytes_inj _ _ _ _).mp hfirst
      have hlow := (bytes_inj _ _ _ _).mp hsecond
      omega
    · intro hzero
      rw [hzero, Nat.zero_div]
  | big =>
    have hsame : htons .big v.toUInt16 = v.toUInt16 := by
      have hbytes := ntohs_big (htons .big v.toUInt16)
      rw [ntohs_htons] at hbytes
      exact hbytes.symm
    rw [intBytes, hsame, bytes_inj, hnarrow, IntInOrder]
    omega

/-- After `encode` every field lies at its offset in network order, and nothing
else is touched or left over, exactly when the three wide fields are stored in
network order. -/
theorem layout_iff (head : StructProtocolHead) (buffer : List UInt8) (unSize : UInt32)
    (hsize : 24 ≤ unSize.toNat) (hbuffer : 24 ≤ buffer.length) :
    (∃ written, encode host head buffer unSize = .ok written ∧
        LaidOut host head buffer unSize written) ↔
      SnInOrder host head.ullMsgSn ∧ IntInOrder host head.uiPriority ∧
        IntInOrder host head.uiReserver1 := by
  have hlength : (headBytes host head).length = bodyMsgPos := headBytes_length host head
  have hwritten := encode_eq host head hsize hbuffer
  have hfields := fields_iff host (List.prefix_append (headBytes host head)
    (buffer.drop (headBytes host head).length))
  rw [← longlongBytes_inOrder_iff, ← intBytes_inOrder_iff, ← intBytes_inOrder_iff, ← hfields]
  constructor
  · rintro ⟨written, hencode, hlaid⟩
    obtain rfl := Except.ok.inj (hwritten.symm.trans hencode)
    exact hlaid.fields
  · intro hinOrder
    refine ⟨_, hwritten, hinOrder, headFields_apart head unSize, ?_, fun other hother => ?_⟩
    · rw [overlay, hlength]
      exact List.drop_left' hlength
    · refine ⟨_, encode_eq host head hsize hother, ?_⟩
      rw [overlay, overlay, List.take_left' hlength, List.take_left' hlength]

/-- A head with a zero serial number and zero wide fields is laid out. -/
theorem layout_zero : ∃ written,
    encode .little ⟨100, 2, 1, 42, 101, 0, 0, 0⟩ (List.replicate 24 0) 24 = .ok written ∧
      LaidOut .little ⟨100, 2, 1, 42, 101, 0, 0, 0⟩ (List.replicate 24 0) 24 written :=
  (layout_iff .little ⟨100, 2, 1, 42, 101, 0, 0, 0⟩ (List.replicate 24 0) 24 (by decide)
    (by decide)).mpr ⟨⟨0, by decide, 0, by decide, by decide⟩, rfl, rfl⟩

/-- The head that the client sends a login with has its priority 456 in the
upper half of the field. -/
theorem layout_priority : ¬∀ (host : ByteOrder) (head : StructProtocolHead) (buffer : List UInt8)
    (unSize : UInt32), 24 ≤ unSize.toNat → 24 ≤ buffer.length → ∃ written,
      encode host head buffer unSize = .ok written ∧
        LaidOut host head buffer unSize written := by
  intro h
  let login : StructProtocolHead := ⟨100, 2, 1, 42, 101, 100, 456, 789⟩
  let buffer : List UInt8 := List.replicate 24 0
  have hsize : bodyMsgPos ≤ (24 : UInt32).toNat := by decide
  have hbuffer : bodyMsgPos ≤ buffer.length := by decide
  obtain ⟨written, hencode, hlaid⟩ := h .little login buffer 24 hsize hbuffer
  obtain rfl := Except.ok.inj ((encode_eq .little login hsize hbuffer).symm.trans hencode)
  obtain ⟨_, hpriority, _⟩ := (fields_iff .little (List.prefix_append _ _)).mp hlaid.fields
  exact absurd hpriority (by decide)

end NodeManager.DataHeadCodec
