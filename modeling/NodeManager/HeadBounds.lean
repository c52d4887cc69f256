import NodeManager.DataProtocolHead

/-!
# Which buffers the assertions of the codec protect

Every accessor asserts a size of its own and touches a range of its own, and
the two differ. Here they stand side by side, in the order in which `encode`
and `decode` go through them; from this table follow the sizes for which a
byte past the end is touched before an assertion fails.
-/

namespace NodeManager.DataHeadCodec

open ByteMemory

variable (host : ByteOrder)

section Accessors

variable {buffer : List UInt8} {unSize : UInt32} {n : ℕ} (hsize : unSize.toNat = n)
  (hbuffer : buffer.length = n) (unOffset : ℕ)

include hbuffer

theorem getUnsignedInt_access :
    Access n 0 (unOffset + 4) (fun _ => True) (getUnsignedInt host buffer unOffset) := by
  have hload := load_access buffer unOffset 4
  rw [hbuffer] at hload
  exact hload.map (fun bytes => (ntohs host (UInt32.ofNat (host.value bytes)).toUInt16).toUInt32)
    fun _ _ => trivial

/-- Both halves are read without an assertion. -/
theorem getUnsignedLonglong_access :
    Access n 0 (unOffset + 8) (fun _ => True) (getUnsignedLonglong host buffer unOffset) := by
  have hhigh := getUnsignedInt_access host hbuffer unOffset
  have hlow := getUnsignedInt_access host hbuffer (unOffset + 4)
  constructor
  · omega
  · intro _ hless
    by_cases hfits : unOffset + 4 ≤ n
    · obtain ⟨high, hok, _⟩ := hhigh.inside (Nat.zero_le _) hfits
      rw [getUnsignedLonglong, hok, ok_bind, hlow.outside (Nat.zero_le _) (by omega)]
      rfl
    · rw [getUnsignedLonglong, hhigh.outside (Nat.zero_le _) (by omega)]
      rfl
  · intro _ hfits
    obtain ⟨high, hok, _⟩ := hhigh.inside (Nat.zero_le _) (by omega)
    obtain ⟨low, hok', _⟩ := hlow.inside (Nat.zero_le _) (by omega)
    rw [getUnsignedLonglong, hok, ok_bind, hok', ok_bind]
    exact ⟨_, rfl, trivial⟩

include hsize

theorem getByte_access :
    Access n unOffset (unOffset + 1) (fun _ => True) (getByte buffer unSize unOffset) := by
  have hload := load_access buffer unOffset 1
  rw [hbuffer] at hload
  exact (hload.map (fun bytes => bytes.headD 0) fun _ _ => trivial).check hsize

theorem getUnsignedShort_access :
    Access n (unOffset + 2) (unOffset + 2) (fun _ => True)
      (getUnsignedShort host buffer unSize unOffset) := by
  have hload := load_access buffer unOffset 2
  rw [hbuffer] at hload
  exact (hload.map (fun bytes => ntohs host (UInt16.ofNat (host.value bytes)))
    fun _ _ => trivial).check hsize

theorem setByte_access (ucVal : UInt8) :
    Access n (unOffset + 1) (unOffset + 1) (fun after => after.length = n)
      (setByte buffer unSize unOffset ucVal) := by
  have hstore := store_access buffer unOffset [ucVal]
  rw [hbuffer] at hstore
  exact hstore.check hsize

/-- Two bytes are stored behind an assertion for one. -/
theorem setUnsignedShort_access (usVal : UInt16) :
    Access n (unOffset + 1) (unOffset + 2) (fun after => after.length = n)
      (setUnsignedShort host buffer unSize unOffset usVal) := by
  have hstore := store_access buffer unOffset (host.bytes 2 (htons host usVal).toNat)
  rw [ByteOrder.bytes_length, hbuffer] at hstore
  exact hstore.check hsize

/-- Four bytes are stored behind an assertion for one. -/
theorem setUnsignedInt_access (unVal : UInt32) :
    Access n (unOffset + 1) (unOffset + 4) (fun after => after.length = n)
      (setUnsignedInt host buffer unSize unOffset unVal) := by
  have hstore := store_access buffer unOffset
    (host.bytes 4 (htons host unVal.toUInt16).toUInt32.toNat)
  rw [ByteOrder.bytes_length, hbuffer] at hstore
  exact hstore.check hsize

/-- Eight bytes are stored behind an assertion for one; the first of the two
copies reaches as far as the second. -/
theorem setUnsignedLonglong_access (ullVal : UInt64) :
    Access n (unOffset + 1) (unOffset + 8) (fun after => after.length = n)
      (setUnsignedLonglong host buffer unSize unOffset ullVal) := by
  refine Access.check hsize ?_
  dsimp only
  have hlow := store_access buffer (unOffset + 4)
    (host.bytes 4 (htonl host ullVal.toUInt32).toNat)
  rw [ByteOrder.bytes_length, hbuffer] at hlow
  constructor
  · omega
  · intro _ hless
    rw [hlow.outside (Nat.zero_le _) (by omega)]
    rfl
  · intro _ hfits
    obtain ⟨mid, hmid, hlength⟩ := hlow.inside (Nat.zero_le _) (by omega)
    have hhigh := store_access mid unOffset (host.bytes 8 (ullVal >>> 32).toNat)
    rw [ByteOrder.bytes_length, hlength] at hhigh
    rw [hmid]
    exact hhigh.inside (Nat.zero_le _) hfits

end Accessors

/-- What each setter of `encode` asserts and how far it reaches. -/
def encodeAccesses : List (ℕ × ℕ) :=
  [(headTagPos + 1, headTagPos + 2), (headVersionPos + 1, headVersionPos + 1),
    (headTyperPos + 1, headTyperPos + 1), (headLenPos + 1, headLenPos + 2),
    (headMsgIdPos + 1, headMsgIdPos + 2), (headMsgSnPos + 1, headMsgSnPos + 8),
    (headMsgPriority + 1, headMsgPriority + 4), (headMsgRsv1 + 1, headMsgRsv1 + 4)]

/-- What each getter of `decode` asserts and how far it reaches; the last three
assert nothing. -/
def decodeAccesses : List (ℕ × ℕ) :=
  [(headTagPos + 2, headTagPos + 2), (headVersionPos, headVersionPos + 1),
    (headTyperPos, headTyperPos + 1), (headLenPos + 2, headLenPos + 2),
    (headMsgIdPos + 2, headMsgIdPos + 2), (0, headMsgSnPos + 8), (0, headMsgPriority + 4),
    (0, headMsgRsv1 + 4)]

section Sizes

variable {buffer : List UInt8} {unSize : UInt32} {n : ℕ} (hsize : unSize.toNat = n)
  (hbuffer : buffer.length = n)

include hsize hbuffer

theorem encode_escapes (head : StructProtocolHead) :
    encode host head buffer unSize = .error .outOfBounds ↔ Escapes n encodeAccesses := by
  refine (setUnsignedShort_access host hsize hbuffer headTagPos _).first fun _ h₁ => ?_
  refine (setByte_access hsize h₁ headVersionPos _).first fun _ h₂ => ?_
  refine (setByte_access hsize h₂ headTyperPos _).first fun _ h₃ => ?_
  refine (setUnsignedShort_access host hsize h₃ headLenPos _).first fun _ h₄ => ?_
  refine (setUnsignedShort_access host hsize h₄ headMsgIdPos _).first fun _ h₅ => ?_
  refine (setUnsignedLonglong_access host hsize h₅ headMsgSnPos _).first fun _ h₆ => ?_
  refine (setUnsignedInt_access host hsize h₆ headMsgPriority _).first fun _ h₇ => ?_
  exact (setUnsignedInt_access host hsize h₇ headMsgRsv1 _).last

theorem decode_escapes :
    decode host buffer unSize = .error .outOfBounds ↔ Escapes n decodeAccesses := by
  refine (getUnsignedShort_access host hsize hbuffer headTagPos).first fun _ _ => ?_
  refine (getByte_access hsize hbuffer headVersionPos).first fun _ _ => ?_
  refine (getByte_access hsize hbuffer headTyperPos).first fun _ _ => ?_
  refine (getUnsignedShort_access host hsize hbuffer headLenPos).first fun _ _ => ?_
  refine (getUnsignedShort_access host hsize hbuffer headMsgIdPos).first fun _ _ => ?_
  refine (getUnsignedLonglong_access host hbuffer headMsgSnPos).first fun _ _ => ?_
  refine (getUnsignedInt_access host hbuffer headMsgPriority).first fun _ _ => ?_
  exact ((getUnsignedInt_access host hbuffer headMsgRsv1).map (Q := fun _ => True) _
    fun _ _ => trivial).last

end Sizes

/-- `encode` leaves the buffers that end within a field of more than one byte. -/
theorem escapes_encodeAccesses (n : ℕ) :
    Escapes n encodeAccesses ↔ ¬(n ∈ [0, 2, 3, 4, 6, 8, 16, 20] ∨ bodyMsgPos ≤ n) := by
  simp only [encodeAccesses, Escapes, headTagPos, headVersionPos, headTyperPos, headLenPos,
    headMsgIdPos, headMsgSnPos, headMsgPriority, headMsgRsv1, bodyMsgPos, List.mem_cons,
    List.not_mem_nil, or_false]
  constructor
  · intro hescapes
    omega
  · intro hsizes
    omega

/-- `decode` leaves the buffers that end within the unguarded fields, and those
that end where a single byte is read. -/
theorem escapes_decodeAccesses (n : ℕ) :
    Escapes n decodeAccesses ↔ ¬(n ∈ [0, 1, 4, 5, 6, 7] ∨ bodyMsgPos ≤ n) := by
  simp only [decodeAccesses, Escapes, headTagPos, headVersionPos, headTyperPos, headLenPos,
    headMsgIdPos, headMsgSnPos, headMsgPriority, headMsgRsv1, bodyMsgPos, List.mem_cons,
    List.not_mem_nil, or_false]
  constructor
  · intro hescapes
    omega
  · intro hsizes
    omega

/-- The sizes at which the assertions suffice, for either direction. -/
theorem assertions_suffice_iff (host : ByteOrder) (head : StructProtocolHead)
    {buffer : List UInt8} {unSize : UInt32} (hbuffer : buffer.length = unSize.toNat) :
    (encode host head buffer unSize ≠ .error .outOfBounds ↔
      unSize.toNat ∈ [0, 2, 3, 4, 6, 8, 16, 20] ∨ bodyMsgPos ≤ unSize.toNat) ∧
    (decode host buffer unSize ≠ .error .outOfBounds ↔
      unSize.toNat ∈ [0, 1, 4, 5, 6, 7] ∨ bodyMsgPos ≤ unSize.toNat) := by
  have hencode := (encode_escapes host rfl hbuffer head).trans (escapes_encodeAccesses _)
  have hdecode := (decode_escapes host rfl hbuffer).trans (escapes_decodeAccesses _)
  exact ⟨(not_congr hencode).trans not_not, (not_congr hdecode).trans not_not⟩

/-- A buffer of eight bytes. -/
theorem assertions_suffice_eight :
    (encode .little ⟨100, 2, 1, 0, 101, 0, 0, 0⟩ (List.replicate 8 0) 8 ≠ .error .outOfBounds ↔
      (8 : UInt32).toNat ∈ [0, 2, 3, 4, 6, 8, 16, 20] ∨ bodyMsgPos ≤ (8 : UInt32).toNat) ∧
    (decode .little (List.replicate 8 0) 8 ≠ .error .outOfBounds ↔
      (8 : UInt32).toNat ∈ [0, 1, 4, 5, 6, 7] ∨ bodyMsgPos ≤ (8 : UInt32).toNat) :=
  assertions_suffice_iff .little ⟨100, 2, 1, 0, 101, 0, 0, 0⟩ (by decide)

/-- `decode` reads past the end of a buffer of eight bytes. -/
theorem assertions_insufficient :
    ¬∀ (host : ByteOrder) (unSize : UInt32) (buffer : List UInt8), buffer.length = unSize.toNat →
      (∀ head, encode host head buffer unSize ≠ .error .outOfBounds) ∧
        decode host buffer unSize ≠ .error .outOfBounds := by
  intro h
  exact (h .little 8 (List.replicate 8 0) (by decide)).2 (by decide +kernel)

end NodeManager.DataHeadCodec
