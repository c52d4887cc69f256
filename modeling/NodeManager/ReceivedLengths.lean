import NodeManager.ClientConnect
import NodeManager.NodeConnect

/-!
# The lengths of received messages

Both read callbacks get the number of bytes read and compare it with zero
only. The head is decoded from the whole `databuff`, and the length that it
claims is handed on with a pointer to the body, so a short read is filled up
with zeros, and a long claim reaches what lies behind `databuff`.
-/

namespace NodeManager

open ByteMemory DataHeadCodec

variable (host : ByteOrder)

/-- The bytes that one `bufferevent_read` returns. -/
def bytesRead (input : List UInt8) : List UInt8 := input.take frameSize

/-- The head and the body lie within the bytes received. -/
structure WithinReceived (input : List UInt8) (head : StructProtocolHead) (body : List UInt8) :
    Prop where
  headFits : bodyMsgPos ≤ (bytesRead input).length
  headEq : head = headAt host (bytesRead input)
  bodyFits : bodyMsgPos + head.usLen.toNat ≤ (bytesRead input).length
  bodyEq : body = ((bytesRead input).drop bodyMsgPos).take head.usLen.toNat

/-- Whatever either callback does, it does with a head and a body that lie
within the bytes received. -/
structure LengthsChecked (input : List UInt8) : Prop where
  server : ∀ parse stack actions, NodeConnect.readCallBack host parse stack input = .ok actions →
    actions ≠ [] → ∃ head body, WithinReceived host input head body ∧
      actions = NodeConnect.handle host parse stack head body
  client : ∀ stack actions, ClientConnect.readCB host stack input = .ok actions →
    actions ≠ [] → ∃ head body, WithinReceived host input head body ∧
      actions = ClientConnect.handle head.usMsgId body

/-- A message that passes the format test was received as long as it claims. -/
def ClaimsReceived (input : List UInt8) : Prop :=
  (headAt host (databuff input)).ucType = ProtocolType.pb.code →
    bodyMsgPos + (headAt host (databuff input)).usLen.toNat ≤ (bytesRead input).length

section Reading

variable {host} {input : List UInt8}

/-- A head does not depend on what follows it. -/
theorem headAt_append (host : ByteOrder) {front : List UInt8} (h : bodyMsgPos ≤ front.length)
    (back : List UInt8) : headAt host (front ++ back) = headAt host front := by
  unfold bodyMsgPos at h
  have hfield : ∀ offset width, offset + width ≤ 24 →
      ((front ++ back).drop offset).take width = (front.drop offset).take width := by
    intro offset width hfits
    rw [List.drop_append_of_le_length (by omega), List.take_append_of_le_length]
    rw [List.length_drop]
    omega
  have hshort : ∀ offset, offset + 2 ≤ 24 →
      shortAt (front ++ back) offset = shortAt front offset := by
    intro offset hfits
    rw [shortAt, hfield offset 2 hfits, shortAt]
  have hint : ∀ offset, offset + 4 ≤ 24 →
      intAt host (front ++ back) offset = intAt host front offset := by
    intro offset hfits
    rw [intAt, hfield offset 4 hfits, intAt]
  have hbyte : ∀ offset, offset + 1 ≤ 24 →
      ((front ++ back).drop offset).headD 0 = (front.drop offset).headD 0 := by
    intro offset hfits
    have hnext : front.drop offset ≠ [] := by
      rw [Ne, List.drop_eq_nil_iff]
      omega
    obtain ⟨b, bs, hcons⟩ := List.exists_cons_of_ne_nil hnext
    rw [List.drop_append_of_le_length (by omega), hcons]
    rfl
  refine StructProtocolHead.ext (hshort _ (by decide)) (hbyte _ (by decide))
    (hbyte _ (by decide)) (hshort _ (by decide)) (hshort _ (by decide)) ?_
    (hint _ (by decide)) (hint _ (by decide))
  dsimp only [headAt]
  rw [hint headMsgSnPos (by decide), hint (headMsgSnPos + 4) (by decide)]

/-- What was received stands at the start of `databuff`. -/
theorem databuff_eq (input : List UInt8) : databuff input =
    bytesRead input ++ (List.replicate frameSize 0).drop (bytesRead input).length := rfl

/-- Within the bytes received `databuff` holds just these. -/
theorem withinReceived_iff (stack : Stack) :
    WithinReceived host input (headAt host (databuff input))
        (bytesFrom stack (databuff input) bodyMsgPos
          (headAt host (databuff input)).usLen.toNat) ↔
      bodyMsgPos + (headAt host (databuff input)).usLen.toNat ≤ (bytesRead input).length := by
  constructor
  · intro h
    exact h.bodyFits
  · intro hfits
    have hhead : bodyMsgPos ≤ (bytesRead input).length := by omega
    have hall : (bytesRead input).length ≤ (databuff input).length := by
      rw [databuff_eq, List.length_append]
      omega
    refine ⟨hhead, ?_, hfits, ?_⟩
    · rw [databuff_eq, headAt_append host hhead]
    · rw [bytesFrom_inside stack (by omega)]
      set len := (headAt host (databuff input)).usLen.toNat
      rw [databuff_eq, List.drop_append_of_le_length hhead, List.take_append_of_le_length]
      rw [List.length_drop]
      omega

/-- What lies within the bytes received is what the callback reads. -/
theorem WithinReceived.head_eq {head : StructProtocolHead} {body : List UInt8}
    (h : WithinReceived host input head body) : head = headAt host (databuff input) := by
  rw [h.headEq, databuff_eq, headAt_append host h.headFits]

/-- What a callback does for a message that passes the format test it does
within the bytes received, if these are as many as the message claims. -/
theorem ClaimsReceived.within {α : Type} (h : ClaimsReceived host input) (stack : Stack)
    {handle : StructProtocolHead → List UInt8 → List α} {actions : List α}
    (hactions : actions = if input = [] ∨
        (headAt host (databuff input)).ucType ≠ ProtocolType.pb.code then []
      else handle (headAt host (databuff input))
        (bytesFrom stack (databuff input) bodyMsgPos (headAt host (databuff input)).usLen.toNat))
    (hacts : actions ≠ []) :
    ∃ head body, WithinReceived host input head body ∧ actions = handle head body := by
  by_cases hskip : input = [] ∨ (headAt host (databuff input)).ucType ≠ ProtocolType.pb.code
  · rw [if_pos hskip] at hactions
    exact absurd hactions hacts
  · have htype := not_not.mp (not_or.mp hskip).2
    rw [if_neg hskip] at hactions
    exact ⟨_, _, (withinReceived_iff stack).mpr (h htype), hactions⟩

end Reading

/-- An empty read fails the format test. -/
theorem ne_nil_of_format {input : List UInt8}
    (htype : (headAt host (databuff input)).ucType = ProtocolType.pb.code) : input ≠ [] := by
  rintro rfl
  have hzero : ((databuff []).drop headTyperPos).headD 0 ≠ ProtocolType.pb.code := by decide
  exact hzero htype

/-- The client does something for every message that passes the format test. -/
theorem handle_ne_nil (msgId : UInt16) (body : List UInt8) :
    ClientConnect.handle msgId body ≠ [] := by
  unfold ClientConnect.handle
  split
  · exact List.cons_ne_nil _ _
  · split
    · exact List.cons_ne_nil _ _
    · split
      · exact List.cons_ne_nil _ _
      · exact List.cons_ne_nil _ _

/-- Both callbacks stay within the bytes of a read exactly when its message
fails the format test or was received as long as it claims. -/
theorem lengthsChecked_iff (input : List UInt8) :
    LengthsChecked host input ↔ ClaimsReceived host input := by
  constructor
  · intro h htype
    have hskip : ¬(input = [] ∨ (headAt host (databuff input)).ucType ≠ ProtocolType.pb.code) :=
      not_or.mpr ⟨ne_nil_of_format host htype, not_not.mpr htype⟩
    have hclient := ClientConnect.readCB_eq host .zeros input
    dsimp only at hclient
    rw [if_neg hskip] at hclient
    obtain ⟨head, body, hwithin, _⟩ := h.client .zeros _ hclient (handle_ne_nil _ _)
    rw [← hwithin.head_eq]
    exact hwithin.bodyFits
  · intro h
    refine ⟨fun parse stack actions hread hacts => ?_, fun stack actions hread hacts => ?_⟩
    · rw [NodeConnect.readCallBack_eq] at hread
      exact h.within stack (Except.ok.inj hread).symm hacts
    · rw [ClientConnect.readCB_eq] at hread
      exact h.within stack (Except.ok.inj hread).symm hacts

/-- Eight bytes that claim to be a login of 2000 bytes are dispatched. -/
theorem dispatched_beyond_received : ¬∀ (host : ByteOrder) (input : List UInt8),
    1 ≤ input.length → input.length ≤ 1024 → LengthsChecked host input := by
  intro h
  let input : List UInt8 := [0, 100, 2, 1, 7, 208, 0, 101]
  have hchecked := h .little input (by decide) (by decide)
  let parse : Parser := fun _ => (true, {})
  have hread := NodeConnect.readCallBack_eq .little parse .zeros input
  obtain ⟨head, body, hwithin, _⟩ := hchecked.server parse .zeros _ hread (by decide +kernel)
  exact absurd hwithin.headFits (by decide)

end NodeManager
