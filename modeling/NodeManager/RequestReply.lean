import Mathlib.Data.List.Forall2
import NodeManager.NodeConnect

/-!
# Requests of a connection and the frames written for them

A run of the reads of one connection. A heartbeat request and a login
request are answered by exactly one frame with the matching identifier; the
write at the end of `ReadCallBack` also answers every other protobuf message,
with a frame of zeros.
-/

namespace NodeManager.NodeConnect

open ByteMemory

variable (host : ByteOrder) (parse : Parser)

/-- The bytes that one `bufferevent_read` returns to the callback. -/
structure Read where
  /-- The bytes removed from the input buffer. -/
  bytes : List UInt8
  /-- The memory around the buffers of this call. -/
  stack : Stack
  nonempty : 0 < bytes.length
  fits : bytes.length ≤ frameSize

/-- The head that the callback decodes from a read. -/
def Read.head (r : Read) : StructProtocolHead := DataHeadCodec.headAt host (databuff r.bytes)

/-- What the effects of a callback write to the connection. -/
def written (actions : List Action) : List (List UInt8) :=
  actions.filterMap fun
    | .write bytes => some bytes
    | _ => none

/-- The writes of each callback of a run, in order. -/
def replies (reads : List Read) : Except Fault (List (List (List UInt8))) :=
  reads.mapM fun r => written <$> readCallBack host parse r.stack r.bytes

/-- The reply that a message calls for, if it is a recognised request. -/
def replyId (head : StructProtocolHead) : Option MsgID :=
  if head.ucType ≠ ProtocolType.pb.code then none
  else if head.usMsgId = MsgID.reqHeartBeat.code then some .respHeartBeat
  else if head.usMsgId = MsgID.reqNodeLogin.code then some .respNodeLogin
  else none

/-- One frame of the right identifier for a request, no byte otherwise. -/
def Answers (r : Read) (frames : List (List UInt8)) : Prop :=
  match replyId (r.head host) with
  | none => frames = []
  | some id => ∃ frame head, frames = [frame] ∧ frame.length = frameSize ∧
      DataHeadCodec.decode host frame 1024 = .ok head ∧ head.usMsgId = id.code

/-- The callbacks of a run answer their reads one by one and in order. -/
def AllAnswered (reads : List Read) : Prop :=
  ∃ frames, replies host parse reads = .ok frames ∧ List.Forall₂ (Answers host) reads frames

/-- A message that the callback has a branch for, or that it turns away. -/
def Expected (head : StructProtocolHead) : Prop :=
  head.ucType = ProtocolType.pb.code →
    head.usMsgId = MsgID.reqHeartBeat.code ∨ head.usMsgId = MsgID.reqNodeLogin.code

/-- What one callback writes, as a function of the head it decodes. -/
def reply (stack : Stack) (head : StructProtocolHead) : List (List UInt8) :=
  if head.ucType ≠ ProtocolType.pb.code then []
  else if head.usMsgId = MsgID.reqHeartBeat.code then [heartBeatReply host stack]
  else if head.usMsgId = MsgID.reqNodeLogin.code then [loginReply host stack]
  else [List.replicate frameSize 0]

theorem written_readCallBack (r : Read) :
    written <$> readCallBack host parse r.stack r.bytes =
      .ok (reply host r.stack (r.head host)) := by
  have hne : r.bytes ≠ [] := List.length_pos_iff.mp r.nonempty
  rw [readCallBack_eq]
  dsimp only
  unfold reply Read.head
  by_cases htype : (DataHeadCodec.headAt host (databuff r.bytes)).ucType ≠ ProtocolType.pb.code
  · rw [if_pos htype, if_pos (Or.inr htype)]
    rfl
  · rw [if_neg htype, if_neg (not_or.mpr ⟨hne, htype⟩)]
    unfold handle
    split
    · rfl
    · split
      · rfl
      · rfl

/-- No callback of a run fails, and each writes what `reply` says. -/
theorem replies_eq (reads : List Read) :
    replies host parse reads = .ok (reads.map fun r => reply host r.stack (r.head host)) := by
  induction reads with
  | nil => rfl
  | cons r reads ih =>
    rw [replies, List.mapM_cons, written_readCallBack, ok_bind]
    rw [replies] at ih
    rw [ih]
    rfl

theorem heartBeatReply_decodes (stack : Stack) :
    (heartBeatReply host stack).length = frameSize ∧
      ∃ head, DataHeadCodec.decode host (heartBeatReply host stack) 1024 = .ok head ∧
        head.usMsgId = MsgID.respHeartBeat.code := by
  have hfits : bodyMsgPos + ([] : List UInt8).length ≤ frameSize := by decide
  exact ⟨frameOf_length hfits, _, decode_frameOf hfits, rfl⟩

theorem loginReply_decodes (stack : Stack) :
    (loginReply host stack).length = frameSize ∧
      ∃ head, DataHeadCodec.decode host (loginReply host stack) 1024 = .ok head ∧
        head.usMsgId = MsgID.respNodeLogin.code := by
  have hfits : bodyMsgPos + loginResp.serialize.length ≤ frameSize := by decide
  exact ⟨frameOf_length hfits, _, decode_frameOf hfits, rfl⟩

/-- One callback answers its read exactly when the message is expected. -/
theorem answers_iff (r : Read) :
    Answers host r (reply host r.stack (r.head host)) ↔ Expected (r.head host) := by
  unfold Answers Expected reply replyId
  by_cases htype : (r.head host).ucType ≠ ProtocolType.pb.code
  · rw [if_pos htype, if_pos htype]
    exact ⟨fun _ h => absurd h htype, fun _ => rfl⟩
  · rw [if_neg htype, if_neg htype]
    by_cases hbeat : (r.head host).usMsgId = MsgID.reqHeartBeat.code
    · rw [if_pos hbeat, if_pos hbeat]
      obtain ⟨hlen, head, hdecode, hid⟩ := heartBeatReply_decodes host r.stack
      exact ⟨fun _ _ => Or.inl hbeat, fun _ => ⟨_, head, rfl, hlen, hdecode, hid⟩⟩
    · rw [if_neg hbeat, if_neg hbeat]
      by_cases hlogin : (r.head host).usMsgId = MsgID.reqNodeLogin.code
      · rw [if_pos hlogin, if_pos hlogin]
        obtain ⟨hlen, head, hdecode, hid⟩ := loginReply_decodes host r.stack
        exact ⟨fun _ _ => Or.inr hlogin, fun _ => ⟨_, head, rfl, hlen, hdecode, hid⟩⟩
      · rw [if_neg hlogin, if_neg hlogin]
        constructor
        · intro hzero
          cases hzero
        · intro hexpected
          have h := hexpected (not_not.mp htype)
          rcases h with h | h
          · exact absurd h hbeat
          · exact absurd h hlogin

/-- The frames of a run correspond to its requests exactly when every
protobuf message of the run is a heartbeat request or a login request. -/
theorem allAnswered_iff (reads : List Read) :
    AllAnswered host parse reads ↔ ∀ r ∈ reads, Expected (r.head host) := by
  have hpointwise : AllAnswered host parse reads ↔
      ∀ r ∈ reads, Answers host r (reply host r.stack (r.head host)) := by
    unfold AllAnswered
    rw [replies_eq]
    constructor
    · rintro ⟨frames, hframes, hall⟩
      cases hframes
      rw [List.forall₂_map_right_iff, List.forall₂_same] at hall
      exact hall
    · intro hall
      refine ⟨_, rfl, ?_⟩
      rw [List.forall₂_map_right_iff, List.forall₂_same]
      exact hall
  rw [hpointwise]
  exact forall₂_congr fun r _ => answers_iff host r

/-- A read of the first eight bytes of a `REQ_CLOSE_NODE` message. -/
def closeRequest (stack : Stack) : Read where
  bytes := [0, 100, 2, 1, 0, 0, 0, 102]
  stack := stack
  nonempty := by decide
  fits := by decide

/-- The server answers a `REQ_CLOSE_NODE` message with 1024 zeros. -/
theorem closeRequest_answered : ¬∀ (host : ByteOrder) (parse : Parser) (reads : List Read),
    AllAnswered host parse reads := by
  intro h
  obtain ⟨frames, hframes, hall⟩ := h .little (fun _ => (false, {})) [closeRequest .zeros]
  rw [replies_eq] at hframes
  cases hframes
  have hone : Answers .little (closeRequest .zeros) _ := (List.forall₂_cons.mp hall).1
  have hexpected := (answers_iff .little (closeRequest .zeros)).mp hone
  exact absurd hexpected (by unfold Expected; decide)

end NodeManager.NodeConnect
