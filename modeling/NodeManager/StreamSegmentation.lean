import Mathlib.Data.List.SplitLengths
import NodeManager.ClientConnect
import NodeManager.Library.Segmentation
import NodeManager.NodeConnect

/-!
# Messages handled from a stream that is cut at will

Both read callbacks read once per arrival and keep nothing between calls, so
they take whatever one read returns for a whole frame. Whatever the frames
contain, exactly the messages that were sent are handled if and only if each
arrival completes the next frame; the client must also not be told to close
before the last frame.
-/

namespace NodeManager

open ByteMemory Segmentation

variable (host : ByteOrder) (parse : Parser)

/-- A message as it is handed to `PbCodec::Decode`: identifier and body. -/
abbrev Message := UInt16 × List UInt8

/-- A frame as its sender means it. -/
structure Frame where
  bytes : List UInt8
  length_eq : bytes.length = frameSize
  type_eq : (DataHeadCodec.headAt host bytes).ucType = ProtocolType.pb.code
  fits : bodyMsgPos + (DataHeadCodec.headAt host bytes).usLen.toNat ≤ frameSize

variable {host} in
/-- The message that a frame carries. -/
def Frame.message (frame : Frame host) : Message :=
  let head := DataHeadCodec.headAt host frame.bytes
  (head.usMsgId, (frame.bytes.drop bodyMsgPos).take head.usLen.toNat)

/-- A way of cutting `n` frames into non-empty pieces. -/
structure Cut (n : ℕ) where
  /-- The lengths of the pieces. -/
  lengths : List ℕ
  positive : ∀ l ∈ lengths, 0 < l
  total : lengths.sum = frameSize * n

/-- An arrival: the memory that the callback finds, and the new bytes. -/
abbrev Arrival := Stack × List UInt8

variable {host} in
/-- The arrivals bring the frames, cut as given. -/
def Delivers {n : ℕ} (cut : Cut n) (frames : List (Frame host)) (arrivals : List Arrival) : Prop :=
  lengths arrivals = cut.lengths ∧ stream arrivals = (frames.map Frame.bytes).flatten

/-- The messages handled by the effects of server callbacks. -/
def NodeConnect.handled (actions : List NodeConnect.Action) : List Message :=
  actions.filterMap fun
    | .decode msgId body => some (msgId, body)
    | _ => none

/-- The messages handled by the effects of client callbacks. -/
def ClientConnect.handled (actions : List ClientConnect.Action) : List Message :=
  actions.filterMap fun
    | .decode msgId body => some (msgId, body)
    | _ => none

/-- The messages that `NodeConnect::ReadCallBack` handles, one call for each
content of the input buffer. -/
def serverHandles : List Arrival → Except Fault (List Message)
  | [] => return []
  | input :: inputs => do
    let actions ← NodeConnect.readCallBack host parse input.1 input.2
    let later ← serverHandles inputs
    return NodeConnect.handled actions ++ later

/-- The messages that `ClientConnect::ReadCB` handles before the process
exits. -/
def clientHandles : List Arrival → Except Fault (List Message)
  | [] => return []
  | input :: inputs => do
    let actions ← ClientConnect.readCB host input.1 input.2
    if .exit ∈ actions then return ClientConnect.handled actions
    else
      let later ← clientHandles inputs
      return ClientConnect.handled actions ++ later

/-- Whatever frames with these identifiers are sent, cut as given, the server
handles exactly what was sent. -/
def ServerIndependent (ids : List UInt16) (cut : Cut ids.length) : Prop :=
  ∀ (frames : List (Frame host)) (arrivals : List Arrival),
    frames.map (fun frame => frame.message.1) = ids → Delivers cut frames arrivals →
      serverHandles host parse (inputs frameSize [] arrivals) = .ok (frames.map Frame.message)

/-- Whatever frames with these identifiers are sent, cut as given, the client
handles exactly what was sent. -/
def ClientIndependent (ids : List UInt16) (cut : Cut ids.length) : Prop :=
  ∀ (frames : List (Frame host)) (arrivals : List Arrival),
    frames.map (fun frame => frame.message.1) = ids → Delivers cut frames arrivals →
      clientHandles host (inputs frameSize [] arrivals) = .ok (frames.map Frame.message)

/-- The message that one read makes the callbacks handle. -/
def received (input : Arrival) : Option Message :=
  let head := DataHeadCodec.headAt host (databuff input.2)
  if input.2 = [] ∨ head.ucType ≠ ProtocolType.pb.code then none
  else some (head.usMsgId, bytesFrom input.1 (databuff input.2) bodyMsgPos head.usLen.toNat)

/-- The client exits after the message of this read. -/
def closes (input : Arrival) : Prop :=
  (received host input).map Prod.fst = some MsgID.reqCloseNode.code

instance (input : Arrival) : Decidable (closes host input) :=
  inferInstanceAs (Decidable (_ = _))

/-- The reads of the client up to the one after which it exits. -/
def heard : List Arrival → List Arrival
  | [] => []
  | input :: inputs => input :: if closes host input then [] else heard inputs

theorem serverHandles_eq (inputs : List Arrival) :
    serverHandles host parse inputs = .ok (inputs.filterMap (received host)) := by
  induction inputs with
  | nil => rfl
  | cons input inputs ih =>
    rw [serverHandles, NodeConnect.readCallBack_eq, ok_bind, ih, ok_bind, List.filterMap_cons]
    dsimp only [received]
    by_cases hskip : input.2 = [] ∨
        (DataHeadCodec.headAt host (databuff input.2)).ucType ≠ ProtocolType.pb.code
    · rw [if_pos hskip, if_pos hskip]
      rfl
    · rw [if_neg hskip, if_neg hskip]
      unfold NodeConnect.handle
      split
      · rfl
      · split
        · rfl
        · rfl

/-- The client handles one message per read and exits on `REQ_CLOSE_NODE`. -/
theorem handled_handle (msgId : UInt16) (body : List UInt8) :
    ClientConnect.handled (ClientConnect.handle msgId body) = [(msgId, body)] ∧
      (ClientConnect.Action.exit ∈ ClientConnect.handle msgId body ↔
        msgId = MsgID.reqCloseNode.code) := by
  have hloginOpen : MsgID.respNodeLogin.code ≠ MsgID.reqCloseNode.code := by decide
  have hbeatOpen : MsgID.respHeartBeat.code ≠ MsgID.reqCloseNode.code := by decide
  unfold ClientConnect.handle
  by_cases hlogin : msgId = MsgID.respNodeLogin.code
  · rw [if_pos hlogin]
    refine ⟨rfl, fun hmem => ?_, fun h => absurd (hlogin.symm.trans h) hloginOpen⟩
    simp only [List.mem_cons, reduceCtorEq, List.not_mem_nil, or_self] at hmem
  · rw [if_neg hlogin]
    by_cases hbeat : msgId = MsgID.respHeartBeat.code
    · rw [if_pos hbeat]
      refine ⟨rfl, fun hmem => ?_, fun h => absurd (hbeat.symm.trans h) hbeatOpen⟩
      simp only [List.mem_cons, reduceCtorEq, List.not_mem_nil, or_self] at hmem
    · rw [if_neg hbeat]
      by_cases hclose : msgId = MsgID.reqCloseNode.code
      · rw [if_pos hclose]
        exact ⟨rfl, fun _ => hclose, fun _ => List.mem_cons_of_mem _ List.mem_cons_self⟩
      · rw [if_neg hclose]
        refine ⟨rfl, fun hmem => ?_, fun h => absurd h hclose⟩
        simp only [List.mem_cons, reduceCtorEq, List.not_mem_nil, or_self] at hmem

theorem clientHandles_eq (inputs : List Arrival) :
    clientHandles host inputs = .ok ((heard host inputs).filterMap (received host)) := by
  induction inputs with
  | nil => rfl
  | cons input inputs ih =>
    rw [clientHandles, ClientConnect.readCB_eq, ok_bind, ih, heard, List.filterMap_cons]
    by_cases hskip : input.2 = [] ∨
        (DataHeadCodec.headAt host (databuff input.2)).ucType ≠ ProtocolType.pb.code
    · have hnone : received host input = none := if_pos hskip
      have hopen : ¬closes host input := by
        simp only [closes, hnone, Option.map_none, reduceCtorEq, not_false_eq_true]
      dsimp only
      rw [hnone, if_neg hopen, if_pos hskip]
      rfl
    · obtain ⟨msgId, body, hsome, hactions⟩ : ∃ msgId body,
          received host input = some (msgId, body) ∧
          ClientConnect.handle (DataHeadCodec.headAt host (databuff input.2)).usMsgId
            (bytesFrom input.1 (databuff input.2) bodyMsgPos
              (DataHeadCodec.headAt host (databuff input.2)).usLen.toNat) =
            ClientConnect.handle msgId body := ⟨_, _, if_neg hskip, rfl⟩
      have hcloses : closes host input ↔ msgId = MsgID.reqCloseNode.code := by
        rw [closes, hsome, Option.map_some, Option.some.injEq]
      obtain ⟨hmessages, hexit⟩ := handled_handle msgId body
      dsimp only
      rw [if_neg hskip, hactions, hmessages, hsome]
      by_cases hclose : closes host input
      · rw [if_pos (hexit.mpr (hcloses.mp hclose)), if_pos hclose]
        rfl
      · rw [if_neg fun h => hclose (hcloses.mpr (hexit.mp h)), if_neg hclose]
        rfl

theorem heard_sublist (inputs : List Arrival) : (heard host inputs).Sublist inputs := by
  induction inputs with
  | nil => exact List.Sublist.refl _
  | cons input inputs ih =>
    rw [heard]
    split
    · exact List.Sublist.cons_cons _ (List.nil_sublist _)
    · exact List.Sublist.cons_cons _ ih

/-- Identifiers of the messages of some reads. -/
def receivedIds (inputs : List Arrival) : List UInt16 :=
  (inputs.filterMap (received host)).map Prod.fst

theorem receivedIds_cons (input : Arrival) (inputs : List Arrival) :
    receivedIds host (input :: inputs) =
      ((received host input).map Prod.fst).toList ++ receivedIds host inputs := by
  rw [receivedIds, List.filterMap_cons]
  cases received host input with
  | none => rfl
  | some message => rfl

/-- Among the messages that the client handles only the last one can be
`REQ_CLOSE_NODE`. -/
theorem heard_closes_last (inputs : List Arrival) :
    MsgID.reqCloseNode.code ∉ (receivedIds host (heard host inputs)).dropLast := by
  induction inputs with
  | nil => exact List.not_mem_nil
  | cons input inputs ih =>
    rw [heard, receivedIds_cons]
    by_cases hclose : closes host input
    · have hid : (received host input).map Prod.fst = some MsgID.reqCloseNode.code := hclose
      rw [if_pos hclose, hid]
      exact List.not_mem_nil
    · rw [if_neg hclose]
      cases hid : (received host input).map Prod.fst with
      | none => exact ih
      | some id =>
        have hne : MsgID.reqCloseNode.code ≠ id := by
          intro h
          exact hclose (by rw [closes, hid, h])
        cases hlater : receivedIds host (heard host inputs) with
        | nil => exact List.not_mem_nil
        | cons id' ids =>
          rw [hlater] at ih
          intro hmem
          rcases List.mem_cons.mp hmem with h | h
          · exact hne h
          · exact ih h

/-- Where no message before the last one is `REQ_CLOSE_NODE`, the client
handles the messages of all reads. -/
theorem heard_all {inputs : List Arrival}
    (hlast : MsgID.reqCloseNode.code ∉ (receivedIds host inputs).dropLast) :
    (heard host inputs).filterMap (received host) = inputs.filterMap (received host) := by
  induction inputs with
  | nil => rfl
  | cons input inputs ih =>
    rw [receivedIds_cons] at hlast
    rw [heard, List.filterMap_cons, List.filterMap_cons]
    by_cases hclose : closes host input
    · have hnil : inputs.filterMap (received host) = [] := by
        have hid : (received host input).map Prod.fst = some MsgID.reqCloseNode.code := hclose
        rw [hid] at hlast
        cases hlater : receivedIds host inputs with
        | nil => exact List.map_eq_nil_iff.mp hlater
        | cons id ids =>
          rw [hlater] at hlast
          exact absurd List.mem_cons_self hlast
      rw [if_pos hclose, hnil]
      rfl
    · have hrest : MsgID.reqCloseNode.code ∉ (receivedIds host inputs).dropLast := by
        intro hmem
        refine hlast ?_
        cases (received host input).map Prod.fst with
        | none => exact hmem
        | some id =>
          cases hlater : receivedIds host inputs with
          | nil =>
            rw [hlater] at hmem
            cases hmem
          | cons id' ids =>
            rw [hlater] at hmem
            exact List.mem_cons_of_mem id hmem
      rw [if_neg hclose, ih hrest]

/-- A read that returns a whole frame handles its message. -/
theorem received_frame (frame : Frame host) {input : Arrival}
    (h : input.2.take frameSize = frame.bytes) : received host input = some frame.message := by
  have hbuff : databuff input.2 = frame.bytes := by
    rw [← databuff_frame frame.length_eq, databuff, h, databuff,
      List.take_of_length_le frame.length_eq.le]
  have hne : input.2 ≠ [] := by
    intro hnil
    have hlen := frame.length_eq
    rw [← h, hnil, List.take_nil, frameSize] at hlen
    cases hlen
  rw [received, hbuff, if_neg (not_or.mpr ⟨hne, not_not.mpr frame.type_eq⟩),
    bytesFrom_inside input.1 (by rw [frame.length_eq]; exact frame.fits)]
  rfl

theorem received_frames {inputs : List Arrival} {frames : List (Frame host)}
    (h : inputs.map (fun input => input.2.take frameSize) = frames.map Frame.bytes) :
    inputs.filterMap (received host) = frames.map Frame.message := by
  induction inputs generalizing frames with
  | nil =>
    obtain rfl := List.map_eq_nil_iff.mp h.symm
    rfl
  | cons input inputs ih =>
    cases frames with
    | nil => cases h
    | cons frame frames =>
      obtain ⟨hfirst, hrest⟩ := List.cons.inj h
      rw [List.filterMap_cons, received_frame host frame hfirst, List.map_cons]
      dsimp only
      rw [ih hrest]

/-- Aligned arrivals make every read return the next frame. -/
theorem received_of_aligned {n : ℕ} {cut : Cut n} (haligned : Aligned frameSize n cut.lengths)
    {frames : List (Frame host)} (hcount : frames.length = n) {arrivals : List Arrival}
    (hdelivers : Delivers cut frames arrivals) :
    (inputs frameSize [] arrivals).filterMap (received host) = frames.map Frame.message := by
  obtain ⟨hlengths, hstream⟩ := hdelivers
  obtain ⟨hlen, hready⟩ := haligned
  refine received_frames host (reads_eq_blocks ?_ hstream ?_ ?_)
  · intro block hblock
    obtain ⟨frame, _, rfl⟩ := List.mem_map.mp hblock
    exact frame.length_eq
  · rw [List.length_map, hcount, ← hlen, ← hlengths, lengths, List.length_map]
  · intro k hk
    rw [List.length_map, hcount] at hk
    rw [hlengths, List.length_nil, Nat.zero_add]
    exact hready k hk

/-- The longest body, without a zero byte. -/
def brimBody : List UInt8 := List.replicate 1000 1

/-- A frame with the given identifier that is filled to its last byte. -/
def brimFrame (id : UInt16) : Frame host :=
  let head : StructProtocolHead := ⟨100, 2, ProtocolType.pb.code, 1000, id, 0, 0, 0⟩
  have hread : DataHeadCodec.headAt host (frameOf host head brimBody) =
      DataHeadCodec.roundTripped host head := headAt_frameOf host head brimBody
  { bytes := frameOf host head brimBody
    length_eq := frameOf_length (by rw [brimBody, List.length_replicate]; decide)
    type_eq := by rw [hread]; rfl
    fits := by rw [hread]; exact Nat.le_refl 1024 }

theorem brimFrame_message (id : UInt16) : (brimFrame host id).message = (id, brimBody) := by
  have hread := headAt_frameOf host ⟨100, 2, ProtocolType.pb.code, 1000, id, 0, 0, 0⟩ brimBody
  have hbody := body_frameOf host ⟨100, 2, ProtocolType.pb.code, 1000, id, 0, 0, 0⟩ brimBody
  have hlen : brimBody.length = 1000 := List.length_replicate ..
  rw [hlen] at hbody
  unfold Frame.message brimFrame
  dsimp only
  rw [hread]
  exact Prod.ext rfl hbody

theorem brimFrames_messages (ids : List UInt16) :
    (ids.map (brimFrame host)).map Frame.message = ids.map fun id => (id, brimBody) := by
  rw [List.map_map]
  exact List.map_congr_left fun id _ => brimFrame_message host id

/-- A call that handles a body filled to the brim has read a whole frame. -/
theorem frameSize_le_of_received {input : Arrival} {id : UInt16}
    (h : received host input = some (id, brimBody)) : frameSize ≤ input.2.length := by
  by_contra hshort
  have hlen : (input.2.take frameSize).length = input.2.length := by
    rw [List.length_take]
    omega
  have hbody : bytesFrom input.1 (databuff input.2) bodyMsgPos
      (DataHeadCodec.headAt host (databuff input.2)).usLen.toNat = brimBody := by
    dsimp only [received] at h
    split at h
    · cases h
    · exact congrArg Prod.snd (Option.some.inj h)
  have hcount : (DataHeadCodec.headAt host (databuff input.2)).usLen.toNat = 1000 := by
    have h := congrArg List.length hbody
    rwa [bytesFrom_length, brimBody, List.length_replicate] at h
  have hfits : bodyMsgPos + 1000 ≤ (databuff input.2).length := by
    rw [databuff_length]
    decide
  rw [hcount, bytesFrom_inside input.1 hfits] at hbody
  -- the last byte of `databuff` was not read and still has its initial value
  have hlast : (databuff input.2)[1023]? = some 0 := by
    unfold frameSize at hshort
    have hindex : input.2.length + (1023 - input.2.length) = 1023 := by omega
    rw [databuff, overlay, List.getElem?_append_right (by rw [hlen]; omega), List.getElem?_drop,
      hlen, hindex, List.getElem?_replicate_of_lt (by decide)]
  have hone : (((databuff input.2).drop bodyMsgPos).take 1000)[999]? = some 1 := by
    rw [hbody, brimBody, List.getElem?_replicate_of_lt (by decide)]
  rw [List.getElem?_take_of_lt (by decide), List.getElem?_drop] at hone
  exact absurd (hone.symm.trans hlast) (by decide)

/-- The calls that handle bodies filled to the brim are at most as many as
the reads of a whole frame. -/
theorem count_of_received {inputs : List Arrival} {ids : List UInt16}
    (h : inputs.filterMap (received host) = ids.map fun id => (id, brimBody)) :
    ids.length ≤ inputs.countP fun input => frameSize ≤ input.2.length := by
  induction inputs generalizing ids with
  | nil =>
    obtain rfl := List.map_eq_nil_iff.mp h.symm
    exact Nat.zero_le _
  | cons input inputs ih =>
    rw [List.filterMap_cons] at h
    rw [List.countP_cons]
    cases hinput : received host input with
    | none =>
      rw [hinput] at h
      have hrest := ih h
      omega
    | some message =>
      rw [hinput] at h
      cases ids with
      | nil => cases h
      | cons id ids =>
        obtain ⟨rfl, hrest⟩ := List.cons.inj h
        have hfull := frameSize_le_of_received host hinput
        have hle := ih hrest
        rw [if_pos (by simpa using hfull), List.length_cons]
        omega

/-- The arrivals that bring the frames filled to the brim. -/
def brimArrivals (ids : List UInt16) (cut : Cut ids.length) : List Arrival :=
  let bytes := ((ids.map (brimFrame host)).map Frame.bytes).flatten
  (cut.lengths.splitLengths bytes).map fun piece =>
    (⟨fun _ => 0, ⟨0, 0, 0, 0, 0, 0, 0, 0⟩⟩, piece)

theorem frames_length (frames : List (Frame host)) :
    (frames.map Frame.bytes).flatten.length = frameSize * frames.length := by
  induction frames with
  | nil => rfl
  | cons frame frames ih =>
    rw [List.map_cons, List.flatten_cons, List.length_append, ih, frame.length_eq,
      List.length_cons, Nat.mul_succ, Nat.add_comm]

theorem brimArrivals_deliver (ids : List UInt16) (cut : Cut ids.length) :
    Delivers cut (ids.map (brimFrame host)) (brimArrivals host ids cut) := by
  have hlen : ((ids.map (brimFrame host)).map Frame.bytes).flatten.length = cut.lengths.sum := by
    rw [frames_length, List.length_map, cut.total]
  constructor
  · rw [lengths, brimArrivals, List.map_map]
    exact List.map_splitLengths_length _ _ hlen.ge
  · rw [stream, brimArrivals, List.flatMap_map, List.flatMap_id']
    exact List.flatten_splitLengths _ _ hlen.le

/-- Handling all frames filled to the brim, on some of the reads already,
takes aligned arrivals. -/
theorem aligned_of_received {ids : List UInt16} {cut : Cut ids.length} {seen : List Arrival}
    (hseen : seen.Sublist (inputs frameSize [] (brimArrivals host ids cut)))
    (h : seen.filterMap (received host) = ids.map fun id => (id, brimBody)) :
    Aligned frameSize ids.length cut.lengths := by
  obtain ⟨hlengths, _⟩ := brimArrivals_deliver host ids cut
  have hcount := (count_of_received host h).trans hseen.countP_le
  have haligned := aligned_of_full (by decide) (hlengths ▸ cut.positive) (hlengths ▸ cut.total)
    hcount
  rwa [hlengths] at haligned

theorem serverIndependent_iff (ids : List UInt16) (cut : Cut ids.length) :
    ServerIndependent host parse ids cut ↔ Aligned frameSize ids.length cut.lengths := by
  constructor
  · intro h
    have hbrim := h (ids.map (brimFrame host)) (brimArrivals host ids cut)
      (by simp only [List.map_map, Function.comp_def, brimFrame_message, List.map_id'])
      (brimArrivals_deliver host ids cut)
    rw [serverHandles_eq, brimFrames_messages, Except.ok.injEq] at hbrim
    exact aligned_of_received host (List.Sublist.refl _) hbrim
  · intro haligned frames arrivals hids hdelivers
    have hcount : frames.length = ids.length := by rw [← hids, List.length_map]
    rw [serverHandles_eq, received_of_aligned host haligned hcount hdelivers]

theorem clientIndependent_iff (ids : List UInt16) (cut : Cut ids.length) :
    ClientIndependent host ids cut ↔
      Aligned frameSize ids.length cut.lengths ∧ MsgID.reqCloseNode.code ∉ ids.dropLast := by
  constructor
  · intro h
    have hbrim := h (ids.map (brimFrame host)) (brimArrivals host ids cut)
      (by simp only [List.map_map, Function.comp_def, brimFrame_message, List.map_id'])
      (brimArrivals_deliver host ids cut)
    rw [clientHandles_eq, brimFrames_messages, Except.ok.injEq] at hbrim
    refine ⟨aligned_of_received host (heard_sublist host _) hbrim, ?_⟩
    have hlast := heard_closes_last host (inputs frameSize [] (brimArrivals host ids cut))
    rw [receivedIds, hbrim, List.map_map] at hlast
    simpa only [Function.comp_def, List.map_id'] using hlast
  · rintro ⟨haligned, hlast⟩ frames arrivals hids hdelivers
    have hcount : frames.length = ids.length := by rw [← hids, List.length_map]
    have hall := received_of_aligned host haligned hcount hdelivers
    have hreceived : receivedIds host (inputs frameSize [] arrivals) = ids := by
      rw [receivedIds, hall, List.map_map]
      exact hids
    rw [clientHandles_eq, heard_all host (hreceived.symm ▸ hlast), hall]

/-- Exactly the messages that were sent are handled, whatever the frames
contain, if and only if each arrival completes the next frame; for the client
also no frame before the last one may ask it to close. -/
theorem segmentation_iff (ids : List UInt16) (cut : Cut ids.length) :
    (ServerIndependent host parse ids cut ↔ Aligned frameSize ids.length cut.lengths) ∧
      (ClientIndependent host ids cut ↔ Aligned frameSize ids.length cut.lengths ∧
        MsgID.reqCloseNode.code ∉ ids.dropLast) :=
  ⟨serverIndependent_iff host parse ids cut, clientIndependent_iff host ids cut⟩

/-- The client's heartbeat request as a frame. -/
def heartBeat : Frame host :=
  have hread := headAt_frameOf host ClientConnect.heatBeatHead []
  { bytes := ClientConnect.heatBeatFrame host
    length_eq := frameOf_length (by decide)
    type_eq := by rw [ClientConnect.heatBeatFrame, hread]; rfl
    fits := by
      have hempty : bodyMsgPos + (0 : UInt16).toNat ≤ frameSize := by decide
      rwa [ClientConnect.heatBeatFrame, hread] }

/-- Two heartbeat requests that arrive together are handled as one. -/
theorem coalesced_heartBeats : ¬∀ (host : ByteOrder) (parse : Parser) (frames : List (Frame host))
    (cut : Cut frames.length) (arrivals : List Arrival), Delivers cut frames arrivals →
      serverHandles host parse (inputs frameSize [] arrivals) = .ok (frames.map Frame.message) ∧
      clientHandles host (inputs frameSize [] arrivals) = .ok (frames.map Frame.message) := by
  intro h
  let frames : List (Frame .little) := [heartBeat .little, heartBeat .little]
  let bytes := (frames.map Frame.bytes).flatten
  have hbytes : bytes.length = 2048 := frames_length .little frames
  have hboth := h .little (fun _ => (false, {})) frames ⟨[2048], by decide, rfl⟩ [(.zeros, bytes)]
    ⟨congrArg (fun n => [n]) hbytes, List.append_nil bytes⟩
  have hserver := hboth.1
  rw [serverHandles_eq, Except.ok.injEq] at hserver
  have hle := List.length_filterMap_le (received .little)
    (inputs frameSize [] [(.zeros, bytes)])
  rw [hserver] at hle
  exact absurd hle (by decide)

end NodeManager
