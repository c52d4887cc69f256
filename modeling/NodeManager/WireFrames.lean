import NodeManager.LeftoverMemory
import NodeManager.LoginFirst
import NodeManager.RequestReply
import NodeManager.ServerInvariant

/-!
# The frames on the wire

Five places fill in a head by hand. The client assigns every field, and so do
the two replies of the server; the write that `ReadCallBack` shares sends a
buffer that no branch has filled, and the close frame carries a length that
nobody assigned. What a frame has to be is one predicate on its bytes, for a
receiver of either byte order.
-/

namespace NodeManager

open ByteMemory TransitionSystem

/-- The body that is serialized behind the head of a message; the messages
other than the login and its response have no fields. -/
def serializedBody : MsgID → List UInt8
  | .reqNodeLogin => ClientConnect.loginMessage.serialize
  | .respNodeLogin => NodeConnect.loginResp.serialize
  | .reqHeartBeat => []
  | .reqCloseNode => []
  | .respHeartBeat => []

/-- The head describes the frame that it was decoded from. -/
structure Describes (head : StructProtocolHead) (frame : List UInt8) : Prop where
  tag : head.usTag = 100
  version : head.ucVersion = 2
  format : head.ucType = ProtocolType.pb.code
  body : ∃ id : MsgID, head.usMsgId = id.code ∧
    head.usLen.toNat = (serializedBody id).length ∧ head.usLen.toNat ≤ 1000 ∧
    (frame.drop bodyMsgPos).take head.usLen.toNat = serializedBody id

/-- A whole frame that every receiver decodes to a head that describes it. -/
def SelfConsistent (frame : List UInt8) : Prop :=
  frame.length = frameSize ∧ ∀ host, ∃ head,
    DataHeadCodec.decode host frame 1024 = .ok head ∧ Describes head frame

section Frames

variable (host : ByteOrder)

theorem serializedBody_length_le (id : MsgID) : (serializedBody id).length ≤ 1000 := by
  cases id <;> decide

/-- A frame with the right tag, version, format, identifier and length. -/
theorem selfConsistent_frameOf (id : MsgID) {head : StructProtocolHead} (htag : head.usTag = 100)
    (hversion : head.ucVersion = 2) (hformat : head.ucType = ProtocolType.pb.code)
    (hid : head.usMsgId = id.code) (hlen : head.usLen.toNat = (serializedBody id).length) :
    SelfConsistent (frameOf host head (serializedBody id)) := by
  have hle := serializedBody_length_le id
  have hfits : bodyMsgPos + (serializedBody id).length ≤ frameSize := by
    unfold bodyMsgPos frameSize
    omega
  have hsize : (frameOf host head (serializedBody id)).length = frameSize := frameOf_length hfits
  have hread := headAt_frameOf host head (serializedBody id)
  refine ⟨hsize, fun receiver => ⟨_, DataHeadCodec.decode_eq receiver (by decide) ?_, ?_⟩⟩
  · rw [hsize]
    decide
  · -- these fields do not depend on the host that reads
    refine ⟨(congrArg (·.usTag) hread).trans htag, (congrArg (·.ucVersion) hread).trans hversion,
      (congrArg (·.ucType) hread).trans hformat, id, (congrArg (·.usMsgId) hread).trans hid, ?_⟩
    have hlength : (DataHeadCodec.headAt receiver
        (frameOf host head (serializedBody id))).usLen.toNat = (serializedBody id).length :=
      (congrArg (·.usLen.toNat) hread).trans hlen
    rw [hlength]
    exact ⟨rfl, hle, body_frameOf host head (serializedBody id)⟩

theorem selfConsistent_loginFrame : SelfConsistent (ClientConnect.loginFrame host) :=
  selfConsistent_frameOf host .reqNodeLogin rfl rfl rfl rfl (by decide)

theorem selfConsistent_heatBeatFrame : SelfConsistent (ClientConnect.heatBeatFrame host) :=
  selfConsistent_frameOf host .reqHeartBeat rfl rfl rfl rfl rfl

theorem selfConsistent_loginReply (stack : Stack) :
    SelfConsistent (NodeConnect.loginReply host stack) :=
  selfConsistent_frameOf host .respNodeLogin rfl rfl rfl rfl rfl

theorem selfConsistent_heartBeatReply (stack : Stack) :
    SelfConsistent (NodeConnect.heartBeatReply host stack) :=
  selfConsistent_frameOf host .respHeartBeat rfl rfl rfl rfl rfl

/-- The buffer that no branch has filled has no tag. -/
theorem not_selfConsistent_zeros : ¬SelfConsistent (List.replicate frameSize 0) := by
  intro h
  obtain ⟨head, hdecode, hdescribes⟩ := h.2 .little
  have hlong : bodyMsgPos ≤ (List.replicate frameSize (0 : UInt8)).length := by
    rw [List.length_replicate]
    decide
  have hzero : DataHeadCodec.decode .little (List.replicate frameSize 0) 1024 =
      .ok (DataHeadCodec.headAt .little (List.replicate frameSize 0)) :=
    DataHeadCodec.decode_eq .little (by decide) hlong
  obtain rfl := Except.ok.inj (hdecode.symm.trans hzero)
  exact absurd hdescribes.tag (by decide)

theorem msgId_eq_of_code {id id' : MsgID} (h : id.code = id'.code) : id = id' := by
  revert h
  cases id <;> cases id' <;> decide

/-- A close frame is in order only where the memory happened to hold a zero. -/
theorem usLen_of_closeFrame {stack : Stack} {frame : List UInt8}
    (hframe : NodeConnect.closeFrame host stack = .ok frame) (h : SelfConsistent frame) :
    stack.head.usLen = 0 := by
  have hfits : bodyMsgPos + ([] : List UInt8).length ≤ frameSize := by decide
  rw [NodeConnect.closeFrame_eq] at hframe
  obtain rfl := Except.ok.inj hframe
  obtain ⟨head, hdecode, hdescribes⟩ := h.2 host
  rw [decode_frameOf hfits] at hdecode
  obtain rfl := Except.ok.inj hdecode
  obtain ⟨id, hid, hlen, _⟩ := hdescribes.body
  have hcode : MsgID.reqCloseNode.code = id.code := hid
  obtain rfl := msgId_eq_of_code hcode
  exact UInt16.toNat_inj.mp hlen

end Frames

namespace Server

/-- All frames written so far are self-consistent. -/
def FramesConsistent (s : State) : Prop := ∀ bev, ∀ frame ∈ s.written bev, SelfConsistent frame

/-- The frames that an event hands to `bufferevent_write`, whatever its first
argument is. -/
def framesWritten (host : ByteOrder) (s : State) : Event → List (List UInt8)
  | .resume worker => (s.pending worker).head?.elim [] fun task =>
      match task.action with
      | .write bytes => [bytes]
      | _ => []
  | .delNode strIp stack => (s.mapNode.lookup strIp).elim [] fun _ =>
      (NodeConnect.closeFrame host stack).toOption.toList
  | _ => []

/-- All frames that the event writes are self-consistent. -/
def WritesConsistent (host : ByteOrder) (s : State) (e : Event) : Prop :=
  ∀ frame ∈ framesWritten host s e, SelfConsistent frame

/-- The step sends no close frame, and writes only in the callback of a message that
`ReadCallBack` recognises. -/
structure FillsFrames (s : State) (e : Event) : Prop where
  closesNothing : ClosesNothing s e
  recognised : ∀ worker, e = .resume worker → ∀ task ∈ (s.pending worker).head?, ∀ bytes,
    task.action = .write bytes → ∀ r ∈ lastRead s.reads task.bev, NodeConnect.Expected r.head

/-- A callback writes a frame in order for a message that it recognises, and a
buffer that it has not filled for any other. -/
theorem readCallBack_write {host : ByteOrder} {parse : Parser} {stack : Stack}
    {input bytes : List UInt8} {actions : List NodeConnect.Action}
    (hread : NodeConnect.readCallBack host parse stack input = .ok actions)
    (hmem : .write bytes ∈ actions) :
    SelfConsistent bytes ∧ NodeConnect.Expected (DataHeadCodec.headAt host (databuff input)) ∨
      bytes = List.replicate frameSize 0 ∧
        ¬NodeConnect.Expected (DataHeadCodec.headAt host (databuff input)) := by
  rw [NodeConnect.readCallBack_eq] at hread
  obtain rfl := Except.ok.inj hread
  dsimp only at hmem
  split at hmem
  · cases hmem
  · next hskip =>
    have hformat := not_not.mp (not_or.mp hskip).2
    unfold NodeConnect.handle at hmem
    split at hmem
    · next hbeat =>
      simp only [List.mem_cons, reduceCtorEq, NodeConnect.Action.write.injEq, List.not_mem_nil,
        or_false, false_or] at hmem
      rw [hmem]
      exact Or.inl ⟨selfConsistent_heartBeatReply host stack, fun _ => Or.inl hbeat⟩
    · next hbeat =>
      split at hmem
      · next hlogin =>
        simp only [List.mem_cons, reduceCtorEq, NodeConnect.Action.write.injEq, List.not_mem_nil,
          or_false, false_or] at hmem
        rw [hmem]
        exact Or.inl ⟨selfConsistent_loginReply host stack, fun _ => Or.inr hlogin⟩
      · next hlogin =>
        simp only [List.mem_cons, reduceCtorEq, NodeConnect.Action.write.injEq, List.not_mem_nil,
          or_false, false_or] at hmem
        exact Or.inr ⟨hmem, fun hexpected => (hexpected hformat).elim hbeat hlogin⟩

/-- A callback that comes to its write has filled the frame if it recognised the
message that it read, and has not if it did not. -/
def Replying (s : State) : Prop :=
  ∀ worker, ∀ task ∈ s.pending worker, ∀ bytes, task.action = .write bytes →
    ∃ r, lastRead s.reads task.bev = some r ∧
      (SelfConsistent bytes ∧ NodeConnect.Expected r.head ∨
        bytes = List.replicate frameSize 0 ∧ ¬NodeConnect.Expected r.head)

section Steps

variable {host : ByteOrder} {parse : Parser} {s s' : State}

/-- What a step writes on a bufferevent it hands to `bufferevent_write`. -/
theorem mem_written_step {e : Event} (hstep : step host parse s e = some s') {bev : Bev}
    {frame : List UInt8} (hmem : frame ∈ s'.written bev) :
    frame ∈ s.written bev ∨ frame ∈ framesWritten host s e := by
  have hquiet : s'.written = s.written → frame ∈ s.written bev ∨ frame ∈ framesWritten host s e :=
    fun hsame => Or.inl (hsame ▸ hmem)
  -- one frame more on some bufferevent
  have hwrite : ∀ (t : State) {other : Bev} {bytes : List UInt8}, t.written = s.written →
      s' = t.buffereventWrite other bytes → bytes ∈ framesWritten host s e →
        frame ∈ s.written bev ∨ frame ∈ framesWritten host s e := by
    rintro t other bytes hsame rfl hbytes
    dsimp only [State.buffereventWrite] at hmem
    by_cases hbev : bev = other
    · rw [hbev, Function.update_self, List.mem_append, List.mem_singleton, hsame] at hmem
      rcases hmem with hold | rfl
      · exact Or.inl (hbev ▸ hold)
      · exact Or.inr hbytes
    · rw [Function.update_of_ne hbev, hsame] at hmem
      exact Or.inl hmem
  cases e with
  | accept pNodeCon worker =>
    obtain ⟨_, rfl⟩ := step_accept hstep
    exact hquiet rfl
  | handlerConnect worker created =>
    obtain ⟨pConnect, rest, _, _, rfl⟩ := step_handlerConnect hstep
    exact hquiet (State.handlerConnect_frame _ pConnect created).1
  | read other stack input =>
    obtain ⟨v, actions, _, _, _, rfl⟩ := step_read hstep
    exact hquiet rfl
  | resume worker =>
    obtain ⟨task, rest, hpending, hs'⟩ := step_resume hstep
    rw [State.perform] at hs'
    cases haction : task.action with
    | decode msgId body =>
      rw [haction] at hs'
      exact hquiet (by rw [hs'])
    | setNodeName strName =>
      rw [haction] at hs'
      exact hquiet (by rw [hs', (State.setNodeName_frame _ _ _).1])
    | addNode info =>
      rw [haction] at hs'
      exact hquiet (by rw [hs']; rfl)
    | write bytes =>
      rw [haction] at hs'
      refine hwrite { s with pending := Function.update s.pending worker rest } rfl hs' ?_
      rw [framesWritten, hpending, List.head?_cons, Option.elim_some, haction]
      exact List.mem_singleton_self bytes
  | errorCallBack other what =>
    obtain ⟨v, _, _, rfl⟩ := step_errorCallBack hstep
    split at hmem
    · exact Or.inl ((s.delete_frame v.arg).1 ▸ hmem)
    · exact Or.inl hmem
  | getAllNode =>
    obtain rfl := step_getAllNode hstep
    split at hmem
    · exact Or.inl hmem
    · exact Or.inl hmem
  | delNode strIp stack =>
    obtain rfl := step_delNode hstep
    cases hlookup : s.mapNode.lookup strIp with
    | none => exact hquiet (by rw [State.delNode_unmapped stack hlookup])
    | some a =>
      have hsent : s.delNode host stack strIp = s.sendReqCloseNode host stack a := by
        rw [State.delNode, hlookup]
      rw [State.sendReqCloseNode, NodeConnect.closeFrame_eq] at hsent
      cases hx : s.heap a with
      | none =>
        rw [hx] at hsent
        exact hquiet (by rw [hsent]; rfl)
      | some x =>
        rw [hx] at hsent
        dsimp only at hsent
        cases hbev : x.bev with
        | none =>
          rw [hbev] at hsent
          exact hquiet (by rw [hsent]; rfl)
        | some other =>
          rw [hbev] at hsent
          refine hwrite s rfl hsent ?_
          rw [framesWritten, hlookup, Option.elim_some, NodeConnect.closeFrame_eq]
          exact List.mem_singleton_self _

/-- Steps that write frames in order leave frames in order. -/
theorem FramesConsistent.step (h : FramesConsistent s) {e : Event}
    (hwrites : WritesConsistent host s e) (hstep : Server.step host parse s e = some s') :
    FramesConsistent s' := fun bev frame hmem =>
  (mem_written_step hstep hmem).elim (h bev frame) (hwrites frame)

/-- Neither a message is read nor a callback entered. -/
theorem Replying.keep (h : Replying s)
    (hpending : ∀ {worker task}, task ∈ s'.pending worker → task ∈ s.pending worker)
    (hreads : s'.reads = s.reads) : Replying s' := by
  intro worker task htask bytes hwrite
  rw [hreads]
  exact h worker task (hpending htask) bytes hwrite

theorem Replying.step (h : Replying s) (hinv : Inv s) {e : Event}
    (hstep : Server.step host parse s e = some s') : Replying s' := by
  have hsame : s'.pending = s.pending → s'.reads = s.reads → Replying s' :=
    fun hpending hreads => h.keep (fun ht => hpending ▸ ht) hreads
  cases e with
  | accept pNodeCon worker =>
    obtain ⟨_, rfl⟩ := step_accept hstep
    exact hsame rfl rfl
  | handlerConnect worker created =>
    obtain ⟨pConnect, rest, _, _, rfl⟩ := step_handlerConnect hstep
    exact hsame (State.handlerConnect_frame _ pConnect created).2
      (State.handlerConnect_reads _ pConnect created)
  | read bev stack input =>
    obtain ⟨v, actions, hbev, hidle, hactions, rfl⟩ := step_read hstep
    intro worker task htask bytes hwrite
    by_cases hworker : worker = v.base
    · rw [hworker] at htask
      dsimp only at htask
      rw [Function.update_self] at htask
      obtain ⟨action, haction, rfl⟩ := List.mem_map.mp htask
      dsimp only at hwrite
      rw [hwrite] at haction
      exact ⟨_, lastRead_append_self rfl, readCallBack_write hactions haction⟩
    · dsimp only at htask
      rw [Function.update_of_ne hworker] at htask
      dsimp only
      rw [lastRead_append_of_ne (hinv.1.bev_ne hbev hidle htask)]
      exact h worker task htask bytes hwrite
  | resume worker =>
    obtain ⟨task, rest, hpending, rfl⟩ := step_resume hstep
    refine h.keep (fun ht => ?_) (State.perform_reads _ task)
    rw [State.perform_pending] at ht
    exact mem_of_schedule (fun t hmem => hpending ▸ List.mem_cons_of_mem task hmem) ht
  | errorCallBack bev what =>
    obtain ⟨v, _, _, rfl⟩ := step_errorCallBack hstep
    split
    · exact h.keep (fun ht => (s.delete_frame v.arg).2.1 ▸ ht) (s.delete_reads v.arg)
    · exact h
  | getAllNode =>
    obtain rfl := step_getAllNode hstep
    split
    · exact h
    · exact h
  | delNode strIp stack =>
    obtain rfl := step_delNode hstep
    exact hsame (s.delNode_pending host stack strIp) (s.delNode_reads host stack strIp)

theorem replying_run {es : List Event} (hrun : (system host parse).run es = some s) :
    Replying s := by
  have hboth : Inv s ∧ Replying s := System.run_induction (A := fun _ => True)
    (fun _ s => Inv s ∧ Replying s) ⟨Inv.init, fun _ _ ht => absurd ht List.not_mem_nil⟩
    (fun _ _ _ _ _ h hstep => ⟨h.1.step hstep, h.2.step h.1 hstep⟩) (fun _ _ => trivial) hrun
  exact hboth.2

/-- A step that meets the guard writes frames in order only. -/
theorem writesConsistent_of_fills (h : Replying s) {e : Event} (hfills : FillsFrames s e) :
    WritesConsistent host s e := by
  intro frame hframe
  cases e with
  | resume worker =>
    rw [framesWritten] at hframe
    cases htask : (s.pending worker).head? with
    | none =>
      rw [htask] at hframe
      cases hframe
    | some task =>
      rw [htask, Option.elim_some] at hframe
      split at hframe
      · next bytes hwrite =>
        rw [List.mem_singleton.mp hframe]
        obtain ⟨r, hread, hreply⟩ := h worker task (List.mem_of_mem_head? htask) bytes hwrite
        have hexpected := hfills.recognised worker rfl task htask bytes hwrite r hread
        exact (hreply.resolve_right fun hzeros => hzeros.2 hexpected).1
      · cases hframe
  | delNode strIp stack =>
    have hunmapped : s.mapNode.lookup strIp = none := hfills.closesNothing
    rw [framesWritten, hunmapped] at hframe
    cases hframe
  | _ => cases hframe

/-- A callback that writes a frame in order has recognised its message. -/
theorem recognised_of_writes (h : Replying s) {worker : Worker}
    (hwrites : WritesConsistent host s (.resume worker)) {task : Task}
    (htask : task ∈ (s.pending worker).head?) {bytes : List UInt8}
    (hwrite : task.action = .write bytes) {r : Received}
    (hread : r ∈ lastRead s.reads task.bev) : NodeConnect.Expected r.head := by
  obtain ⟨r', hread', hreply⟩ := h worker task (List.mem_of_mem_head? htask) bytes hwrite
  obtain rfl := Option.some.inj (hread'.symm.trans hread)
  rcases hreply with ⟨_, hexpected⟩ | ⟨rfl, _⟩
  · exact hexpected
  · refine absurd (hwrites _ ?_) not_selfConsistent_zeros
    rw [framesWritten, htask, Option.elim_some, hwrite]
    exact List.mem_singleton_self _

/-- A close request that finds its ip writes a frame out of order over some memory. -/
theorem unmapped_of_writes {strIp : Str}
    (hwrites : ∀ stack, WritesConsistent host s (.delNode strIp stack)) :
    s.mapNode.lookup strIp = none := by
  by_contra hmapped
  obtain ⟨a, hlookup⟩ := Option.ne_none_iff_exists'.mp hmapped
  let garbage : Stack := { Stack.zeros with head := { Stack.zeros.head with usLen := 1 } }
  have hframe := NodeConnect.closeFrame_eq host garbage
  have hbad := hwrites garbage (frameOf host
    { NodeConnect.sendHead garbage with usMsgId := MsgID.reqCloseNode.code } []) (by
      rw [framesWritten, hlookup, Option.elim_some, hframe]
      exact List.mem_singleton_self _)
  exact absurd (usLen_of_closeFrame host hframe hbad) (by decide)

/-- Over any memory the frames of a run are in order exactly when over any
memory each of its steps meets the guard. -/
theorem framesConsistent_iff (es : List Event) :
    (∀ es', SameButMemory es es' →
        (system host parse).Along FramesConsistent State.init es' ∧
          (system host parse).Guarded (WritesConsistent host) State.init es') ↔
      ∀ es', SameButMemory es es' →
        (system host parse).Guarded FillsFrames State.init es' := by
  constructor
  · intro h es' hsame
    refine (System.guarded_iff_executed _ _).mpr fun before e after hsplit s s' hr hstep => ?_
    have hok : s.fault = none := fault_of_step hstep
    rw [hsplit] at hsame
    have hwrites : ∀ stack t, step host parse s (e.refill stack) = some t →
        WritesConsistent host s (e.refill stack) := fun stack t ht =>
      (System.guarded_iff_executed _ _).mp (h _ (hsame.refill_at stack)).2 before _ after rfl s t
        hr ht
    refine ⟨?_, ?_⟩
    · cases e with
      | delNode strIp stack =>
        exact unmapped_of_writes fun garbage =>
          hwrites garbage _ (if_neg (not_not.mpr hok))
      | _ => trivial
    · rintro worker rfl task htask bytes hwrite r hread
      exact recognised_of_writes (replying_run hr) (hwrites .zeros s' hstep) htask hwrite hread
  · intro h es' hsame
    have hwrites : (system host parse).Guarded (WritesConsistent host) State.init es' := by
      refine (System.guarded_iff_executed _ _).mpr fun before e after hsplit s s' hr hstep => ?_
      exact writesConsistent_of_fills (replying_run hr)
        ((System.guarded_iff_executed _ _).mp (h es' hsame) before e after hsplit s s' hr hstep)
    exact ⟨hwrites.along (fun s e s' h hok hstep => h.step hok hstep)
      fun _ _ hnone => (nomatch hnone), hwrites⟩

/-- Where every step over any memory meets the guard, what has been written does
not depend on the memory. -/
theorem written_of_guarded {es : List Event} (h : ∀ es', SameButMemory es es' →
    (system host parse).Guarded FillsFrames State.init es') {front : List Event}
    (hfront : front <+: es) {fs gs : List Event} (hfs : SameButMemory front fs)
    (hgs : SameButMemory front gs) {t : State} (hs : (system host parse).run fs = some s)
    (ht : (system host parse).run gs = some t) : s.written = t.written := by
  obtain ⟨back, rfl⟩ := hfront
  have hquiet : ∀ fs, SameButMemory front fs →
      (system host parse).Guarded ClosesNothing State.init fs := by
    intro fs hfs
    have hwhole : SameButMemory (front ++ back) (fs ++ back) :=
      List.rel_append hfs (sameButMemory_refl back)
    exact (h _ hwhole).of_append.mono fun _ _ => FillsFrames.closesNothing
  exact written_of_sameButMemory (hfs.of_common hgs) (hquiet fs hfs) (hquiet gs hgs) hs ht

end Steps

end Server

namespace Client

/-- The event as it goes when the memory that it does not write holds something
else. -/
def Event.refill (stack : Stack) : Event → Event
  | .readCB bev _ input now => .readCB bev stack input now
  | e => e

/-- The same events in the same order, over any memory. -/
def SameButMemory : List Event → List Event → Prop :=
  List.Forall₂ fun e f => ∃ stack, f = e.refill stack

/-- All frames written so far are self-consistent. -/
def FramesConsistent (s : State) : Prop :=
  ∀ bev, ∀ frames ∈ s.sent bev, ∀ frame ∈ frames, SelfConsistent frame

section Steps

variable {host : ByteOrder} {s s' : State}

/-- The effects of a read do not depend on the body. -/
theorem handle_body (s : State) (now : ℤ) (msgId : UInt16) (body body' : List UInt8) :
    (ClientConnect.handle msgId body).foldl (fun t a => t.perform now a) s =
        (ClientConnect.handle msgId body').foldl (fun t a => t.perform now a) s ∧
      (.updateHeartTime ∈ ClientConnect.handle msgId body ↔
        .updateHeartTime ∈ ClientConnect.handle msgId body') := by
  unfold ClientConnect.handle
  split
  · exact ⟨rfl, by simp only [List.mem_cons, true_or, or_true]⟩
  · split
    · exact ⟨rfl, by simp only [List.mem_cons, true_or, or_true]⟩
    · split
      · exact ⟨rfl, by simp only [List.mem_cons, reduceCtorEq, List.not_mem_nil, or_self]⟩
      · exact ⟨rfl, by simp only [List.mem_cons, reduceCtorEq, List.not_mem_nil, or_self]⟩

/-- No step of the client depends on the memory that it does not write. -/
theorem step_refill (host : ByteOrder) (s : State) (e : Event) (stack : Stack) :
    step host s (e.refill stack) = step host s e := by
  cases e with
  | readCB bev stack' input now =>
    dsimp only [Event.refill, step]
    rw [ClientConnect.readCB_eq, ClientConnect.readCB_eq]
    dsimp only
    by_cases hskip : input = [] ∨
        (DataHeadCodec.headAt host (databuff input)).ucType ≠ ProtocolType.pb.code
    · rw [if_pos hskip, if_pos hskip]
    · obtain ⟨hperform, hresponse⟩ := handle_body s now
        (DataHeadCodec.headAt host (databuff input)).usMsgId
        (bytesFrom stack (databuff input) bodyMsgPos
          (DataHeadCodec.headAt host (databuff input)).usLen.toNat)
        (bytesFrom stack' (databuff input) bodyMsgPos
          (DataHeadCodec.headAt host (databuff input)).usLen.toNat)
      rw [if_neg hskip, if_neg hskip]
      simp only [hperform, hresponse]
  | connectToSerd now outcome => rfl
  | readTerminal => rfl
  | errorCB bev event now => rfl
  | heartTimeoutCB timer cur outcome later => rfl

/-- Runs of the client over any memory are the same. -/
theorem run_of_sameButMemory {es fs : List Event} (h : SameButMemory es fs) :
    (system host).run fs = (system host).run es := by
  have hfrom : ∀ s, (system host).runFrom s fs = (system host).runFrom s es := by
    induction h with
    | nil => exact fun _ => rfl
    | @cons e f es fs hfirst _ ih =>
      obtain ⟨stack, rfl⟩ := hfirst
      intro s
      have hstep : (system host).step s (e.refill stack) = (system host).step s e :=
        step_refill host s e stack
      rw [System.runFrom, System.runFrom, hstep]
      exact congrArg _ (funext ih)
  exact hfrom State.init

/-- One more frame in order on some connection. -/
theorem framesConsistent_sendOn (h : FramesConsistent s) {bev : ℕ} {frame : List UInt8}
    (hframe : SelfConsistent frame) (hsent : s'.sent = sendOn bev frame s.sent) :
    FramesConsistent s' := by
  intro other frames hframes one hone
  rw [hsent] at hframes
  rcases of_sendOn hframes with ⟨_, before, hbefore, rfl⟩ | hother
  · rcases List.mem_append.mp hone with hold | hnew
    · exact h bev before hbefore one hold
    · rw [List.mem_singleton.mp hnew]
      exact hframe
  · exact h other frames hother one hone

/-- The client writes its login and its heartbeat only. -/
theorem framesConsistent_step {e : Event} (h : FramesConsistent s)
    (hstep : step host s e = some s') : FramesConsistent s' := by
  have hlogin := selfConsistent_loginFrame host
  have hheart := selfConsistent_heatBeatFrame host
  have hquiet : s'.sent = s.sent → FramesConsistent s' := by
    intro hsent
    unfold FramesConsistent
    rw [hsent]
    exact h
  obtain ⟨_, hsent | ⟨frames, hnew, hsent⟩ | ⟨bev, hsent⟩⟩ | ⟨_, hsent⟩ := sent_step hstep
  · exact hquiet hsent
  · intro bev written hwritten frame hframe
    rw [hsent] at hwritten
    by_cases hsame : bev = s.sockets
    · rw [hsame, Function.update_self] at hwritten
      obtain rfl := Option.some.inj hwritten
      simp only [List.mem_cons, List.not_mem_nil, or_false] at hnew
      rcases hnew with rfl | rfl
      · cases hframe
      · simp only [List.mem_cons, List.not_mem_nil, or_false] at hframe
        rcases hframe with rfl | rfl
        · exact hlogin
        · exact hheart
    · rw [Function.update_of_ne hsame] at hwritten
      exact h bev written hwritten frame hframe
  · exact framesConsistent_sendOn h hlogin hsent
  · cases hbev : s.pBev with
    | none =>
      rw [hbev] at hsent
      exact hquiet hsent
    | some bev =>
      rw [hbev] at hsent
      exact framesConsistent_sendOn h hheart hsent

/-- Every frame that the client writes is in order. -/
theorem framesConsistent_along (host : ByteOrder) (es : List Event) :
    (system host).Along FramesConsistent State.init es := by
  have hinit : FramesConsistent State.init := fun _ _ hnone => (nomatch hnone)
  have hall : (system host).Guarded (fun _ _ => True) State.init es :=
    (System.guarded_iff_executed _ _).mpr fun _ _ _ _ _ _ _ _ => trivial
  exact hall.along (fun _ _ _ h _ hstep => framesConsistent_step h hstep) hinit

end Steps

end Client

section Wire

variable (host : ByteOrder) (parse : Parser)

/-- Over any memory both sides write self-consistent frames only, and runs that
get equally far have written the same whatever the memory held. For the server that is
said of what has been written in each state and of what each step hands to
`bufferevent_write`, be it through a deleted object. -/
structure WireConsistent (es : List Server.Event) (fs : List Client.Event) : Prop where
  server : ∀ es', Server.SameButMemory es es' →
    (Server.system host parse).Along Server.FramesConsistent Server.State.init es' ∧
      (Server.system host parse).Guarded (Server.WritesConsistent host) Server.State.init es'
  serverMemory : ∀ front, front <+: es → ∀ es₁ es₂, Server.SameButMemory front es₁ →
    Server.SameButMemory front es₂ → ∀ s₁ s₂, (Server.system host parse).run es₁ = some s₁ →
      (Server.system host parse).run es₂ = some s₂ → s₁.written = s₂.written
  client : ∀ fs', Client.SameButMemory fs fs' →
    (Client.system host).Along Client.FramesConsistent Client.State.init fs'
  clientMemory : ∀ front, front <+: fs → ∀ fs₁ fs₂, Client.SameButMemory front fs₁ →
    Client.SameButMemory front fs₂ → ∀ s₁ s₂, (Client.system host).run fs₁ = some s₁ →
      (Client.system host).run fs₂ = some s₂ → s₁.sent = s₂.sent

/-- The frames of both sides are in order, over any memory and independently of
it, exactly when over no memory the server is asked to close an ip that has an entry
or comes to the write for a message that `ReadCallBack` does not recognise. -/
theorem wireConsistent_iff (es : List Server.Event) (fs : List Client.Event) :
    WireConsistent host parse es fs ↔ ∀ es', Server.SameButMemory es es' →
      (Server.system host parse).Guarded Server.FillsFrames Server.State.init es' := by
  constructor
  · intro h
    exact (Server.framesConsistent_iff es).mp h.server
  · intro h
    refine ⟨(Server.framesConsistent_iff es).mpr h, ?_, ?_, ?_⟩
    · intro front hfront es₁ es₂ h₁ h₂ s₁ s₂ hs₁ hs₂
      exact Server.written_of_guarded h hfront h₁ h₂ hs₁ hs₂
    · exact fun fs' _ => Client.framesConsistent_along host fs'
    · intro front _ fs₁ fs₂ h₁ h₂ s₁ s₂ hs₁ hs₂
      rw [Client.run_of_sameButMemory h₁] at hs₁
      rw [Client.run_of_sameButMemory h₂] at hs₂
      rw [Option.some.inj (hs₁.symm.trans hs₂)]

end Wire

/-- A node logs in and is asked to close while the stack holds a length of 7. -/
theorem closeFrame_garbage : ¬∀ (host : ByteOrder) (parse : Parser) (es : List Server.Event)
    (fs : List Client.Event), WireConsistent host parse es fs := by
  intro h
  let garbage : Stack := { Stack.zeros with head := { Stack.zeros.head with usLen := 7 } }
  let es : List Server.Event := [.accept 0 0, .handlerConnect 0 true,
    .read 0 .zeros (Server.oneByteLogin 49), .resume 0, .resume 0, .resume 0, .resume 0,
    .delNode [49] garbage]
  have hrun : ((Server.system .little ReqNodeLogin.parseFromIstream).run es).any (fun s =>
      NodeConnect.closeFrame .little garbage = (s.written 0)[1]?.elim (.error .assertion) .ok) =
        true := by
    decide +kernel
  obtain ⟨s, hs, hwritten⟩ := (Option.any_eq_true _ _).mp hrun
  have hclose := of_decide_eq_true hwritten
  cases hframe : (s.written 0)[1]? with
  | none =>
    rw [hframe, NodeConnect.closeFrame_eq] at hclose
    cases hclose
  | some frame =>
    rw [hframe] at hclose
    have hserver := (h .little ReqNodeLogin.parseFromIstream es []).server es
      (Server.sameButMemory_refl es)
    have hconsistent := hserver.1.of_runFrom hs 0 frame (List.mem_of_getElem? hframe)
    exact absurd (usLen_of_closeFrame .little hclose hconsistent) (by decide)

end NodeManager
