import NodeManager.RequestReply
import NodeManager.ServerInvariant
import NodeManager.StopNode

/-!
# What a connection is sent

The workers, the acceptor and the HTTP server run in any order, and a worker
may stop between any two effects of a callback. All the same the frames on a
bufferevent, but for the close frames, are the replies to what was read from
that bufferevent, in the order of the reads; and there is no close frame that
the HTTP server was not asked for.
-/

namespace NodeManager.Server

open ByteMemory TransitionSystem

variable (host : ByteOrder) (parse : Parser)

/-- The identifier that the receiver of a frame reads. -/
def idOf (frame : List UInt8) : UInt16 := DataHeadCodec.shortAt (databuff frame) headMsgIdPos

/-- A frame that asks the client to close. -/
def isCloseFrame (frame : List UInt8) : Bool := idOf frame = MsgID.reqCloseNode.code

/-- The frames that the callback writes for one read. -/
def repliesTo (stack : Stack) (input : List UInt8) : List (List UInt8) :=
  match NodeConnect.readCallBack host parse stack input with
  | .error _ => []
  | .ok actions => NodeConnect.written actions

/-- The replies to an event on a bufferevent. -/
def Event.repliesOn (bev : Bev) : Event → List (List UInt8)
  | .read bev' stack input => if bev' = bev then repliesTo host parse stack input else []
  | _ => []

/-- A call of `DelNode`. -/
def Event.isDelNode : Event → Bool
  | .delNode _ _ => true
  | _ => false

/-- The frames that the tasks of a worker still write to a bufferevent. -/
def framesOf (bev : Bev) (tasks : List Task) : List (List UInt8) :=
  NodeConnect.written ((tasks.filter (·.bev = bev)).map (·.action))

namespace State

variable (s : State)

/-- The frames that are still to be written to a bufferevent. -/
def pendingFrames (bev : Bev) : List (List UInt8) :=
  match s.bevs[bev]? with
  | none => []
  | some v => framesOf bev (s.pending v.base)

/-- The frames on a bufferevent that are no close frames, with those to come. -/
def sent (bev : Bev) : List (List UInt8) :=
  (s.written bev).filter (fun frame => !isCloseFrame frame) ++ s.pendingFrames bev

/-- The close frames on a bufferevent. -/
def closeFrames (bev : Bev) : List (List UInt8) := (s.written bev).filter isCloseFrame

end State

/-- The identifier of a frame that was built. -/
theorem idOf_frameOf (head : StructProtocolHead) {body : List UInt8}
    (hbody : bodyMsgPos + body.length ≤ frameSize) :
    idOf (frameOf host head body) = head.usMsgId := by
  rw [idOf, databuff_frame (frameOf_length hbody)]
  exact (headAt_frameOf_fields host host head body).2.2

/-- No reply is a close frame. -/
theorem not_close_of_mem_repliesTo {stack : Stack} {input frame : List UInt8}
    (h : frame ∈ repliesTo host parse stack input) : isCloseFrame frame = false := by
  have hbeat : isCloseFrame (NodeConnect.heartBeatReply host stack) = false := by
    rw [isCloseFrame, NodeConnect.heartBeatReply, idOf_frameOf _ _ (by decide)]
    rfl
  have hlogin : isCloseFrame (NodeConnect.loginReply host stack) = false := by
    rw [isCloseFrame, NodeConnect.loginReply, idOf_frameOf _ _ (by decide)]
    rfl
  have hzeros : isCloseFrame (List.replicate frameSize 0) = false := by decide
  rw [repliesTo, NodeConnect.readCallBack_eq] at h
  dsimp only at h
  split at h
  · cases h
  · unfold NodeConnect.handle at h
    split at h
    · rw [List.mem_singleton.mp h]
      exact hbeat
    · split at h
      · rw [List.mem_singleton.mp h]
        exact hlogin
      · rw [List.mem_singleton.mp h]
        exact hzeros

section Steps

variable {host parse} {s s' : State} {bev : Bev}

theorem framesOf_cons (bev : Bev) (task : Task) (rest : List Task) :
    framesOf bev (task :: rest) = framesOf bev [task] ++ framesOf bev rest := by
  unfold framesOf NodeConnect.written
  rw [← List.filterMap_append, ← List.map_append, ← List.filter_append, List.singleton_append]

theorem framesOf_eq_nil {tasks : List Task} (h : ∀ task ∈ tasks, task.bev ≠ bev) :
    framesOf bev tasks = [] := by
  have hnone : tasks.filter (·.bev = bev) = [] := by
    rw [List.filter_eq_nil_iff]
    intro task htask
    rw [decide_eq_true_iff]
    exact h task htask
  rw [framesOf, hnone]
  rfl

/-- The tasks of a callback write the replies. -/
theorem framesOf_map (bev bev' : Bev) (arg : Addr) (actions : List NodeConnect.Action) :
    framesOf bev (actions.map (Task.mk bev' arg)) =
      if bev' = bev then NodeConnect.written actions else [] := by
  by_cases hsame : bev' = bev
  · have hall : (actions.map (Task.mk bev' arg)).filter (·.bev = bev) =
        actions.map (Task.mk bev' arg) := by
      rw [List.filter_eq_self]
      intro task htask
      obtain ⟨action, _, rfl⟩ := List.mem_map.mp htask
      exact decide_eq_true hsame
    rw [if_pos hsame, framesOf, hall, List.map_map]
    exact congrArg NodeConnect.written (List.map_id actions)
  · rw [if_neg hsame]
    refine framesOf_eq_nil fun task htask => ?_
    obtain ⟨action, _, rfl⟩ := List.mem_map.mp htask
    exact hsame

/-- An effect writes at most its own frame, and leaves the rest of the callback
and the bufferevents alone. -/
theorem perform_frames (s : State) (task : Task) :
    (∀ bev, (s.perform task).written bev = s.written bev ++ framesOf bev [task]) ∧
      (s.perform task).pending = s.pending ∧ (s.perform task).bevs = s.bevs := by
  obtain ⟨b, arg, action⟩ := task
  have hone : ∀ bev, framesOf bev [⟨b, arg, action⟩] =
      if b = bev then NodeConnect.written [action] else [] := fun bev =>
    framesOf_map bev b arg [action]
  have hquiet : NodeConnect.written [action] = [] →
      ∀ bev, framesOf bev [⟨b, arg, action⟩] = [] := by
    intro hnone bev
    rw [hone, hnone, ite_self]
  cases action with
  | decode msgId body =>
    refine ⟨fun bev => ?_, rfl, rfl⟩
    rw [hquiet rfl, List.append_nil]
    rfl
  | setNodeName name =>
    obtain ⟨hwritten, hpending, hbevs⟩ := s.setNodeName_frame arg name
    refine ⟨fun bev => ?_, hpending, hbevs⟩
    rw [hquiet rfl, List.append_nil]
    exact congrFun hwritten bev
  | addNode info =>
    refine ⟨fun bev => ?_, rfl, rfl⟩
    rw [hquiet rfl, List.append_nil]
    rfl
  | write bytes =>
    refine ⟨fun bev => ?_, rfl, rfl⟩
    rw [hone]
    by_cases hsame : b = bev
    · subst hsame
      rw [if_pos rfl]
      exact Function.update_self ..
    · rw [if_neg hsame, List.append_nil]
      exact Function.update_of_ne (Ne.symm hsame) ..

/-- `DelNode` writes at most one frame, which is a close frame and goes to the
bufferevent that the ip is mapped to. -/
theorem delNode_frames (host : ByteOrder) (s : State) (stack : Stack) (strIp : Str) :
    (∀ bev, (s.delNode host stack strIp).written bev = s.written bev ∨
        ∃ frame, HttpReq.MappedTo s strIp bev ∧ isCloseFrame frame = true ∧
          (s.delNode host stack strIp).written bev = s.written bev ++ [frame]) ∧
      (s.delNode host stack strIp).pending = s.pending ∧
      (s.delNode host stack strIp).bevs = s.bevs := by
  have hsame : ∀ f, (∀ bev, (s.fail f).written bev = s.written bev ∨ ∃ frame,
      HttpReq.MappedTo s strIp bev ∧ isCloseFrame frame = true ∧
        (s.fail f).written bev = s.written bev ++ [frame]) ∧
          (s.fail f).pending = s.pending ∧ (s.fail f).bevs = s.bevs :=
    fun f => ⟨fun _ => Or.inl rfl, rfl, rfl⟩
  cases hlookup : s.mapNode.lookup strIp with
  | none =>
    rw [State.delNode_unmapped stack hlookup]
    exact ⟨fun _ => Or.inl rfl, rfl, rfl⟩
  | some a =>
    rw [State.delNode, hlookup]
    dsimp only
    rw [State.sendReqCloseNode]
    cases hx : s.heap a with
    | none => exact hsame _
    | some x =>
      dsimp only
      rw [NodeConnect.closeFrame_eq]
      cases hbev : x.bev with
      | none => exact hsame _
      | some b =>
        refine ⟨fun bev => ?_, rfl, rfl⟩
        by_cases hb : bev = b
        · subst hb
          refine Or.inr ⟨_, ⟨a, x, hlookup, hx, hbev⟩, ?_, Function.update_self ..⟩
          rw [isCloseFrame, idOf_frameOf _ _ (by decide)]
          rfl
        · exact Or.inl (Function.update_of_ne hb ..)

/-- No worker is about to write a close frame. -/
def RepliesOnly (s : State) : Prop :=
  ∀ worker, ∀ task ∈ s.pending worker, ∀ bytes, task.action = .write bytes →
    isCloseFrame bytes = false

theorem mem_framesOf {tasks : List Task} {frame : List UInt8} (h : frame ∈ framesOf bev tasks) :
    ∃ task ∈ tasks, task.bev = bev ∧ task.action = .write frame := by
  obtain ⟨action, haction, hwrite⟩ := List.mem_filterMap.mp h
  obtain ⟨task, htask, rfl⟩ := List.mem_map.mp haction
  obtain ⟨hmem, hbev⟩ := List.mem_filter.mp htask
  refine ⟨task, hmem, of_decide_eq_true hbev, ?_⟩
  cases haction' : task.action with
  | write bytes =>
    rw [haction'] at hwrite
    rw [Option.some.inj hwrite]
  | _ =>
    rw [haction'] at hwrite
    cases hwrite

/-- What a step adds to the frames of a bufferevent. -/
structure Adds (s s' : State) (bev : Bev) (frames : List (List UInt8)) (closes : ℕ) : Prop where
  sent : s'.sent bev = s.sent bev ++ frames
  closeFrames : (s'.closeFrames bev).length ≤ (s.closeFrames bev).length + closes

theorem adds_nothing (hwritten : s'.written bev = s.written bev)
    (hpending : s'.pendingFrames bev = s.pendingFrames bev) : Adds s s' bev [] 0 where
  sent := by rw [State.sent, hwritten, hpending, List.append_nil, State.sent]
  closeFrames := by rw [State.closeFrames, hwritten, State.closeFrames, Nat.add_zero]

theorem pendingFrames_congr (hpending : s'.pending = s.pending) (hbevs : s'.bevs = s.bevs)
    (bev : Bev) : s'.pendingFrames bev = s.pendingFrames bev := by
  rw [State.pendingFrames, hpending, hbevs, State.pendingFrames]

/-- A bufferevent that is new has nothing pending. -/
theorem pendingFrames_append (hinv : Inv s) {v : BufferEvent} (hpending : s'.pending = s.pending)
    (hbevs : s'.bevs = s.bevs ++ [v]) (bev : Bev) :
    s'.pendingFrames bev = s.pendingFrames bev := by
  rw [State.pendingFrames, hpending, hbevs, State.pendingFrames]
  by_cases hold : bev < s.bevs.length
  · rw [List.getElem?_append_left hold]
  · have hnone : s.bevs[bev]? = none := List.getElem?_eq_none (Nat.not_lt.mp hold)
    rw [hnone]
    cases (s.bevs ++ [v])[bev]? with
    | none => rfl
    | some w =>
      refine framesOf_eq_nil fun task htask hsame => ?_
      obtain ⟨v', hv', _⟩ := hinv.1.taskBev htask
      rw [hsame, hnone] at hv'
      cases hv'

/-- The frames that the tasks of a worker write to a bufferevent of another one. -/
theorem framesOf_other (hinv : Inv s) {worker : Worker} {v : BufferEvent}
    (hv : s.bevs[bev]? = some v) (hother : v.base ≠ worker) :
    framesOf bev (s.pending worker) = [] := by
  refine framesOf_eq_nil fun task htask hsame => ?_
  obtain ⟨v', hv', hbase, _⟩ := hinv.1.taskBev htask
  rw [hsame, hv] at hv'
  rw [Option.some.inj hv'] at hother
  exact hother hbase

theorem adds_handlerConnect (hinv : Inv s) (a : Addr) (created : Bool) (bev : Bev) :
    Adds s (s.handlerConnect a created) bev [] 0 := by
  obtain ⟨hwritten, hpending⟩ := s.handlerConnect_frame a created
  refine adds_nothing (congrFun hwritten bev) ?_
  cases ha : s.heap a with
  | none =>
    rw [State.handlerConnect_dead ha]
    rfl
  | some x =>
    cases created with
    | true =>
      rw [State.handlerConnect_created ha]
      refine pendingFrames_append hinv (v := ⟨x.sock, x.base, a, false⟩) ?_ ?_ bev
      · rfl
      · rfl
    | false =>
      rw [State.handlerConnect_failed ha]
      exact pendingFrames_congr (s.delete_frame a).2.1 (s.delete_frame a).2.2 bev

/-- A read adds the replies to it. -/
theorem adds_read {bev' : Bev} {v : BufferEvent} {stack : Stack}
    {input : List UInt8} {actions : List NodeConnect.Action} (hv : s.bevs[bev']? = some v)
    (hidle : s.pending v.base = [])
    (hactions : NodeConnect.readCallBack host parse stack input = .ok actions)
    (reads : List Received) (bev : Bev) :
    Adds s { s with
        pending := Function.update s.pending v.base (actions.map (Task.mk bev' v.arg))
        reads := reads }
      bev (Event.repliesOn host parse bev (.read bev' stack input)) 0 := by
  have hreplies : repliesTo host parse stack input = NodeConnect.written actions := by
    rw [repliesTo, hactions]
  refine ⟨?_, le_rfl⟩
  rw [State.sent, State.sent, List.append_assoc, List.append_cancel_left_eq, State.pendingFrames,
    State.pendingFrames, Event.repliesOn, hreplies]
  cases hbev : s.bevs[bev]? with
  | none =>
    have hne : bev' ≠ bev := by
      rintro rfl
      rw [hv] at hbev
      cases hbev
    rw [if_neg hne]
    rfl
  | some w =>
    dsimp only
    by_cases hbase : w.base = v.base
    · rw [hbase, Function.update_self, framesOf_map, hidle]
      rfl
    · have hne : bev' ≠ bev := by
        rintro rfl
        rw [hv] at hbev
        exact hbase (congrArg BufferEvent.base (Option.some.inj hbev).symm)
      rw [Function.update_of_ne hbase, if_neg hne, List.append_nil]

/-- What a worker still writes to a bufferevent, with its first effect apart. -/
theorem pendingFrames_resume (hinv : Inv s) {worker : Worker} {task : Task} {rest : List Task}
    (hpending : s.pending worker = task :: rest) (bev : Bev) :
    s.pendingFrames bev = framesOf bev [task] ++
      { s with pending := Function.update s.pending worker rest }.pendingFrames bev := by
  have htask : task ∈ s.pending worker := hpending ▸ List.mem_cons_self
  rw [State.pendingFrames, State.pendingFrames]
  dsimp only
  cases hbev : s.bevs[bev]? with
  | none =>
    have hquiet : framesOf bev [task] = [] := by
      refine framesOf_eq_nil fun task' htask' hsame => ?_
      rw [List.mem_singleton.mp htask'] at hsame
      obtain ⟨v, hv, _⟩ := hinv.1.taskBev htask
      rw [hsame, hbev] at hv
      cases hv
    rw [hquiet]
    rfl
  | some w =>
    dsimp only
    by_cases hbase : w.base = worker
    · rw [hbase, Function.update_self, hpending, framesOf_cons]
    · have hquiet : framesOf bev [task] ++ framesOf bev rest = [] := by
        rw [← framesOf_cons, ← hpending]
        exact framesOf_other hinv hbev hbase
      rw [Function.update_of_ne hbase, (List.append_eq_nil_iff.mp hquiet).1, List.nil_append]

/-- An effect moves its frame from those to come to those that are written. -/
theorem adds_resume (hinv : Inv s) (hplain : RepliesOnly s) {worker : Worker} {task : Task}
    {rest : List Task} (hpending : s.pending worker = task :: rest) (bev : Bev) :
    Adds s ({ s with pending := Function.update s.pending worker rest }.perform task) bev [] 0 := by
  obtain ⟨hwritten, hleft, hbevs⟩ :=
    perform_frames { s with pending := Function.update s.pending worker rest } task
  have hall : ∀ frame ∈ framesOf bev [task], isCloseFrame frame = false := by
    intro frame hframe
    obtain ⟨task', htask', _, haction⟩ := mem_framesOf hframe
    refine hplain worker task' ?_ frame haction
    rw [hpending, List.mem_singleton.mp htask']
    exact List.mem_cons_self
  have hown : (framesOf bev [task]).filter (fun frame => !isCloseFrame frame) =
      framesOf bev [task] := by
    refine List.filter_eq_self.mpr fun frame hframe => ?_
    rw [hall frame hframe, Bool.not_false]
  have hnone : (framesOf bev [task]).filter isCloseFrame = [] := by
    refine List.filter_eq_nil_iff.mpr fun frame hframe => ?_
    rw [hall frame hframe]
    exact Bool.false_ne_true
  refine ⟨?_, ?_⟩
  · rw [State.sent, State.sent, hwritten, List.filter_append, hown, List.append_nil,
      List.append_assoc, pendingFrames_resume hinv hpending,
      pendingFrames_congr hleft hbevs]
  · rw [State.closeFrames, hwritten, List.filter_append, hnone, List.append_nil]
    exact le_rfl

/-- A call of `DelNode` adds at most one close frame and no other. -/
theorem adds_delNode (s : State) (stack : Stack) (strIp : Str) (bev : Bev) :
    Adds s (s.delNode host stack strIp) bev [] 1 := by
  obtain ⟨hwritten, hpending, hbevs⟩ := delNode_frames host s stack strIp
  have hleft := pendingFrames_congr hpending hbevs bev
  rcases hwritten bev with hsame | ⟨frame, _, hclose, hone⟩
  · have hnothing := adds_nothing hsame hleft
    exact ⟨hnothing.sent, Nat.le_succ_of_le hnothing.closeFrames⟩
  · refine ⟨?_, ?_⟩
    · have hplain : [frame].filter (fun frame => !isCloseFrame frame) = [] := by
        rw [List.filter_cons_of_neg (by rw [hclose]; exact Bool.false_ne_true)]
        rfl
      rw [State.sent, State.sent, hone, hleft, List.filter_append, hplain, List.append_nil,
        List.append_nil]
    · rw [State.closeFrames, State.closeFrames, hone, List.filter_append, List.length_append]
      exact Nat.add_le_add_left (List.length_filter_le ..) _

/-- Bufferevents are only added. -/
theorem bevs_step {e : Event} (hstep : step host parse s e = some s') :
    ∃ more, s'.bevs = s.bevs ++ more := by
  have hsame : s'.bevs = s.bevs → ∃ more, s'.bevs = s.bevs ++ more := fun h =>
    ⟨[], h.trans (List.append_nil _).symm⟩
  cases e with
  | accept pNodeCon worker =>
    obtain ⟨_, rfl⟩ := step_accept hstep
    exact hsame rfl
  | handlerConnect worker created =>
    obtain ⟨pConnect, rest, _, _, rfl⟩ := step_handlerConnect hstep
    set popped : State :=
      { s with listConnect := Function.update s.listConnect worker rest } with hpopped
    cases ha : popped.heap pConnect with
    | none =>
      rw [State.handlerConnect_dead ha]
      exact ⟨[], (List.append_nil _).symm⟩
    | some x =>
      cases created with
      | true =>
        rw [State.handlerConnect_created ha]
        exact ⟨_, rfl⟩
      | false =>
        rw [State.handlerConnect_failed ha, (popped.delete_frame pConnect).2.2]
        exact ⟨[], (List.append_nil _).symm⟩
  | read bev stack input =>
    obtain ⟨v, actions, _, _, _, rfl⟩ := step_read hstep
    exact hsame rfl
  | resume worker =>
    obtain ⟨task, rest, _, rfl⟩ := step_resume hstep
    exact hsame (perform_frames _ task).2.2
  | errorCallBack bev what =>
    obtain ⟨v, _, _, rfl⟩ := step_errorCallBack hstep
    refine hsame ?_
    split
    · exact (s.delete_frame v.arg).2.2
    · rfl
  | getAllNode =>
    obtain rfl := step_getAllNode hstep
    refine hsame ?_
    split
    · rfl
    · rfl
  | delNode strIp stack =>
    obtain rfl := step_delNode hstep
    exact hsame (delNode_frames host s stack strIp).2.2

/-- What each event adds to the frames of each bufferevent. -/
theorem step_adds (hinv : Inv s) (hplain : RepliesOnly s) {e : Event}
    (hstep : step host parse s e = some s') (bev : Bev) :
    Adds s s' bev (e.repliesOn host parse bev) (if e.isDelNode then 1 else 0) := by
  cases e with
  | accept pNodeCon worker =>
    obtain ⟨_, rfl⟩ := step_accept hstep
    exact adds_nothing rfl rfl
  | handlerConnect worker created =>
    obtain ⟨pConnect, rest, _, _, rfl⟩ := step_handlerConnect hstep
    have hpopped : Inv { s with listConnect := Function.update s.listConnect worker rest } := hinv
    obtain ⟨hsent, hcloses⟩ := adds_handlerConnect hpopped pConnect created bev
    exact ⟨hsent, hcloses⟩
  | read bev' stack input =>
    obtain ⟨v, actions, hv, hidle, hactions, rfl⟩ := step_read hstep
    exact adds_read hv hidle hactions _ bev
  | resume worker =>
    obtain ⟨task, rest, hpending, rfl⟩ := step_resume hstep
    exact adds_resume hinv hplain hpending bev
  | errorCallBack bev' what =>
    obtain ⟨v, _, _, rfl⟩ := step_errorCallBack hstep
    split
    · obtain ⟨hwritten, hpending, hbevs⟩ := s.delete_frame v.arg
      exact adds_nothing (congrFun hwritten bev) (pendingFrames_congr hpending hbevs bev)
    · exact adds_nothing rfl rfl
  | getAllNode =>
    obtain rfl := step_getAllNode hstep
    split
    · exact adds_nothing rfl rfl
    · exact adds_nothing rfl rfl
  | delNode strIp stack =>
    obtain rfl := step_delNode hstep
    exact adds_delNode s stack strIp bev

/-- The tasks after an event were there before it or belong to a callback that
the event starts. -/
theorem step_pending {e : Event} (hstep : step host parse s e = some s') {worker : Worker}
    {task : Task} (htask : task ∈ s'.pending worker) : task ∈ s.pending worker ∨
      ∃ bev stack input actions, e = .read bev stack input ∧
        NodeConnect.readCallBack host parse stack input = .ok actions ∧ task.action ∈ actions := by
  have hkept : s'.pending = s.pending → task ∈ s.pending worker := fun hpending =>
    hpending ▸ htask
  cases e with
  | accept pNodeCon worker' =>
    obtain ⟨_, rfl⟩ := step_accept hstep
    exact Or.inl (hkept rfl)
  | handlerConnect worker' created =>
    obtain ⟨pConnect, rest, _, _, rfl⟩ := step_handlerConnect hstep
    exact Or.inl (hkept (State.handlerConnect_frame _ pConnect created).2)
  | read bev stack input =>
    obtain ⟨v, actions, _, _, hactions, rfl⟩ := step_read hstep
    by_cases hworker : worker = v.base
    · rw [hworker] at htask
      dsimp only at htask
      rw [Function.update_self] at htask
      obtain ⟨action, haction, rfl⟩ := List.mem_map.mp htask
      exact Or.inr ⟨bev, stack, input, actions, rfl, hactions, haction⟩
    · dsimp only at htask
      rw [Function.update_of_ne hworker] at htask
      exact Or.inl htask
  | resume worker' =>
    obtain ⟨task', rest, hpending, rfl⟩ := step_resume hstep
    rw [(perform_frames _ task').2.1] at htask
    dsimp only at htask
    by_cases hworker : worker = worker'
    · rw [hworker, Function.update_self] at htask
      rw [hworker, hpending]
      exact Or.inl (List.mem_cons_of_mem task' htask)
    · rw [Function.update_of_ne hworker] at htask
      exact Or.inl htask
  | errorCallBack bev what =>
    obtain ⟨v, _, _, rfl⟩ := step_errorCallBack hstep
    split at htask
    · exact Or.inl ((s.delete_frame v.arg).2.1 ▸ htask)
    · exact Or.inl htask
  | getAllNode =>
    obtain rfl := step_getAllNode hstep
    split at htask
    · exact Or.inl htask
    · exact Or.inl htask
  | delNode strIp stack =>
    obtain rfl := step_delNode hstep
    exact Or.inl (hkept (delNode_frames host s stack strIp).2.1)

/-- The workers write replies alone. -/
theorem RepliesOnly.step (hplain : RepliesOnly s) {e : Event}
    (hstep : step host parse s e = some s') : RepliesOnly s' := by
  intro worker task htask bytes hwrite
  rcases step_pending hstep htask with hold | ⟨_, stack, input, actions, _, hactions, haction⟩
  · exact hplain worker task hold bytes hwrite
  · have hreply : bytes ∈ repliesTo host parse stack input := by
      rw [repliesTo, hactions]
      refine List.mem_filterMap.mpr ⟨task.action, haction, ?_⟩
      rw [hwrite]
    exact not_close_of_mem_repliesTo host parse hreply

/-- In every run, the frames of a bufferevent that are written or still to come
are the replies to its reads, in order, but for close frames; of these there are
no more than calls of `DelNode`. -/
theorem replies_along (host : ByteOrder) (parse : Parser) {events : List Event} {s : State}
    (hrun : (system host parse).run events = some s) (bev : Bev) :
    s.sent bev = events.flatMap (Event.repliesOn host parse bev) ∧
      (s.closeFrames bev).length ≤ (events.filter Event.isDelNode).length := by
  have hinvariant : (Inv s ∧ RepliesOnly s) ∧
      s.sent bev = events.flatMap (Event.repliesOn host parse bev) ∧
      (s.closeFrames bev).length ≤ (events.filter Event.isDelNode).length := by
    refine System.run_induction (A := fun _ => True)
      (fun events s => (Inv s ∧ RepliesOnly s) ∧
        s.sent bev = events.flatMap (Event.repliesOn host parse bev) ∧
        (s.closeFrames bev).length ≤ (events.filter Event.isDelNode).length)
      ⟨⟨Inv.init, fun _ _ htask => absurd htask List.not_mem_nil⟩, rfl, le_rfl⟩
      ?_ (fun _ _ => trivial) hrun
    rintro events s e s' - ⟨⟨hinv, hplain⟩, hsent, hcloses⟩ hstep
    have hadds := step_adds hinv hplain hstep bev
    refine ⟨⟨hinv.step hstep, hplain.step hstep⟩, ?_, ?_⟩
    · rw [hadds.sent, hsent, List.flatMap_append, List.flatMap_singleton]
    · have hcount : ([e].filter Event.isDelNode).length = if e.isDelNode then 1 else 0 := by
        cases hdel : e.isDelNode with
        | true => rw [List.filter_cons_of_pos hdel]; rfl
        | false => rw [List.filter_cons_of_neg (by rw [hdel]; exact Bool.false_ne_true)]; rfl
      rw [List.filter_append, List.length_append, hcount]
      exact hadds.closeFrames.trans (Nat.add_le_add_right hcloses _)
  exact hinvariant.2

end Steps

/-- A login on the first connection, which `DelNode` closes before the reply. -/
def loginThenClose : List Event := [.accept 0 0, .handlerConnect 0 true,
  .read 0 .zeros (oneByteLogin 49), .resume 0, .resume 0, .resume 0, .delNode [49] .zeros,
  .resume 0]

/-- The close frame does not displace the reply. -/
theorem replies_along_loginThenClose : ∃ s,
    (system .little ReqNodeLogin.parseFromIstream).run loginThenClose = some s ∧
      s.sent 0 = loginThenClose.flatMap
        (Event.repliesOn .little ReqNodeLogin.parseFromIstream 0) ∧
      (s.closeFrames 0).length ≤ 1 := by
  have hruns : ((system .little ReqNodeLogin.parseFromIstream).run loginThenClose).isSome =
      true := by decide +kernel
  obtain ⟨s, hrun⟩ := Option.isSome_iff_exists.mp hruns
  obtain ⟨hsent, hcloses⟩ := replies_along .little ReqNodeLogin.parseFromIstream hrun 0
  exact ⟨s, hrun, hsent, hcloses⟩

end NodeManager.Server
