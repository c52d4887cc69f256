import NodeManager.Server

/-!
# Runs that differ in leftover memory only

A callback reads memory that it has not written: the bytes behind `databuff`
when the length of a message is too large, and the fields of a head that it
does not assign. Such bytes can reach names, ips and through them the map, but
a state without these, its outline, goes on in the same way whatever the
memory held.
-/

namespace NodeManager

open ByteMemory TransitionSystem

/-- An effect without what it took out of the message. -/
def NodeConnect.Action.outline : NodeConnect.Action → NodeConnect.Action
  | .decode msgId _ => .decode msgId []
  | .setNodeName _ => .setNodeName []
  | .addNode _ => .addNode ⟨[], [], []⟩
  | .write bytes => .write bytes

/-- An object without its name. -/
def NodeConnect.outline (x : NodeConnect) : NodeConnect := { x with strNodeName := [] }

namespace Server

/-- The event as it goes when the memory that it does not write holds something
else. -/
def Event.refill (stack : Stack) : Event → Event
  | .read bev _ input => .read bev stack input
  | .delNode strIp _ => .delNode strIp stack
  | e => e

/-- The same events in the same order, over any memory. -/
def SameButMemory : List Event → List Event → Prop :=
  List.Forall₂ fun e f => ∃ stack, f = e.refill stack

theorem refill_refill (e : Event) (stack stack' : Stack) :
    (e.refill stack).refill stack' = e.refill stack' := by
  cases e <;> rfl

/-- Any memory is one that a list of events can go over. -/
theorem sameButMemory_refl (es : List Event) : SameButMemory es es := by
  refine List.forall₂_same.mpr fun e _ => ?_
  cases e with
  | read bev stack input => exact ⟨stack, rfl⟩
  | delNode strIp stack => exact ⟨stack, rfl⟩
  | accept pNodeCon worker => exact ⟨.zeros, rfl⟩
  | handlerConnect worker created => exact ⟨.zeros, rfl⟩
  | resume worker => exact ⟨.zeros, rfl⟩
  | errorCallBack bev what => exact ⟨.zeros, rfl⟩
  | getAllNode => exact ⟨.zeros, rfl⟩

/-- The memory of one event can be replaced on its own. -/
theorem SameButMemory.refill_at {es before after : List Event} {e : Event}
    (h : SameButMemory es (before ++ e :: after)) (stack : Stack) :
    SameButMemory es (before ++ e.refill stack :: after) := by
  induction before generalizing es with
  | nil =>
    obtain ⟨f, tail, ⟨stack', rfl⟩, htail, rfl⟩ := List.forall₂_cons_right_iff.mp h
    rw [refill_refill]
    exact List.Forall₂.cons ⟨stack, rfl⟩ htail
  | cons b before ih =>
    obtain ⟨f, tail, hfirst, htail, rfl⟩ := List.forall₂_cons_right_iff.mp h
    exact List.Forall₂.cons hfirst (ih htail)

/-- What two lists have in common with a third one they have with each other. -/
theorem SameButMemory.of_common {es fs gs : List Event} (h : SameButMemory es fs)
    (h' : SameButMemory es gs) : SameButMemory fs gs := by
  induction h generalizing gs with
  | nil =>
    rw [List.forall₂_nil_left_iff.mp h']
    exact List.Forall₂.nil
  | cons hfirst _ ih =>
    obtain ⟨g, gs, ⟨stack', rfl⟩, hrest, rfl⟩ := List.forall₂_cons_left_iff.mp h'
    obtain ⟨stack, rfl⟩ := hfirst
    exact List.Forall₂.cons ⟨stack', (refill_refill _ stack stack').symm⟩ (ih hrest)

/-- A task without what its effect took out of the message. -/
def Task.outline (task : Task) : Task := { task with action := task.action.outline }

/-- The state without names, without the map and without what is remembered of
the logins. -/
def State.outline (s : State) : State :=
  { s with
    heap := Option.map NodeConnect.outline ∘ s.heap
    pending := List.map Task.outline ∘ s.pending
    mapNode := ∅
    reads := []
    lastLogin := fun _ => none
    fault := none }

/-- `DelNode` does not find the ip, so that no object, live or deleted, is asked
to close. -/
def ClosesNothing (s : State) : Event → Prop
  | .delNode strIp _ => s.mapNode.lookup strIp = none
  | _ => True

section Operations

variable {s s' : State}

theorem outline_outline (s : State) : s.outline.outline = s.outline := by
  have hheap : Option.map NodeConnect.outline ∘ Option.map NodeConnect.outline ∘ s.heap =
      Option.map NodeConnect.outline ∘ s.heap := by
    funext a
    exact Option.map_map _ _ (s.heap a)
  have htask : Task.outline ∘ Task.outline = Task.outline := by
    funext task
    obtain ⟨bev, arg, action⟩ := task
    cases action <;> rfl
  have hpending : List.map Task.outline ∘ List.map Task.outline ∘ s.pending =
      List.map Task.outline ∘ s.pending := by
    funext worker
    rw [Function.comp_apply, Function.comp_apply, List.map_map, htask]
  rw [State.outline, State.outline]
  dsimp only
  rw [hheap, hpending]

/-- A name is not part of the outline. -/
theorem setNodeName_outline (s : State) (a : Addr) (strName : Str) :
    (s.setNodeName a strName).outline = s.outline := by
  cases ha : s.heap a with
  | none =>
    rw [State.setNodeName_dead ha]
    rfl
  | some x =>
    have hheap : Option.map NodeConnect.outline ∘
        Function.update s.heap a (some { x with strNodeName := strName }) =
          Option.map NodeConnect.outline ∘ s.heap := by
      have hsame : Option.map NodeConnect.outline (some { x with strNodeName := strName }) =
          (Option.map NodeConnect.outline ∘ s.heap) a := by
        rw [Function.comp_apply, ha]
        rfl
      rw [Function.comp_update, hsame, Function.update_eq_self]
    rw [State.setNodeName_live ha]
    exact congrArg (fun heap => { s.outline with heap }) hheap

/-- What an effect does to the outline can be read off the outlines. -/
theorem perform_outline (s : State) (task : Task) :
    (s.perform task).outline = (s.outline.perform task.outline).outline := by
  obtain ⟨bev, arg, action⟩ := task
  cases action with
  | decode msgId body => exact (outline_outline s).symm
  | setNodeName strName =>
    have hname : (s.outline.setNodeName arg []).outline = s.outline :=
      (setNodeName_outline s.outline arg []).trans (outline_outline s)
    exact (setNodeName_outline s arg strName).trans hname.symm
  | addNode info => exact (outline_outline s).symm
  | write bytes =>
    exact congrArg (fun t => State.buffereventWrite t bev bytes) (outline_outline s).symm

/-- A change of one object. -/
theorem update_outline (s : State) (a : Addr) (o : Option NodeConnect) :
    { s with heap := Function.update s.heap a o }.outline =
      { s.outline with heap := Function.update s.outline.heap a (o.map NodeConnect.outline) } :=
  congrArg (fun heap => { s.outline with heap }) (Function.comp_update _ s.heap a o)

theorem heap_outline_none {a : Addr} : s.outline.heap a = none ↔ s.heap a = none :=
  Option.map_eq_none_iff

theorem heap_outline_some {a : Addr} {x : NodeConnect} (h : s.heap a = some x) :
    s.outline.heap a = some x.outline :=
  congrArg (Option.map NodeConnect.outline) h

theorem delete_live_outline {a : Addr} {x : NodeConnect} (h : s.heap a = some x) :
    (s.delete a).outline = { s.outline with
      heap := Function.update s.outline.heap a none
      deleted := s.deleted ++ [x.sock] } := by
  rw [State.delete_live h]
  exact update_outline { s with deleted := s.deleted ++ [x.sock] } a none

theorem delete_outline (s : State) (a : Addr) :
    (s.delete a).outline = (s.outline.delete a).outline := by
  cases ha : s.heap a with
  | none =>
    rw [State.delete_dead ha, State.delete_dead (heap_outline_none.mpr ha)]
    exact (outline_outline s).symm
  | some x =>
    rw [delete_live_outline ha, delete_live_outline (heap_outline_some ha), outline_outline]
    rfl

theorem handlerConnect_live_outline {a : Addr} {x : NodeConnect} (h : s.heap a = some x) :
    (s.handlerConnect a true).outline = { s.outline with
      heap := Function.update s.outline.heap a (some { x.outline with bev := some s.bevs.length })
      bevs := s.bevs ++ [{ fd := x.sock, base := x.base, arg := a }] } := by
  rw [State.handlerConnect_created h]
  exact update_outline { s with bevs := s.bevs ++ [{ fd := x.sock, base := x.base, arg := a }] } a
    (some { x with bev := some s.bevs.length })

theorem handlerConnect_outline (s : State) (a : Addr) (created : Bool) :
    (s.handlerConnect a created).outline = (s.outline.handlerConnect a created).outline := by
  cases ha : s.heap a with
  | none =>
    rw [State.handlerConnect_dead ha, State.handlerConnect_dead (heap_outline_none.mpr ha)]
    exact (outline_outline s).symm
  | some x =>
    have houtline := heap_outline_some ha
    cases created with
    | true =>
      rw [handlerConnect_live_outline ha, handlerConnect_live_outline houtline, outline_outline]
      rfl
    | false =>
      rw [State.handlerConnect_failed ha, State.handlerConnect_failed houtline]
      exact delete_outline s a

/-- A change of the tasks of one worker, whatever was received. -/
theorem schedule_outline (s : State) (worker : Worker) (tasks : List Task)
    (reads : List Received) :
    { s with pending := Function.update s.pending worker tasks, reads := reads }.outline =
      { s.outline with
        pending := Function.update s.outline.pending worker (tasks.map Task.outline) } :=
  congrArg (fun pending => { s.outline with pending })
    (Function.comp_update _ s.pending worker tasks)

theorem idle_outline {worker : Worker} (h : s.pending worker = []) :
    s.outline.pending worker = [] :=
  congrArg (List.map Task.outline) h

end Operations

section Steps

variable {host : ByteOrder} {parse : Parser} {s s' : State}

/-- The memory around the buffers decides neither how many effects a callback
has nor what it writes. -/
theorem readCallBack_outline (host : ByteOrder) (parse : Parser) (stack stack' : Stack)
    (input : List UInt8) : ∃ actions actions',
    NodeConnect.readCallBack host parse stack input = .ok actions ∧
      NodeConnect.readCallBack host parse stack' input = .ok actions' ∧
        actions.map NodeConnect.Action.outline = actions'.map NodeConnect.Action.outline := by
  refine ⟨_, _, NodeConnect.readCallBack_eq host parse stack input,
    NodeConnect.readCallBack_eq host parse stack' input, ?_⟩
  dsimp only
  split
  · rfl
  · unfold NodeConnect.handle
    split
    · rfl
    · split
      · rfl
      · rfl

theorem step_outline_accept {pNodeCon : Addr} {worker : Worker}
    (hstep : step host parse s (.accept pNodeCon worker) = some s') :
    ∃ t, step host parse s.outline (.accept pNodeCon worker) = some t ∧
      t.outline = s'.outline := by
  have hok : ¬s.outline.fault ≠ none := not_not.mpr rfl
  obtain ⟨hfree, rfl⟩ := step_accept hstep
  set lists := Function.update s.listConnect worker (s.listConnect worker ++ [pNodeCon])
  set x : NodeConnect := { sock := s.accepted, base := worker }
  have haccept : ∀ t : State, { t with
      heap := Function.update t.heap pNodeCon (some x)
      listConnect := lists
      accepted := s.accepted + 1 }.outline = { t.outline with
        heap := Function.update t.outline.heap pNodeCon (some x)
        listConnect := lists
        accepted := s.accepted + 1 } := fun t =>
    update_outline { t with listConnect := lists, accepted := s.accepted + 1 } pNodeCon (some x)
  refine ⟨{ s.outline with
    heap := Function.update s.outline.heap pNodeCon (some x)
    listConnect := lists
    accepted := s.accepted + 1 }, ?_, ?_⟩
  · rw [step, if_neg hok, if_neg (not_not.mpr (heap_outline_none.mpr hfree))]
    rfl
  · rw [haccept, haccept, outline_outline]

/-- The memory of a read goes into nothing but the frames. -/
theorem step_outline_read {bev : Bev} {stack' : Stack} {input : List UInt8}
    (hstep : step host parse s (.read bev stack' input) = some s') (stack : Stack) :
    ∃ t, step host parse s.outline (.read bev stack input) = some t ∧ t.outline = s'.outline := by
  have hopen := fun v hbev => open_of_step (v := v) hbev (Or.inl ⟨stack', input, rfl⟩) hstep
  obtain ⟨v, actions, hbev, hidle, hactions, rfl⟩ := step_read hstep
  obtain ⟨old, new, hold, hnew, hsame⟩ := readCallBack_outline host parse stack' stack input
  obtain rfl := Except.ok.inj (hold.symm.trans hactions)
  have htasks : (old.map (Task.mk bev v.arg)).map Task.outline =
      (new.map (Task.mk bev v.arg)).map Task.outline := by
    have hcomp : Task.outline ∘ Task.mk bev v.arg =
        Task.mk bev v.arg ∘ NodeConnect.Action.outline := rfl
    rw [List.map_map, List.map_map, hcomp, ← List.map_map, ← List.map_map, hsame]
  refine ⟨_, step_read_of rfl hbev (hopen v hbev) (idle_outline hidle) hnew, ?_⟩
  rw [schedule_outline, schedule_outline, outline_outline, htasks]

theorem step_outline_errorCallBack {bev : Bev} {what : UInt16}
    (hstep : step host parse s (.errorCallBack bev what) = some s') :
    ∃ t, step host parse s.outline (.errorCallBack bev what) = some t ∧
      t.outline = s'.outline := by
  have hok : ¬s.outline.fault ≠ none := not_not.mpr rfl
  have hopen := fun v hbev => open_of_step (v := v) hbev (Or.inr ⟨what, rfl⟩) hstep
  obtain ⟨v, hbev, hidle, rfl⟩ := step_errorCallBack hstep
  have hbev' : s.outline.bevs[bev]? = some v := hbev
  have hready : ¬(v.freed = true ∨ s.outline.pending v.base ≠ []) := by
    rw [hopen v hbev, idle_outline hidle]
    exact not_or.mpr ⟨Bool.false_ne_true, not_not.mpr rfl⟩
  refine ⟨if NodeConnect.errorCallBackDeletes what then s.outline.delete v.arg else s.outline,
    ?_, ?_⟩
  · rw [step, if_neg hok, hbev']
    dsimp only
    rw [if_neg hready]
    split
    · rfl
    · rfl
  · split
    · exact (delete_outline s v.arg).symm
    · exact outline_outline s

/-- A step that closes nothing is one of the outline, whatever the memory. -/
theorem step_outline {e : Event} (hquiet : ClosesNothing s e)
    (hstep : step host parse s e = some s') (stack : Stack) :
    ∃ t, step host parse s.outline (e.refill stack) = some t ∧ t.outline = s'.outline := by
  have hok : ¬s.outline.fault ≠ none := not_not.mpr rfl
  cases e with
  | accept pNodeCon worker => exact step_outline_accept hstep
  | handlerConnect worker created =>
    obtain ⟨pConnect, rest, hlist, hidle, rfl⟩ := step_handlerConnect hstep
    set popped : State := { s with listConnect := Function.update s.listConnect worker rest }
    refine ⟨popped.outline.handlerConnect pConnect created, ?_,
      (handlerConnect_outline popped pConnect created).symm⟩
    have hlist' : s.outline.listConnect worker = pConnect :: rest := hlist
    have hidle' := idle_outline hidle
    dsimp only [Event.refill]
    rw [step, if_neg hok, hlist']
    dsimp only
    rw [if_neg (not_not.mpr hidle')]
    rfl
  | read bev stack' input => exact step_outline_read hstep stack
  | resume worker =>
    obtain ⟨task, rest, hpending, rfl⟩ := step_resume hstep
    set popped : State := { s with pending := Function.update s.pending worker rest } with hpopped
    have hpending' : s.outline.pending worker = task.outline :: rest.map Task.outline :=
      congrArg (List.map Task.outline) hpending
    refine ⟨popped.outline.perform task.outline, ?_, (perform_outline popped task).symm⟩
    dsimp only [Event.refill]
    rw [step_resume_of host parse rfl hpending', hpopped, schedule_outline]
  | errorCallBack bev what => exact step_outline_errorCallBack hstep
  | getAllNode =>
    obtain rfl := step_getAllNode hstep
    refine ⟨s.outline, if_neg hok, ?_⟩
    rw [outline_outline]
    split
    · rfl
    · rfl
  | delNode strIp stack' =>
    obtain rfl := step_delNode hstep
    have hunmapped : s.mapNode.lookup strIp = none := hquiet
    refine ⟨s.outline, if_neg hok, ?_⟩
    rw [outline_outline, State.delNode_unmapped stack' hunmapped]

/-- States with one outline go on to states with one outline. -/
theorem sameOutline_step {t t' : State} {e f : Event} (h : s.outline = t.outline)
    (hef : ∃ stack, f = e.refill stack) (he : ClosesNothing s e) (hf : ClosesNothing t f)
    (hs : step host parse s e = some s') (ht : step host parse t f = some t') :
    s'.outline = t'.outline := by
  obtain ⟨stack, rfl⟩ := hef
  obtain ⟨u, hu, hus⟩ := step_outline he hs .zeros
  obtain ⟨v, hv, hvt⟩ := step_outline hf ht .zeros
  rw [refill_refill, ← h, hu] at hv
  rw [← hus, ← hvt, Option.some.inj hv]

/-- Runs that close nothing have written the same, whatever the memory held. -/
theorem written_of_sameButMemory {es fs : List Event} {t : State} (hsame : SameButMemory es fs)
    (hes : (system host parse).Guarded ClosesNothing State.init es)
    (hfs : (system host parse).Guarded ClosesNothing State.init fs)
    (hs : (system host parse).run es = some s) (ht : (system host parse).run fs = some t) :
    s.written = t.written := by
  have houtline : s.outline = t.outline :=
    hes.related (R := fun s t => s.outline = t.outline) sameOutline_step hfs hsame rfl hs ht
  have hwritten : s.outline.written = t.outline.written := congrArg State.written houtline
  exact hwritten

end Steps

end Server

end NodeManager
