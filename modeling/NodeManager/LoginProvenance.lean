import NodeManager.ConnectionReplies

/-!
# Where ips and names come from

The map and the objects hold what was read in logins and nothing else. An ip
is mapped to the object of a connection on which a login with this ip was
read, and a name that is not empty was read on the connection of its object,
whatever connections end in between.
-/

namespace NodeManager.Server

open ByteMemory TransitionSystem

variable (host : ByteOrder) (parse : Parser)

/-- The ips and the names of a state, each with the address it is kept for,
satisfy two predicates, those in the effects that are still to come included. -/
structure Told (Ip Name : Addr → Str → Prop) (heap : Addr → Option NodeConnect)
    (mapNode : AList fun _ : Str => Addr) (pending : Worker → List Task) : Prop where
  mapped : ∀ {ip a}, mapNode.lookup ip = some a → Ip a ip
  named : ∀ {a x}, heap a = some x → Name a x.strNodeName
  adds : ∀ {w t info}, t ∈ pending w → t.action = .addNode info → Ip t.arg info.strIp
  sets : ∀ {w t strName}, t ∈ pending w → t.action = .setNodeName strName → Name t.arg strName

namespace Told

variable {Ip Name Ip' Name' : Addr → Str → Prop} {heap : Addr → Option NodeConnect}
  {mapNode : AList fun _ : Str => Addr} {pending : Worker → List Task}

theorem mono (h : Told Ip Name heap mapNode pending) (hip : ∀ a ip, Ip a ip → Ip' a ip)
    (hname : ∀ a name, Name a name → Name' a name) : Told Ip' Name' heap mapNode pending :=
  ⟨fun hm => hip _ _ (h.mapped hm), fun hx => hname _ _ (h.named hx),
    fun ht ha => hip _ _ (h.adds ht ha), fun ht ha => hname _ _ (h.sets ht ha)⟩

/-- An object is deleted, or replaced by one with a name of its address. -/
theorem update (h : Told Ip Name heap mapNode pending) (a : Addr) {new : Option NodeConnect}
    (hnew : ∀ x ∈ new, Name a x.strNodeName) :
    Told Ip Name (Function.update heap a new) mapNode pending := by
  refine ⟨h.mapped, ?_, h.adds, h.sets⟩
  intro a' x hx
  by_cases hsame : a' = a
  · rw [hsame, Function.update_self] at hx
    rw [hsame]
    exact hnew x hx
  · rw [Function.update_of_ne hsame] at hx
    exact h.named hx

theorem register (h : Told Ip Name heap mapNode pending) {ip : Str} {a : Addr} (hip : Ip a ip) :
    Told Ip Name heap (mapNode.insert ip a) pending := by
  refine ⟨?_, h.named, h.adds, h.sets⟩
  intro ip' a' hlookup
  by_cases hsame : ip' = ip
  · rw [hsame, AList.lookup_insert, Option.some.injEq] at hlookup
    rw [hsame, ← hlookup]
    exact hip
  · rw [AList.lookup_insert_ne hsame] at hlookup
    exact h.mapped hlookup

theorem schedule (h : Told Ip Name heap mapNode pending) {worker : Worker} {tasks : List Task}
    (hadds : ∀ t ∈ tasks, ∀ info, t.action = .addNode info → Ip t.arg info.strIp)
    (hsets : ∀ t ∈ tasks, ∀ strName, t.action = .setNodeName strName → Name t.arg strName) :
    Told Ip Name heap mapNode (Function.update pending worker tasks) := by
  refine ⟨h.mapped, h.named, ?_, ?_⟩
  · intro w t info ht
    by_cases hsame : w = worker
    · rw [hsame, Function.update_self] at ht
      exact hadds t ht info
    · rw [Function.update_of_ne hsame] at ht
      exact h.adds ht
  · intro w t strName ht
    by_cases hsame : w = worker
    · rw [hsame, Function.update_self] at ht
      exact hsets t ht strName
    · rw [Function.update_of_ne hsame] at ht
      exact h.sets ht

end Told

/-- The ips and names of a state satisfy two predicates. -/
def State.Told (s : State) (Ip Name : Addr → Str → Prop) : Prop :=
  Server.Told Ip Name s.heap s.mapNode s.pending

section Steps

variable {host parse} {Ip Name : Addr → Str → Prop} {s s' : State}

theorem State.Told.delete (h : s.Told Ip Name) (a : Addr) : (s.delete a).Told Ip Name := by
  cases ha : s.heap a with
  | none =>
    rw [State.delete_dead ha]
    exact h
  | some x =>
    rw [State.delete_live ha]
    exact Server.Told.update h a fun x hx => nomatch hx

theorem State.Told.handlerConnect (h : s.Told Ip Name) (a : Addr) (created : Bool) :
    (s.handlerConnect a created).Told Ip Name := by
  cases ha : s.heap a with
  | none =>
    rw [State.handlerConnect_dead ha]
    exact h
  | some x =>
    cases created with
    | true =>
      rw [State.handlerConnect_created ha]
      have hname : Name a x.strNodeName := h.named ha
      refine Server.Told.update h a fun y hy => ?_
      cases hy
      exact hname
    | false =>
      rw [State.handlerConnect_failed ha]
      exact h.delete a

theorem State.Told.perform (h : s.Told Ip Name) {task : Task}
    (hadds : ∀ info, task.action = .addNode info → Ip task.arg info.strIp)
    (hsets : ∀ strName, task.action = .setNodeName strName → Name task.arg strName) :
    (s.perform task).Told Ip Name := by
  unfold State.perform
  cases haction : task.action with
  | decode msgId body => exact h
  | setNodeName strName =>
    dsimp only
    cases ha : s.heap task.arg with
    | none =>
      rw [State.setNodeName_dead ha]
      exact h
    | some x =>
      rw [State.setNodeName_live ha]
      refine Server.Told.update h task.arg fun y hy => ?_
      cases hy
      exact hsets strName haction
  | addNode info => exact Server.Told.register h (hadds info haction)
  | write bytes => exact h

/-- A close request changes no ip and no name. -/
theorem State.Told.delNode (h : s.Told Ip Name) (stack : Stack) (strIp : Str) :
    (s.delNode host stack strIp).Told Ip Name := by
  unfold State.delNode
  split
  · exact h
  · unfold State.sendReqCloseNode
    split
    · exact h
    · split
      · exact h
      · exact h
      · exact h

/-- Every step keeps what the ips and names satisfy, if the logins that it
reads satisfy it too. -/
theorem State.Told.step (h : s.Told Ip Name) (hnew : ∀ a, Name a []) {e : Event}
    (hlogins : ∀ login ∈ e.logins host parse, ∀ v, s.bevs[login.1]? = some v →
      Ip v.arg login.2.strIp ∧ Name v.arg login.2.strName)
    (hstep : Server.step host parse s e = some s') : s'.Told Ip Name := by
  cases e with
  | accept pNodeCon worker =>
    obtain ⟨_, rfl⟩ := step_accept hstep
    refine Server.Told.update h pNodeCon fun x hx => ?_
    cases hx
    exact hnew pNodeCon
  | handlerConnect worker created =>
    obtain ⟨pConnect, rest, _, _, rfl⟩ := step_handlerConnect hstep
    have hpopped : { s with
      listConnect := Function.update s.listConnect worker rest }.Told Ip Name := h
    exact hpopped.handlerConnect pConnect created
  | read bev stack input =>
    obtain ⟨v, actions, hbev, _, hactions, rfl⟩ := step_read hstep
    obtain ⟨hadds, hsets⟩ := mem_readCallBack_login hactions
    have hlogin : ∀ info,
        (loginBody host stack input).map (PbCodec.handleNodeOnlineReq parse) = some info →
          Ip v.arg info.strIp ∧ Name v.arg info.strName := by
      intro info hinfo
      obtain ⟨body, hbody, rfl⟩ := Option.map_eq_some_iff.mp hinfo
      refine hlogins (bev, PbCodec.handleNodeOnlineReq parse body) ?_ v hbev
      rw [Event.logins, hbody]
      exact List.mem_singleton_self _
    refine Server.Told.schedule h ?_ ?_
    · intro t ht info haction
      obtain ⟨action, hmem, rfl⟩ := List.mem_map.mp ht
      exact (hlogin info ((hadds info).mp (haction ▸ hmem))).1
    · intro t ht strName haction
      obtain ⟨action, hmem, rfl⟩ := List.mem_map.mp ht
      obtain ⟨info, hinfo, rfl⟩ := (hsets strName).mp (haction ▸ hmem)
      exact (hlogin info hinfo).2
  | resume worker =>
    obtain ⟨task, rest, hpending, rfl⟩ := step_resume hstep
    have htask : task ∈ s.pending worker := hpending ▸ List.mem_cons_self
    have hrest : ∀ t ∈ rest, t ∈ s.pending worker :=
      fun t ht => hpending ▸ List.mem_cons_of_mem task ht
    have hresumed : { s with
        pending := Function.update s.pending worker rest }.Told Ip Name :=
      Server.Told.schedule h (fun t ht _ ha => h.adds (hrest t ht) ha)
        fun t ht _ ha => h.sets (hrest t ht) ha
    exact hresumed.perform (fun _ ha => h.adds htask ha) fun _ ha => h.sets htask ha
  | errorCallBack bev what =>
    obtain ⟨v, _, _, rfl⟩ := step_errorCallBack hstep
    split
    · exact h.delete v.arg
    · exact h
  | getAllNode =>
    obtain rfl := step_getAllNode hstep
    split
    · exact h
    · exact h
  | delNode strIp stack =>
    obtain rfl := step_delNode hstep
    exact h.delNode stack strIp

end Steps

end NodeManager.Server
