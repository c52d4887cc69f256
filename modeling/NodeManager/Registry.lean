import NodeManager.ServerInvariant

/-!
# The registry of logged-in nodes

`m_mapNode` should map an ip to an object exactly when the object is live and
the last login naming the ip arrived on its own connection. Which logins
arrived is told by the reads of the callbacks; while the callback of such a
login has not come to `AddNode`, the entry may still be that of an earlier
one. No entry is ever erased, and two callbacks may register in another order
than they read, so the map agrees with the logins in every state of a run
exactly as long as each step finds what it needs.
-/

namespace NodeManager.Server

open ByteMemory TransitionSystem

/-- A login that names the ip was read and is still to be registered. -/
def Registering (pending : Worker → List Task) (ip : Str) : Prop :=
  ∃ w, ∃ t ∈ pending w, ∃ info, t.action = .addNode info ∧ info.strIp = ip

/-- The last login that names the ip arrived on the socket; while a login that
names it is still to be registered, some login did. -/
def LoggedIn (reads : List Received) (pending : Worker → List Task) (ip : Str) (k : Sock) : Prop :=
  k ∈ loginSocks reads ip ∧ (¬Registering pending ip → (loginSocks reads ip).getLast? = some k)

/-- The entries of the map are right, and no entry is missing. -/
structure Agrees (heap : Addr → Option NodeConnect) (mapNode : AList fun _ : Str => Addr)
    (reads : List Received) (pending : Worker → List Task) : Prop where
  sound : ∀ {ip a}, mapNode.lookup ip = some a →
    ∃ x, heap a = some x ∧ LoggedIn reads pending ip x.sock
  complete : ∀ {ip a x}, ¬Registering pending ip → heap a = some x →
    (loginSocks reads ip).getLast? = some x.sock → mapNode.lookup ip = some a

/-- `m_mapNode` agrees with the live objects and the logins so far. -/
def Refines (s : State) : Prop := Agrees s.heap s.mapNode s.reads s.pending

/-- The registry is right, and the HTTP requests that use it are safe. -/
structure RegistryOk (host : ByteOrder) (s : State) : Prop where
  /-- The map holds the live objects on whose connection the last login with the
  ip arrived. -/
  refines : ∀ ip, ¬Registering s.pending ip → ∀ a, s.mapNode.lookup ip = some a ↔
    ∃ x, s.heap a = some x ∧ (loginSocks s.reads ip).getLast? = some x.sock
  noFault : s.fault = none
  /-- `GetAllNode` reads no deleted object. -/
  listSafe : s.getAllNode ≠ none
  /-- `DelNode` reads no deleted object and writes only to a connection on which
  the ip logged in. -/
  stopSafe : ∀ stack ip, (s.delNode host stack ip).fault = none ∧
    ∀ b, (s.delNode host stack ip).written b ≠ s.written b →
      ∃ v, s.bevs[b]? = some v ∧ LoggedIn s.reads s.pending ip v.fd

/-- No ip is mapped to the address. -/
def Unmapped (s : State) (a : Addr) : Prop := ∀ ip, s.mapNode.lookup ip ≠ some a

/-- The step deletes only a live object that no ip is mapped to, names only a
live object, and registers only a live object on whose connection the last
login with the ip arrived, or any if another one is still to be registered. -/
def KeepsRegistry (s : State) : Event → Prop
  | .handlerConnect worker created => ∀ a ∈ (s.listConnect worker).head?,
      s.heap a ≠ none ∧ (created = false → Unmapped s a)
  | .resume worker => ∀ t ∈ (s.pending worker).head?,
      match t.action with
      | .setNodeName _ => s.heap t.arg ≠ none
      | .addNode info => ∃ x, s.heap t.arg = some x ∧ LoggedIn s.reads
          (Function.update s.pending worker (s.pending worker).tail) info.strIp x.sock
      | _ => True
  | .errorCallBack bev what => NodeConnect.errorCallBackDeletes what = true →
      ∀ v ∈ s.bevs[bev]?, s.heap v.arg ≠ none ∧ Unmapped s v.arg
  | _ => True

section Logins

variable {reads : List Received} {pending : Worker → List Task} {ip : Str}

/-- A login was read on the socket that it is remembered with. -/
theorem mem_loginSocks {k : Sock} (h : k ∈ loginSocks reads ip) :
    ∃ r ∈ reads, r.fd = k := by
  obtain ⟨r, hr, hfd⟩ := List.mem_map.mp h
  exact ⟨r, (List.mem_filter.mp hr).1, hfd⟩

/-- A worker that goes on with its callback is done with the registrations of
its first task only. -/
theorem registering_pop {worker : Worker} {task : Task} {rest : List Task}
    (hpending : pending worker = task :: rest)
    (hother : ∀ info, task.action = .addNode info → info.strIp ≠ ip) :
    Registering (Function.update pending worker rest) ip ↔ Registering pending ip := by
  constructor
  · rintro ⟨w, t, ht, hregisters⟩
    by_cases hsame : w = worker
    · rw [hsame, Function.update_self] at ht
      exact ⟨worker, t, hpending ▸ List.mem_cons_of_mem task ht, hregisters⟩
    · rw [Function.update_of_ne hsame] at ht
      exact ⟨w, t, ht, hregisters⟩
  · rintro ⟨w, t, ht, info, haction, hip⟩
    by_cases hsame : w = worker
    · rw [hsame, hpending] at ht
      rcases List.mem_cons.mp ht with rfl | hrest
      · exact absurd hip (hother info haction)
      · exact ⟨worker, t, by rwa [Function.update_self], info, haction, hip⟩
    · exact ⟨w, t, by rwa [Function.update_of_ne hsame], info, haction, hip⟩

/-- A worker that is done takes up a callback, with which the ip of the login that it
received, if any, is still to be registered. -/
theorem registering_receive {worker : Worker} {tasks : List Task} {login : Option NodeInfo}
    (hidle : pending worker = [])
    (htasks : ∀ info, (∃ t ∈ tasks, t.action = .addNode info) ↔ login = some info) :
    Registering (Function.update pending worker tasks) ip ↔
      Registering pending ip ∨ login.map NodeInfo.strIp = some ip := by
  constructor
  · rintro ⟨w, t, ht, info, haction, hip⟩
    by_cases hsame : w = worker
    · rw [hsame, Function.update_self] at ht
      exact Or.inr (by rw [(htasks info).mp ⟨t, ht, haction⟩, Option.map_some, hip])
    · rw [Function.update_of_ne hsame] at ht
      exact Or.inl ⟨w, t, ht, info, haction, hip⟩
  · rintro (⟨w, t, ht, hregisters⟩ | hlogin)
    · have hother : w ≠ worker := by
        rintro rfl
        rw [hidle] at ht
        cases ht
      exact ⟨w, t, by rwa [Function.update_of_ne hother], hregisters⟩
    · obtain ⟨info, hinfo, hip⟩ := Option.map_eq_some_iff.mp hlogin
      obtain ⟨t, ht, haction⟩ := (htasks info).mpr hinfo
      exact ⟨worker, t, by rwa [Function.update_self], info, haction, hip⟩

/-- What is known of the logins with an ip depends on its reads and on whether
one of them is still to be registered. -/
theorem loggedIn_congr {reads' : List Received} {pending' : Worker → List Task} {k : Sock}
    (hreads : loginSocks reads' ip = loginSocks reads ip)
    (hpending : Registering pending' ip ↔ Registering pending ip) :
    LoggedIn reads' pending' ip k ↔ LoggedIn reads pending ip k := by
  rw [LoggedIn, LoggedIn, hreads, hpending]

end Logins

section Effects

variable {s : State}

/-- An entry of a right map leads to the bufferevent of a login. -/
theorem Refines.bev (hr : Refines s) (h : Inv s) {ip : Str} {a : Addr}
    (hlookup : s.mapNode.lookup ip = some a) : ∃ x b v, s.heap a = some x ∧
      x.bev = some b ∧ s.bevs[b]? = some v ∧ LoggedIn s.reads s.pending ip v.fd := by
  obtain ⟨x, hx, hlogin⟩ := hr.sound hlookup
  obtain ⟨r, hread, hsock⟩ := mem_loginSocks hlogin.1
  obtain ⟨v, hv, hfd⟩ := h.1.readFd hread
  obtain ⟨b, hb⟩ := Option.ne_none_iff_exists'.mp
    (h.1.bevSet hx (List.mem_of_getElem? hv) (hfd.trans hsock))
  obtain ⟨v', hv', hfd'⟩ := h.1.bevFd hx hb
  exact ⟨x, b, v', hx, hb, hv', by rwa [hfd']⟩

/-- The HTTP requests are safe whenever the map is right. -/
theorem registryOk_of_refines (h : Inv s) (host : ByteOrder) (hr : Refines s)
    (hf : s.fault = none) : RegistryOk host s := by
  refine ⟨fun ip hsettled a => ⟨fun hlookup => ?_, fun ⟨x, hx, hlast⟩ =>
    hr.complete hsettled hx hlast⟩, hf, ?_, ?_⟩
  · obtain ⟨x, hx, _, hlast⟩ := hr.sound hlookup
    exact ⟨x, hx, hlast hsettled⟩
  · refine State.getAllNode_ne_none fun ip a hlookup => ?_
    obtain ⟨x, hx, _⟩ := hr.sound hlookup
    exact ⟨x, hx⟩
  · intro stack ip
    cases hlookup : s.mapNode.lookup ip with
    | none =>
      rw [State.delNode_unmapped stack hlookup]
      exact ⟨hf, fun b hb => absurd rfl hb⟩
    | some a =>
      obtain ⟨x, bev, v, hx, hbev, hv, hlogin⟩ := hr.bev h hlookup
      obtain ⟨frame, _, hdel⟩ := State.delNode_of_bev stack hlookup hx hbev
      rw [hdel]
      refine ⟨hf, fun b hb => ?_⟩
      by_cases hsame : b = bev
      · exact ⟨v, hsame ▸ hv, hlogin⟩
      · exact absurd (Function.update_of_ne hsame _ _) hb

/-- Where a request to stop a node is safe its entry is right. -/
theorem RegistryOk.sound (hok : RegistryOk host s) (h : Inv s) {ip : Str} {a : Addr}
    (hlookup : s.mapNode.lookup ip = some a) :
    ∃ x, s.heap a = some x ∧ LoggedIn s.reads s.pending ip x.sock := by
  obtain ⟨hsafe, hwrites⟩ := hok.stopSafe .zeros ip
  have hdel : s.delNode host .zeros ip = s.sendReqCloseNode host .zeros a := by
    rw [State.delNode, hlookup]
  cases hx : s.heap a with
  | none =>
    rw [hdel, State.sendReqCloseNode, hx] at hsafe
    cases hsafe
  | some x =>
    cases hbev : x.bev with
    | none =>
      rw [hdel, State.sendReqCloseNode, hx] at hsafe
      dsimp only at hsafe
      rw [NodeConnect.closeFrame_eq, hbev] at hsafe
      cases hsafe
    | some b =>
      obtain ⟨frame, _, hwrite⟩ : ∃ frame, NodeConnect.closeFrame host .zeros = .ok frame ∧
          s.delNode host .zeros ip = s.buffereventWrite b frame :=
        State.delNode_of_bev .zeros hlookup hx hbev
      have hchanged : (s.delNode host .zeros ip).written b ≠ s.written b := by
        rw [hwrite, State.buffereventWrite]
        dsimp only
        rw [Function.update_self]
        exact fun hsame => absurd (List.append_right_eq_self.mp hsame) (List.cons_ne_nil _ _)
      obtain ⟨v, hv, hlogin⟩ := hwrites b hchanged
      obtain ⟨v', hv', hfd⟩ := h.1.bevFd hx hbev
      obtain rfl := Option.some.inj (hv.symm.trans hv')
      exact ⟨x, rfl, hfd ▸ hlogin⟩

/-- The registry is right exactly when the map agrees with the logins. -/
theorem registryOk_iff (h : Inv s) (host : ByteOrder) :
    RegistryOk host s ↔ Refines s ∧ s.fault = none := by
  refine ⟨fun hok => ⟨⟨hok.sound h, fun hsettled hx hlast => ?_⟩, hok.noFault⟩,
    fun ⟨hr, hf⟩ => registryOk_of_refines h host hr hf⟩
  exact (hok.refines _ hsettled _).mpr ⟨_, hx, hlast⟩

/-- Changing one address leaves a right map right if the entries for that
address are right afterwards. -/
theorem Refines.update (hr : Refines s) (a : Addr) (new : Option NodeConnect)
    (hsound : ∀ ip, s.mapNode.lookup ip = some a →
      ∃ x, new = some x ∧ LoggedIn s.reads s.pending ip x.sock)
    (hcomplete : ∀ ip x, ¬Registering s.pending ip → new = some x →
      (loginSocks s.reads ip).getLast? = some x.sock → s.mapNode.lookup ip = some a) :
    Agrees (Function.update s.heap a new) s.mapNode s.reads s.pending := by
  constructor
  · intro ip a' hlookup
    by_cases hsame : a' = a
    · rw [hsame, Function.update_self]
      exact hsound ip (hsame ▸ hlookup)
    · rw [Function.update_of_ne hsame]
      exact hr.sound hlookup
  · intro ip a' x hsettled hx hlast
    by_cases hsame : a' = a
    · rw [hsame, Function.update_self] at hx
      rw [hsame]
      exact hcomplete ip x hsettled hx hlast
    · rw [Function.update_of_ne hsame] at hx
      exact hr.complete hsettled hx hlast

theorem refines_delete (hr : Refines s) {a : Addr} {x : NodeConnect} (hx : s.heap a = some x) :
    Refines (s.delete a) ↔ Unmapped s a := by
  rw [State.delete_live hx]
  constructor
  · intro hdeleted ip hlookup
    obtain ⟨y, hy, _⟩ := hdeleted.sound hlookup
    dsimp only at hy
    rw [Function.update_self] at hy
    cases hy
  · intro hunmapped
    exact hr.update a none (fun ip hlookup => absurd hlookup (hunmapped ip))
      fun _ _ _ hnone => (nomatch hnone)

/-- No login arrived on a new socket, and its address had no entry. -/
theorem refines_accept (hr : Refines s) (h : Inv s) {a : Addr} (hfree : s.heap a = none)
    (worker : Worker) : Agrees
      (Function.update s.heap a (some { sock := s.accepted, base := worker })) s.mapNode
      s.reads s.pending := by
  refine hr.update a _ (fun ip hlookup => ?_) fun ip x _ hnew hlast => ?_
  · obtain ⟨x, hx, _⟩ := hr.sound hlookup
    rw [hfree] at hx
    cases hx
  · rw [Option.some.injEq] at hnew
    obtain ⟨r, hread, hsock⟩ := mem_loginSocks (List.mem_of_getLast? hlast)
    obtain ⟨v, hv, hfd⟩ := h.1.readFd hread
    have hlt := h.1.fdLt (List.mem_of_getElem? hv)
    rw [hfd, hsock, ← hnew] at hlt
    exact absurd hlt (Nat.lt_irrefl _)

/-- Changing an object apart from its socket does not concern the map. -/
theorem refines_update (hr : Refines s) {a : Addr} {x x' : NodeConnect} (hx : s.heap a = some x)
    (hsock : x'.sock = x.sock) :
    Agrees (Function.update s.heap a (some x')) s.mapNode s.reads s.pending := by
  refine hr.update a _ (fun ip hlookup => ?_) fun ip y hsettled hnew hlast => ?_
  · obtain ⟨y, hy, hlogin⟩ := hr.sound hlookup
    obtain rfl := Option.some.inj (hx.symm.trans hy)
    exact ⟨x', rfl, hsock ▸ hlogin⟩
  · obtain rfl := Option.some.inj hnew
    exact hr.complete hsettled hx (hsock ▸ hlast)

/-- A read that brings a login leaves it to be registered; the other ips are not
concerned. -/
theorem refines_receive (hr : Refines s) {r : Received} {worker : Worker} {tasks : List Task}
    (hidle : s.pending worker = [])
    (htasks : ∀ info, (∃ t ∈ tasks, t.action = .addNode info) ↔ r.login = some info) :
    Agrees s.heap s.mapNode (s.reads ++ [r]) (Function.update s.pending worker tasks) := by
  have hnamed : ∀ ip, Registering (Function.update s.pending worker tasks) ip ↔
      Registering s.pending ip ∨ r.login.map NodeInfo.strIp = some ip :=
    fun ip => registering_receive hidle htasks
  have hgrown : ∀ ip, loginSocks (s.reads ++ [r]) ip =
      loginSocks s.reads ip ++ loginSocks [r] ip := by
    intro ip
    rw [loginSocks, List.filter_append, List.map_append, loginSocks, loginSocks]
  have hothers : ∀ ip, ¬Registering (Function.update s.pending worker tasks) ip →
      ¬Registering s.pending ip ∧ loginSocks (s.reads ++ [r]) ip = loginSocks s.reads ip := by
    intro ip hsettled
    obtain ⟨hold, hnew⟩ := not_or.mp (mt (hnamed ip).mpr hsettled)
    have hnone : loginSocks [r] ip = [] := by
      simp only [loginSocks, List.filter_cons, hnew, decide_false, Bool.false_eq_true, if_false,
        List.filter_nil, List.map_nil]
    exact ⟨hold, by rw [hgrown, hnone, List.append_nil]⟩
  constructor
  · intro ip a hlookup
    obtain ⟨x, hx, hmem, hlast⟩ := hr.sound hlookup
    refine ⟨x, hx, ?_, fun hsettled => ?_⟩
    · rw [hgrown]
      exact List.mem_append_left _ hmem
    · rw [(hothers ip hsettled).2]
      exact hlast (hothers ip hsettled).1
  · intro ip a x hsettled hx hlast
    rw [(hothers ip hsettled).2] at hlast
    exact hr.complete (hothers ip hsettled).1 hx hlast

/-- A worker is done with a task that registers nothing. -/
theorem refines_pop (hr : Refines s) {worker : Worker} {task : Task} {rest : List Task}
    (hpending : s.pending worker = task :: rest)
    (hother : ∀ info, task.action ≠ .addNode info) :
    Refines { s with pending := Function.update s.pending worker rest } := by
  have hsame : ∀ ip, Registering (Function.update s.pending worker rest) ip ↔
      Registering s.pending ip := fun ip =>
    registering_pop hpending fun info haction => absurd haction (hother info)
  constructor
  · intro ip a hlookup
    obtain ⟨x, hx, hlogin⟩ := hr.sound hlookup
    exact ⟨x, hx, (loggedIn_congr rfl (hsame ip)).mpr hlogin⟩
  · intro ip a x hsettled hx hlast
    exact hr.complete (mt (hsame ip).mpr hsettled) hx hlast

/-- A registration is right exactly when it enters a live object on whose
connection the login arrived. -/
theorem refines_addNode (hr : Refines s) (h : Inv s) {worker : Worker} {task : Task}
    {rest : List Task} {info : NodeInfo} (hpending : s.pending worker = task :: rest)
    (haction : task.action = .addNode info) :
    Refines ({ s with pending := Function.update s.pending worker rest }.addNode task.bev
        task.arg info) ↔
      ∃ x, s.heap task.arg = some x ∧
        LoggedIn s.reads (Function.update s.pending worker rest) info.strIp x.sock := by
  have hself : (s.mapNode.insert info.strIp task.arg).lookup info.strIp = some task.arg :=
    AList.lookup_insert _
  have hother : ∀ {ip}, ip ≠ info.strIp →
      (s.mapNode.insert info.strIp task.arg).lookup ip = s.mapNode.lookup ip ∧
        (Registering (Function.update s.pending worker rest) ip ↔ Registering s.pending ip) := by
    intro ip hip
    refine ⟨AList.lookup_insert_ne hip, registering_pop hpending fun info' haction' => ?_⟩
    obtain rfl := NodeConnect.Action.addNode.inj (haction.symm.trans haction')
    exact hip.symm
  constructor
  · intro hnew
    exact hnew.sound hself
  · rintro ⟨x, hx, hlogin⟩
    constructor
    · intro ip a hlookup
      by_cases hip : ip = info.strIp
      · rw [hip] at hlookup ⊢
        obtain rfl := Option.some.inj (hself.symm.trans hlookup)
        exact ⟨x, hx, hlogin⟩
      · obtain ⟨hlookup', hsame⟩ := hother hip
        obtain ⟨y, hy, hlogin'⟩ := hr.sound (hlookup'.symm.trans hlookup)
        exact ⟨y, hy, (loggedIn_congr rfl hsame).mpr hlogin'⟩
    · intro ip a y hsettled hy hlast
      by_cases hip : ip = info.strIp
      · rw [hip] at hsettled hlast ⊢
        have hsock := Option.some.inj ((hlogin.2 hsettled).symm.trans hlast)
        rw [h.1.sockInj hy hx hsock.symm]
        exact hself
      · obtain ⟨hlookup', hsame⟩ := hother hip
        exact hlookup'.trans (hr.complete (mt hsame.mpr hsettled) hy hlast)

end Effects

section Steps

variable {s : State} (hr : Refines s) (hf : s.fault = none)
include hr hf

theorem ok_delete (a : Addr) : Refines (s.delete a) ∧ (s.delete a).fault = none ↔
    s.heap a ≠ none ∧ Unmapped s a := by
  cases hx : s.heap a with
  | none =>
    rw [State.delete_dead hx]
    exact ⟨fun h => (nomatch h.2), fun h => absurd rfl h.1⟩
  | some x =>
    rw [refines_delete hr hx, State.delete_live hx]
    exact ⟨fun h => ⟨Option.some_ne_none x, h.1⟩, fun h => ⟨h.2, hf⟩⟩

theorem ok_setNodeName (a : Addr) (strName : Str) :
    Refines (s.setNodeName a strName) ∧ (s.setNodeName a strName).fault = none ↔
      s.heap a ≠ none := by
  cases hx : s.heap a with
  | none =>
    rw [State.setNodeName_dead hx]
    exact ⟨fun h => (nomatch h.2), fun h => absurd rfl h⟩
  | some x =>
    rw [State.setNodeName_live hx]
    have hx' : ({ x with strNodeName := strName } : NodeConnect).sock = x.sock := rfl
    exact ⟨fun _ => Option.some_ne_none x, fun _ => ⟨refines_update hr hx hx', hf⟩⟩

theorem ok_handlerConnect (a : Addr) (created : Bool) :
    Refines (s.handlerConnect a created) ∧ (s.handlerConnect a created).fault = none ↔
      s.heap a ≠ none ∧ (created = false → Unmapped s a) := by
  cases hx : s.heap a with
  | none =>
    rw [State.handlerConnect_dead hx]
    exact ⟨fun h => (nomatch h.2), fun h => absurd rfl h.1⟩
  | some x =>
    cases created with
    | true =>
      rw [State.handlerConnect_created hx]
      have hx' : ({ x with bev := some s.bevs.length } : NodeConnect).sock = x.sock := rfl
      exact ⟨fun _ => ⟨Option.some_ne_none x, fun h => (nomatch h)⟩,
        fun _ => ⟨refines_update hr hx hx', hf⟩⟩
    | false =>
      rw [State.handlerConnect_failed hx, ok_delete hr hf, hx]
      exact ⟨fun h => ⟨h.1, fun _ => h.2⟩, fun h => ⟨h.1, h.2 rfl⟩⟩

theorem ok_resume (h : Inv s) {worker : Worker} {task : Task} {rest : List Task}
    (hpending : s.pending worker = task :: rest) :
    Refines ({ s with pending := Function.update s.pending worker rest }.perform task) ∧
        ({ s with pending := Function.update s.pending worker rest }.perform task).fault = none ↔
      KeepsRegistry s (.resume worker) := by
  have hguard : KeepsRegistry s (.resume worker) ↔ match task.action with
      | .setNodeName _ => s.heap task.arg ≠ none
      | .addNode info => ∃ x, s.heap task.arg = some x ∧
          LoggedIn s.reads (Function.update s.pending worker rest) info.strIp x.sock
      | _ => True := by
    rw [KeepsRegistry, hpending]
    simp only [List.head?_cons, Option.mem_def, Option.some.injEq, forall_eq', List.tail_cons]
  rw [hguard, State.perform]
  cases haction : task.action with
  | decode msgId body =>
    exact iff_of_true ⟨refines_pop hr hpending fun info => haction ▸ (nomatch ·), hf⟩ trivial
  | setNodeName strName =>
    have hpopped := refines_pop hr hpending fun info => haction ▸ (nomatch ·)
    have hok : ({ s with pending := Function.update s.pending worker rest } : State).fault =
        none := hf
    exact ok_setNodeName hpopped hok task.arg strName
  | addNode info =>
    exact (and_iff_left hf).trans (refines_addNode hr h hpending haction)
  | write bytes =>
    exact iff_of_true ⟨refines_pop hr hpending fun info => haction ▸ (nomatch ·), hf⟩ trivial

end Steps

variable {host : ByteOrder} {parse : Parser} {s s' : State}

/-- One step keeps the registry right exactly when it meets the guard. -/
theorem registryOk_step (h : Inv s) (hok : RegistryOk host s) {e : Event}
    (hstep : step host parse s e = some s') : RegistryOk host s' ↔ KeepsRegistry s e := by
  obtain ⟨hr, hf⟩ := (registryOk_iff h host).mp hok
  rw [registryOk_iff (h.step hstep)]
  cases e with
  | accept pNodeCon worker =>
    obtain ⟨hfree, rfl⟩ := step_accept hstep
    exact ⟨fun _ => trivial, fun _ => ⟨refines_accept hr h hfree worker, hf⟩⟩
  | handlerConnect worker created =>
    obtain ⟨pConnect, rest, hlist, _, rfl⟩ := step_handlerConnect hstep
    have hpopped : Refines { s with listConnect := Function.update s.listConnect worker rest } :=
      hr
    rw [ok_handlerConnect hpopped hf, KeepsRegistry, hlist]
    simp only [List.head?_cons, Option.mem_def, Option.some.injEq, forall_eq']
    exact Iff.rfl
  | read bev stack input =>
    obtain ⟨v, actions, _, hidle, hactions, rfl⟩ := step_read hstep
    refine ⟨fun _ => trivial, fun _ => ⟨refines_receive hr hidle fun info => ?_, hf⟩⟩
    refine Iff.trans ?_ ((mem_readCallBack_login hactions).1 info)
    simp only [List.mem_map, exists_exists_and_eq_and, exists_eq_right]
  | resume worker =>
    obtain ⟨task, rest, hpending, rfl⟩ := step_resume hstep
    exact ok_resume hr hf h hpending
  | errorCallBack bev what =>
    obtain ⟨v, hbev, _, rfl⟩ := step_errorCallBack hstep
    rw [KeepsRegistry, hbev]
    simp only [Option.mem_def, Option.some.injEq, forall_eq']
    by_cases hdeletes : NodeConnect.errorCallBackDeletes what = true
    · rw [if_pos hdeletes, ok_delete hr hf]
      exact ⟨fun h _ => h, fun h => h hdeletes⟩
    · rw [if_neg hdeletes]
      exact ⟨fun _ h => absurd h hdeletes, fun _ => ⟨hr, hf⟩⟩
  | getAllNode =>
    obtain rfl := step_getAllNode hstep
    rw [if_neg hok.listSafe]
    exact ⟨fun _ => trivial, fun _ => ⟨hr, hf⟩⟩
  | delNode strIp stack =>
    obtain rfl := step_delNode hstep
    refine ⟨fun _ => trivial, fun _ => ⟨?_, (hok.stopSafe stack strIp).1⟩⟩
    cases hlookup : s.mapNode.lookup strIp with
    | none => rwa [State.delNode_unmapped stack hlookup]
    | some a =>
      obtain ⟨x, b, v, hx, hb, _, _⟩ := hr.bev h hlookup
      obtain ⟨frame, _, hdel⟩ := State.delNode_of_bev stack hlookup hx hb
      rw [hdel]
      exact hr

theorem registryOk_init (host : ByteOrder) : RegistryOk host State.init := by
  refine registryOk_of_refines Inv.init host ⟨fun hlookup => (nomatch hlookup), ?_⟩ rfl
  intro ip a x _ hx
  cases hx

/-- The logins that the states remember are those that the events read, and in a
run of any events the registry is right in every state exactly when every step
deletes only live objects that no ip is mapped to, names only live objects, and
registers only live objects on whose connection the login arrived last. -/
theorem registry_along (host : ByteOrder) (parse : Parser) (es : List Event) :
    (∀ s, (system host parse).run es = some s →
      readLogins s.reads = es.flatMap (Event.logins host parse)) ∧
    ((system host parse).Along (RegistryOk host) State.init es ↔
      (system host parse).Guarded KeepsRegistry State.init es) := by
  have hkeep : ∀ (s : State) (e : Event) (s' : State), True → Inv s →
      (system host parse).step s e = some s' → Inv s' := fun s e s' _ h hstep => h.step hstep
  have hiff : ∀ (s : State) (e : Event) (s' : State), True → Inv s → RegistryOk host s →
      (system host parse).step s e = some s' → (RegistryOk host s' ↔ KeepsRegistry s e) :=
    fun s e s' _ h hok hstep => registryOk_step h hok hstep
  exact ⟨fun s hrun => readLogins_run hrun,
    System.along_iff_guarded hkeep hiff Inv.init (registryOk_init host) fun _ _ => trivial⟩

/-- A node logs in and disconnects; its ip stays mapped to the deleted object. -/
theorem registry_after_disconnect : ¬∀ (host : ByteOrder) (parse : Parser) (es : List Event),
    (system host parse).Along (RegistryOk host) State.init es := by
  intro h
  let es : List Event := [.accept 0 0, .handlerConnect 0 true,
    .read 0 .zeros (oneByteLogin 49), .resume 0, .resume 0, .resume 0, .resume 0,
    .errorCallBack 0 bevEventEof]
  have hrun : ((system .little ReqNodeLogin.parseFromIstream).run es).any (fun s =>
      s.mapNode.lookup [49] = some 0 ∧ s.heap 0 = none) = true := by decide +kernel
  obtain ⟨s, hs, hboth⟩ := (Option.any_eq_true _ _).mp hrun
  obtain ⟨hlookup, hgone⟩ := of_decide_eq_true hboth
  have hok := (h .little ReqNodeLogin.parseFromIstream es).of_runFrom hs
  have hsafe := (hok.stopSafe .zeros [49]).1
  rw [State.delNode, hlookup] at hsafe
  dsimp only at hsafe
  rw [State.sendReqCloseNode, hgone] at hsafe
  cases hsafe

end NodeManager.Server
