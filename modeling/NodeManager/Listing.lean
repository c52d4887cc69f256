import NodeManager.Lifetime

/-!
# The listing of ips and names

As long as no connection ends, every ip is mapped to the object of its last
login, but the listed name is the one last set on that object. The two agree
with the last login of the ip exactly as long as no connection that is
registered under some ip logs in again with another name.
-/

namespace NodeManager.Server

open ByteMemory TransitionSystem

variable (host : ByteOrder) (parse : Parser)

/-- Each listed name was sent in the last registered login with its ip. -/
def ListingOk (s : State) : Prop :=
  ∃ listing, s.getAllNode = some listing ∧
    ∀ ip name, (ip, name) ∈ listing → ∃ k, s.lastLogin ip = some (k, name)

/-- A name that is set on a registered object is the name it has already. -/
def KeepsNames (s : State) : Event → Prop
  | .resume worker => ∀ t ∈ (s.pending worker).head?, ∀ strName, t.action = .setNodeName strName →
      ∀ ip x, s.mapNode.lookup ip = some t.arg → s.heap t.arg = some x → x.strNodeName = strName
  | _ => True

/-- A registration comes right after its name was set on the same object. -/
def Announces (t t' : Task) : Prop :=
  ∀ info, t'.action = .addNode info → t.action = .setNodeName info.strName ∧ t.arg = t'.arg

/-- The logins that the workers are about to register have set their names. -/
structure LoginsNamed (heap : Addr → Option NodeConnect) (pending : Worker → List Task) :
    Prop where
  announced : ∀ w, List.IsChain Announces (pending w)
  named : ∀ {w t info}, t ∈ (pending w).head? → t.action = .addNode info →
    ∃ x, heap t.arg = some x ∧ x.strNodeName = info.strName

/-- What holds in every run in which no connection ends. -/
structure Undivided (s : State) : Prop where
  inv : Inv s
  alive : Alive s
  logins : LoginsNamed s.heap s.pending

/-- The names of the mapped objects are those of the last logins. -/
def NamesAgree (heap : Addr → Option NodeConnect) (mapNode : AList fun _ : Str => Addr)
    (lastLogin : Str → Option (Sock × Str)) : Prop :=
  ∀ ip a x, mapNode.lookup ip = some a → heap a = some x →
    ∃ k, lastLogin ip = some (k, x.strNodeName)

section Callbacks

variable {host : ByteOrder} {parse : Parser}

/-- A callback starts by decoding, and sets a name before it registers. -/
theorem readCallBack_announces {stack : Stack} {input : List UInt8}
    {actions : List NodeConnect.Action}
    (h : NodeConnect.readCallBack host parse stack input = .ok actions) (bev : Bev) (arg : Addr) :
    List.IsChain Announces (actions.map (Task.mk bev arg)) ∧
      ∀ t ∈ (actions.map (Task.mk bev arg)).head?, ∀ info, t.action ≠ .addNode info := by
  rw [NodeConnect.readCallBack_eq, Except.ok.injEq] at h
  subst h
  dsimp only
  split
  · exact ⟨List.IsChain.nil, fun t ht => nomatch ht⟩
  · unfold NodeConnect.handle
    split
    · refine ⟨List.isChain_cons_cons.mpr ⟨fun info h => (nomatch h), List.IsChain.singleton _⟩, ?_⟩
      intro t ht info
      cases ht
      exact NodeConnect.Action.noConfusion
    · split
      · refine ⟨?_, ?_⟩
        · refine List.isChain_cons_cons.mpr ⟨fun info h => (nomatch h), ?_⟩
          refine List.isChain_cons_cons.mpr ⟨?_, ?_⟩
          · intro info h
            cases h
            exact ⟨rfl, rfl⟩
          · exact List.isChain_cons_cons.mpr
              ⟨fun info h => (nomatch h), List.IsChain.singleton _⟩
        · intro t ht info
          cases ht
          exact NodeConnect.Action.noConfusion
      · refine ⟨List.isChain_cons_cons.mpr
          ⟨fun info h => (nomatch h), List.IsChain.singleton _⟩, ?_⟩
        intro t ht info
        cases ht
        exact NodeConnect.Action.noConfusion

end Callbacks

section Logins

variable {heap heap' : Addr → Option NodeConnect} {pending : Worker → List Task}

/-- Objects may change as long as the ones about to be registered keep their
names. -/
theorem LoginsNamed.keep (h : LoginsNamed heap pending)
    (hkeep : ∀ {w t x}, t ∈ pending w → heap t.arg = some x →
      ∃ x', heap' t.arg = some x' ∧ x'.strNodeName = x.strNodeName) :
    LoginsNamed heap' pending := by
  refine ⟨h.announced, ?_⟩
  intro w t info ht haction
  obtain ⟨x, hx, hname⟩ := h.named ht haction
  obtain ⟨x', hx', hsame⟩ := hkeep (List.mem_of_mem_head? ht) hx
  exact ⟨x', hx', hsame.trans hname⟩

/-- A worker starts a callback. -/
theorem LoginsNamed.begin (h : LoginsNamed heap pending) (worker : Worker) {tasks : List Task}
    (hchain : List.IsChain Announces tasks)
    (hhead : ∀ t ∈ tasks.head?, ∀ info, t.action ≠ .addNode info) :
    LoginsNamed heap (Function.update pending worker tasks) := by
  constructor
  · intro w
    by_cases hw : w = worker
    · rw [hw, Function.update_self]
      exact hchain
    · rw [Function.update_of_ne hw]
      exact h.announced w
  · intro w t info ht haction
    by_cases hw : w = worker
    · rw [hw, Function.update_self] at ht
      exact absurd haction (hhead t ht info)
    · rw [Function.update_of_ne hw] at ht
      exact h.named ht haction

/-- A worker goes on by one effect, which changes no object that another
worker is at and leaves a name behind where it is there to set one. -/
theorem LoginsNamed.resume (h : LoginsNamed heap pending) {worker : Worker} {task : Task}
    {rest : List Task} (hpending : pending worker = task :: rest)
    (hset : ∀ strName, task.action = .setNodeName strName →
      ∃ x, heap' task.arg = some x ∧ x.strNodeName = strName)
    (hothers : ∀ {w t x}, w ≠ worker → t ∈ pending w → heap t.arg = some x →
      heap' t.arg = some x) :
    LoginsNamed heap' (Function.update pending worker rest) := by
  have hchain := h.announced worker
  rw [hpending] at hchain
  constructor
  · intro w
    by_cases hw : w = worker
    · rw [hw, Function.update_self]
      exact hchain.of_cons
    · rw [Function.update_of_ne hw]
      exact h.announced w
  · intro w t info ht haction
    by_cases hw : w = worker
    · rw [hw, Function.update_self] at ht
      obtain ⟨later, hrest⟩ := List.head?_eq_some_iff.mp ht
      rw [hrest, List.isChain_cons_cons] at hchain
      obtain ⟨hname, harg⟩ := hchain.1 info haction
      rw [← harg]
      exact hset info.strName hname
    · rw [Function.update_of_ne hw] at ht
      obtain ⟨x, hx, hname⟩ := h.named ht haction
      exact ⟨x, hothers hw (List.mem_of_mem_head? ht) hx, hname⟩

end Logins

section Effects

variable {s : State}

/-- What a worker has to do for a connection concerns no other worker. -/
theorem Undivided.arg_ne (h : Undivided s) {w w' : Worker} {t t' : Task} (hw : w ≠ w')
    (ht : t ∈ s.pending w) (ht' : t' ∈ s.pending w') : t.arg ≠ t'.arg := by
  intro hsame
  obtain ⟨x, hx, _, hbase⟩ := h.alive.task h.inv ht
  obtain ⟨x', hx', _, hbase'⟩ := h.alive.task h.inv ht'
  rw [hsame, hx', Option.some.injEq] at hx
  exact hw (by rw [← hbase, ← hbase', hx])

theorem Undivided.resume (h : Undivided s) {worker : Worker} {task : Task} {rest : List Task}
    (hpending : s.pending worker = task :: rest) :
    LoginsNamed ({ s with pending := Function.update s.pending worker rest }.perform task).heap
      (Function.update s.pending worker rest) := by
  have htask : task ∈ s.pending worker := hpending ▸ List.mem_cons_self
  obtain ⟨x, hx, _, _⟩ := h.alive.task h.inv htask
  have hx' : { s with
    pending := Function.update s.pending worker rest }.heap task.arg = some x := hx
  refine h.logins.resume hpending ?_ ?_
  · intro strName haction
    unfold State.perform
    rw [haction]
    dsimp only
    rw [State.setNodeName_live hx']
    exact ⟨_, Function.update_self .., rfl⟩
  · intro w t y hw ht hy
    have hne := h.arg_ne hw ht htask
    unfold State.perform
    cases task.action with
    | decode msgId body => exact hy
    | setNodeName strName =>
      dsimp only
      rw [State.setNodeName_live hx']
      exact (Function.update_of_ne hne _ _).trans hy
    | addNode info => exact hy
    | write bytes => exact hy

end Effects

section Steps

variable {host : ByteOrder} {parse : Parser} {s s' : State}

theorem Undivided.init : Undivided State.init :=
  ⟨Inv.init, Alive.init, fun _ => List.IsChain.nil, fun ht => nomatch ht⟩

theorem Undivided.step (h : Undivided s) {e : Event} (hquiet : ¬Disconnects e)
    (hstep : Server.step host parse s e = some s') : Undivided s' := by
  refine ⟨h.inv.step hstep, (h.alive.step h.inv hquiet hstep).1, ?_⟩
  cases e with
  | accept pNodeCon worker =>
    obtain ⟨hfree, rfl⟩ := step_accept hstep
    refine h.logins.keep ?_
    intro w t x ht hx
    have hne : t.arg ≠ pNodeCon := by
      intro hsame
      rw [hsame, hfree] at hx
      cases hx
    exact ⟨x, (Function.update_of_ne hne _ _).trans hx, rfl⟩
  | handlerConnect worker created =>
    cases created with
    | false => exact absurd rfl hquiet
    | true =>
      obtain ⟨pConnect, rest, y, _, hy, rfl⟩ := h.alive.step_created hstep
      refine h.logins.keep ?_
      intro w t x ht hx
      by_cases hsame : t.arg = pConnect
      · rw [hsame, hy, Option.some.injEq] at hx
        rw [hsame, ← hx]
        exact ⟨_, Function.update_self .., rfl⟩
      · exact ⟨x, (Function.update_of_ne hsame _ _).trans hx, rfl⟩
  | read bev stack input =>
    obtain ⟨v, actions, _, _, hactions, rfl⟩ := step_read hstep
    obtain ⟨hchain, hhead⟩ := readCallBack_announces hactions bev v.arg
    exact h.logins.begin v.base hchain hhead
  | resume worker =>
    obtain ⟨task, rest, hpending, rfl⟩ := step_resume hstep
    rw [State.perform_pending]
    exact h.resume hpending
  | errorCallBack bev what =>
    obtain ⟨v, _, _, rfl⟩ := step_errorCallBack hstep
    have hkeep : ¬NodeConnect.errorCallBackDeletes what = true := hquiet
    rw [if_neg hkeep]
    exact h.logins
  | getAllNode =>
    obtain rfl := step_getAllNode hstep
    rw [if_neg h.alive.getAllNode]
    exact h.logins
  | delNode strIp stack =>
    obtain rfl := step_delNode hstep
    obtain ⟨written, hdel⟩ := h.alive.delNode host stack strIp
    rw [hdel]
    exact h.logins

/-- The listing is right when the mapped objects have the right names. -/
theorem listingOk_iff (h : Alive s) :
    ListingOk s ↔ NamesAgree s.heap s.mapNode s.lastLogin := by
  have hlive : ∀ ip a, s.mapNode.lookup ip = some a → ∃ x, s.heap a = some x := by
    intro ip a hlookup
    obtain ⟨x, hx, _⟩ := h.mapped hlookup
    exact ⟨x, hx⟩
  obtain ⟨listing, hlisting, hmem⟩ := State.getAllNode_eq hlive
  constructor
  · rintro ⟨listing', hlisting', hall⟩ ip a x hlookup hx
    rw [hlisting, Option.some.injEq] at hlisting'
    subst hlisting'
    exact hall ip x.strNodeName ((hmem ip _).mpr ⟨a, x, hlookup, hx, rfl⟩)
  · intro hnames
    refine ⟨listing, hlisting, fun ip name hlisted => ?_⟩
    obtain ⟨a, x, hlookup, hx, rfl⟩ := (hmem ip name).mp hlisted
    exact hnames ip a x hlookup hx

/-- Setting a name is right exactly if no entry shows a new name by it. -/
theorem namesAgree_setNodeName (hnames : NamesAgree s.heap s.mapNode s.lastLogin) {a : Addr}
    {x : NodeConnect} (hx : s.heap a = some x) (strName : Str) :
    NamesAgree (Function.update s.heap a (some { x with strNodeName := strName })) s.mapNode
      s.lastLogin ↔ ∀ ip, s.mapNode.lookup ip = some a → x.strNodeName = strName := by
  constructor
  · intro h ip hlookup
    obtain ⟨k, hold⟩ := hnames ip a x hlookup hx
    obtain ⟨k', hnew⟩ := h ip a _ hlookup (Function.update_self ..)
    rw [hold, Option.some.injEq, Prod.mk.injEq] at hnew
    exact hnew.2
  · intro h ip a' y hlookup hy
    by_cases hsame : a' = a
    · rw [hsame, Function.update_self, Option.some.injEq] at hy
      rw [hsame] at hlookup
      obtain ⟨k, hold⟩ := hnames ip a x hlookup hx
      exact ⟨k, by rw [hold, ← hy, h ip hlookup]⟩
    · rw [Function.update_of_ne hsame] at hy
      exact hnames ip a' y hlookup hy

/-- Registering an object whose name was just set is right. -/
theorem namesAgree_addNode (hnames : NamesAgree s.heap s.mapNode s.lastLogin) {a : Addr}
    {info : NodeInfo} {bev : Bev} {fd : Sock} (hregistered : s.registered bev =
      Function.update s.lastLogin info.strIp (some (fd, info.strName)))
    (hnamed : ∃ x, s.heap a = some x ∧ x.strNodeName = info.strName) :
    NamesAgree (s.addNode bev a info).heap (s.addNode bev a info).mapNode
      (s.addNode bev a info).lastLogin := by
  obtain ⟨x, hx, hname⟩ := hnamed
  have hlast : (s.addNode bev a info).lastLogin =
      Function.update s.lastLogin info.strIp (some (fd, info.strName)) := hregistered
  intro ip a' y hlookup hy
  by_cases hip : ip = info.strIp
  · have hself : (s.addNode bev a info).mapNode.lookup info.strIp = some a :=
      AList.lookup_insert _
    rw [hip, hself, Option.some.injEq] at hlookup
    have hsame : some x = some y := hx.symm.trans (hlookup ▸ hy)
    rw [hip, hlast, Function.update_self, ← Option.some.inj hsame, hname]
    exact ⟨fd, rfl⟩
  · have hother : (s.addNode bev a info).mapNode.lookup ip = s.mapNode.lookup ip :=
      AList.lookup_insert_ne hip
    rw [hlast, Function.update_of_ne hip]
    exact hnames ip a' y (hother ▸ hlookup) hy

/-- Going on with a callback keeps the listing right exactly if it sets no new
name on an object that is registered. -/
theorem listing_resume (h : Undivided s) (hnames : NamesAgree s.heap s.mapNode s.lastLogin)
    {worker : Worker} {task : Task} {rest : List Task}
    (hpending : s.pending worker = task :: rest) (t : State)
    (ht : t = { s with pending := Function.update s.pending worker rest }.perform task) :
    NamesAgree t.heap t.mapNode t.lastLogin ↔ KeepsNames s (.resume worker) := by
  have htask : task ∈ s.pending worker := hpending ▸ List.mem_cons_self
  obtain ⟨x, hx, _, _⟩ := h.alive.task h.inv htask
  have hx' : { s with
    pending := Function.update s.pending worker rest }.heap task.arg = some x := hx
  have hguard : KeepsNames s (.resume worker) ↔ ∀ strName, task.action = .setNodeName strName →
      ∀ ip, s.mapNode.lookup ip = some task.arg → x.strNodeName = strName := by
    simp only [KeepsNames, hpending, List.head?_cons, Option.mem_def, Option.some.injEq,
      forall_eq', hx]
    exact ⟨fun h strName hset ip hlookup => h strName hset ip x hlookup rfl,
      fun h strName hset ip y hlookup hsame => hsame ▸ h strName hset ip hlookup⟩
  rw [hguard, ht]
  unfold State.perform
  cases haction : task.action with
  | decode msgId body => exact ⟨fun _ strName hset => (nomatch hset), fun _ => hnames⟩
  | setNodeName strName =>
    dsimp only
    rw [State.setNodeName_live hx']
    refine (namesAgree_setNodeName hnames hx strName).trans ?_
    simp only [NodeConnect.Action.setNodeName.injEq, forall_eq']
  | addNode info =>
    obtain ⟨v, hv, _, _⟩ := h.inv.1.taskBev htask
    have hhead : task ∈ (s.pending worker).head? := by rw [hpending]; rfl
    have hnamed := h.logins.named hhead haction
    have hregistered : { s with pending := Function.update s.pending worker rest }.registered
        task.bev = Function.update s.lastLogin info.strIp (some (v.fd, info.strName)) :=
      h.inv.registered htask haction hv
    exact ⟨fun _ strName hset => (nomatch hset),
      fun _ => namesAgree_addNode hnames hregistered hnamed⟩
  | write bytes => exact ⟨fun _ strName hset => (nomatch hset), fun _ => hnames⟩

/-- One step of a run without disconnections keeps the listing right exactly
when it meets the guard. -/
theorem listingOk_step (h : Undivided s) (hok : ListingOk s) {e : Event} (hquiet : ¬Disconnects e)
    (hstep : step host parse s e = some s') : ListingOk s' ↔ KeepsNames s e := by
  have hnames := (listingOk_iff h.alive).mp hok
  rw [listingOk_iff (h.step hquiet hstep).alive]
  cases e with
  | accept pNodeCon worker =>
    obtain ⟨hfree, rfl⟩ := step_accept hstep
    refine ⟨fun _ => trivial, fun _ ip a x hlookup hx => ?_⟩
    obtain ⟨y, hy, _⟩ := h.alive.mapped hlookup
    have hne : a ≠ pNodeCon := by
      intro hsame
      rw [hsame, hfree] at hy
      cases hy
    exact hnames ip a x hlookup ((Function.update_of_ne hne _ _).symm.trans hx)
  | handlerConnect worker created =>
    cases created with
    | false => exact absurd rfl hquiet
    | true =>
      obtain ⟨pConnect, rest, y, _, hy, rfl⟩ := h.alive.step_created hstep
      refine ⟨fun _ => trivial, fun _ ip a x hlookup hx => ?_⟩
      by_cases hsame : a = pConnect
      · have hself : some { y with bev := some s.bevs.length } = some x :=
          (Function.update_self pConnect _ s.heap).symm.trans (hsame ▸ hx)
        rw [← Option.some.inj hself]
        exact hnames ip pConnect y (hsame ▸ hlookup) hy
      · exact hnames ip a x hlookup ((Function.update_of_ne hsame _ _).symm.trans hx)
  | read bev stack input =>
    obtain ⟨v, actions, _, _, _, rfl⟩ := step_read hstep
    exact ⟨fun _ => trivial, fun _ => hnames⟩
  | resume worker =>
    obtain ⟨task, rest, hpending, hs'⟩ := step_resume hstep
    exact listing_resume h hnames hpending s' hs'
  | errorCallBack bev what =>
    obtain ⟨v, _, _, rfl⟩ := step_errorCallBack hstep
    have hkeep : ¬NodeConnect.errorCallBackDeletes what = true := hquiet
    rw [if_neg hkeep]
    exact ⟨fun _ => trivial, fun _ => hnames⟩
  | getAllNode =>
    obtain rfl := step_getAllNode hstep
    rw [if_neg h.alive.getAllNode]
    exact ⟨fun _ => trivial, fun _ => hnames⟩
  | delNode strIp stack =>
    obtain rfl := step_delNode hstep
    obtain ⟨written, hdel⟩ := h.alive.delNode host stack strIp
    rw [hdel]
    exact ⟨fun _ => trivial, fun _ => hnames⟩

end Steps

/-- In a run without disconnections every listing pairs each ip with the name
of its last registered login exactly when no connection that is registered
under some ip sets another name. -/
theorem listing_along (host : ByteOrder) (parse : Parser) (es : List Event)
    (hquiet : ∀ e ∈ es, ¬Disconnects e) :
    (system host parse).Along ListingOk State.init es ↔
      (system host parse).Guarded KeepsNames State.init es := by
  have hkeep : ∀ (s : State) (e : Event) (s' : State), ¬Disconnects e → Undivided s →
      (system host parse).step s e = some s' → Undivided s' :=
    fun s e s' hq h hstep => h.step hq hstep
  have hiff : ∀ (s : State) (e : Event) (s' : State), ¬Disconnects e → Undivided s →
      ListingOk s → (system host parse).step s e = some s' → (ListingOk s' ↔ KeepsNames s e) :=
    fun s e s' hq h hok hstep => listingOk_step h hok hq hstep
  have hinit : ListingOk State.init := ⟨[], rfl, fun ip name h => nomatch h⟩
  exact System.along_iff_guarded hkeep hiff Undivided.init hinit hquiet

/-- One connection is set up, logs in and is listed. -/
def oneLogin : List Event :=
  [.accept 0 0, .handlerConnect 0 true, .read 0 .zeros (oneByteLogin 49), .resume 0, .resume 0,
    .resume 0, .resume 0, .getAllNode]

/-- The criterion on a run with one login. -/
theorem listing_connected :
    (system .little ReqNodeLogin.parseFromIstream).Along ListingOk State.init oneLogin ↔
      (system .little ReqNodeLogin.parseFromIstream).Guarded KeepsNames State.init oneLogin :=
  listing_along .little _ _ (by
    intro e he
    simp only [oneLogin, List.mem_cons, List.not_mem_nil, or_false] at he
    rcases he with rfl | rfl | rfl | rfl | rfl | rfl | rfl | rfl
    · exact id
    · exact Bool.noConfusion
    all_goals exact id)

/-- A connection logs in under one ip and then, with another name, under
another; the listing shows the new name for both. -/
theorem listing_after_relogin : ¬∀ (host : ByteOrder) (parse : Parser) (es : List Event),
    (∀ e ∈ es, ¬Disconnects e) → (system host parse).Along ListingOk State.init es := by
  intro h
  let es : List Event := [.accept 0 0, .handlerConnect 0 true, .read 0 .zeros (oneByteLogin 49),
    .resume 0, .resume 0, .resume 0, .resume 0, .read 0 .zeros (oneByteLogin 50), .resume 0,
    .resume 0]
  have hquiet : ∀ e ∈ es, ¬Disconnects e := by
    intro e he
    simp only [es, List.mem_cons, List.not_mem_nil, or_false] at he
    rcases he with rfl | rfl | rfl | rfl | rfl | rfl | rfl | rfl | rfl | rfl
    all_goals first | exact id | exact Bool.noConfusion
  have hrun : ((system .little ReqNodeLogin.parseFromIstream).run es).any (fun s =>
      s.getAllNode = some [([49], [50])] ∧ (s.lastLogin [49]).map Prod.snd = some [49]) =
        true := by decide +kernel
  obtain ⟨s, hs, hboth⟩ := (Option.any_eq_true _ _).mp hrun
  obtain ⟨hlisted, hlast⟩ := of_decide_eq_true hboth
  obtain ⟨listing, hlisting, hall⟩ :=
    (h .little ReqNodeLogin.parseFromIstream es hquiet).of_runFrom hs
  rw [hlisted, Option.some.injEq] at hlisting
  obtain ⟨k, hlogin⟩ := hall [49] [50] (hlisting ▸ List.mem_cons_self)
  rw [hlogin] at hlast
  have hsame : ([50] : Str) = [49] := Option.some.inj hlast
  exact absurd hsame (by decide)

end NodeManager.Server
