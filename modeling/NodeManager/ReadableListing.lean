import NodeManager.HttpDocuments
import NodeManager.Listing
import NodeManager.LoginProvenance
import NodeManager.MessageMerge
import NodeManager.Registry

/-!
# From the logins to the listing that is read

The parser of the logins lets only valid UTF-8 pass, and the writer of the
listing loses only the percent sign and what is not UTF-8. As long as no
connection ends and no two logins with one ip are handled at a time, whoever
reads the listing with the strict reader therefore gets the ips and names of
the last logins that were read, byte for byte.
-/

namespace NodeManager.Server

open ByteMemory TransitionSystem
open HttpReq (Plain)
open ProtobufWire (Reader)

variable (host : ByteOrder)

/-- A login that the event reads lies within `databuff` and is accepted, and neither
its ip nor its name has a percent sign. -/
def ReadsReadable (parse : Parser) : Event → Prop
  | .read _ stack input => ∀ body ∈ loginBody host stack input,
      bodyMsgPos + body.length ≤ frameSize ∧
        ∃ m, parse body = (true, m) ∧ 37 ∉ m.ip ∧ 37 ∉ m.name
  | _ => True

/-- A login that the event reads names no ip that is still to be registered. -/
def InTurn (parse : Parser) (s : State) (e : Event) : Prop :=
  ∀ login ∈ e.logins host parse, ¬Registering s.pending login.2.strIp

/-- The names that the logins with this ip give, one after the other. -/
def namesRead (logins : List (Bev × NodeInfo)) (ip : Str) : List Str :=
  (logins.filter fun login => login.2.strIp = ip).map fun login => login.2.strName

/-- The last login registered for an ip is the last one that was read, or is still to
be registered, and the ip has an entry. -/
structure UpToDate (lastLogin : Str → Option (Sock × Str)) (mapNode : AList fun _ : Str => Addr)
    (logins : List (Bev × NodeInfo)) (pending : Worker → List Task) : Prop where
  registered : ∀ {ip}, ¬Registering pending ip →
    (lastLogin ip).map Prod.snd = (namesRead logins ip).getLast?
  registering : ∀ {w t info}, t ∈ pending w → t.action = .addNode info →
    (namesRead logins info.strIp).getLast? = some info.strName
  mapped : ∀ {ip login}, lastLogin ip = some login → ∃ a, mapNode.lookup ip = some a

namespace UpToDate

variable {lastLogin : Str → Option (Sock × Str)} {mapNode : AList fun _ : Str => Addr}
  {logins : List (Bev × NodeInfo)} {pending : Worker → List Task}

theorem namesRead_concat (logins : List (Bev × NodeInfo)) (bev : Bev) (info : NodeInfo)
    (ip : Str) : namesRead (logins ++ [(bev, info)]) ip =
      if info.strIp = ip then namesRead logins ip ++ [info.strName] else namesRead logins ip := by
  rw [namesRead, List.filter_append, List.map_append, namesRead, List.filter_singleton]
  by_cases hip : info.strIp = ip
  · simp only [hip, decide_true, cond_true, if_true, List.map_cons, List.map_nil]
  · simp only [hip, decide_false, cond_false, if_false, List.map_nil, List.append_nil]

/-- A worker that is done takes up a callback, which registers the login that it
received, if any. -/
theorem receive (h : UpToDate lastLogin mapNode logins pending) {worker : Worker}
    {tasks : List Task} (bev : Bev) (login : Option NodeInfo) (hidle : pending worker = [])
    (htasks : ∀ info, (∃ t ∈ tasks, t.action = .addNode info) ↔ login = some info)
    (hturn : ∀ info, login = some info → ¬Registering pending info.strIp) :
    UpToDate lastLogin mapNode (logins ++ (login.map (Prod.mk bev)).toList)
      (Function.update pending worker tasks) := by
  have hregistering : ∀ ip, Registering (Function.update pending worker tasks) ip ↔
      Registering pending ip ∨ login.map NodeInfo.strIp = some ip :=
    fun ip => registering_receive hidle htasks
  -- an ip that the login does not name is not concerned
  have hothers : ∀ ip, login.map NodeInfo.strIp ≠ some ip →
      namesRead (logins ++ (login.map (Prod.mk bev)).toList) ip = namesRead logins ip := by
    intro ip hip
    cases login with
    | none => rw [Option.map_none, Option.toList_none, List.append_nil]
    | some info =>
      have hne : info.strIp ≠ ip := fun hsame => hip (congrArg some hsame)
      rw [Option.map_some, Option.toList_some, namesRead_concat, if_neg hne]
  refine ⟨?_, ?_, h.mapped⟩
  · intro ip hsettled
    obtain ⟨hold, hip⟩ := not_or.mp (mt (hregistering ip).mpr hsettled)
    rw [hothers ip hip]
    exact h.registered hold
  · intro w t info ht haction
    by_cases hsame : w = worker
    · rw [hsame, Function.update_self] at ht
      obtain rfl := (htasks info).mp ⟨t, ht, haction⟩
      rw [Option.map_some, Option.toList_some, namesRead_concat, if_pos rfl, List.getLast?_concat]
    · rw [Function.update_of_ne hsame] at ht
      rw [hothers]
      · exact h.registering ht haction
      · intro hip
        obtain ⟨info', hlogin, hip'⟩ := Option.map_eq_some_iff.mp hip
        exact hturn info' hlogin ⟨w, t, ht, info, haction, hip'.symm⟩

/-- A worker is done with a task that registers nothing. -/
theorem pop (h : UpToDate lastLogin mapNode logins pending) {worker : Worker} {task : Task}
    {rest : List Task} (hpending : pending worker = task :: rest)
    (hother : ∀ info, task.action ≠ .addNode info) :
    UpToDate lastLogin mapNode logins (Function.update pending worker rest) := by
  have hsame : ∀ ip, Registering (Function.update pending worker rest) ip ↔
      Registering pending ip := fun ip =>
    registering_pop hpending fun info haction => absurd haction (hother info)
  have hrest : ∀ t ∈ rest, t ∈ pending worker :=
    fun t ht => hpending ▸ List.mem_cons_of_mem task ht
  exact ⟨fun hsettled => h.registered (mt (hsame _).mpr hsettled),
    fun ht haction => h.registering (mem_of_schedule hrest ht) haction, h.mapped⟩

/-- A worker registers the login that it received. -/
theorem register (h : UpToDate lastLogin mapNode logins pending) {worker : Worker} {task : Task}
    {rest : List Task} {info : NodeInfo} (hpending : pending worker = task :: rest)
    (haction : task.action = .addNode info) (fd : Sock) (a : Addr) :
    UpToDate (Function.update lastLogin info.strIp (some (fd, info.strName)))
      (mapNode.insert info.strIp a) logins (Function.update pending worker rest) := by
  have htask : task ∈ pending worker := hpending ▸ List.mem_cons_self
  have hrest : ∀ t ∈ rest, t ∈ pending worker :=
    fun t ht => hpending ▸ List.mem_cons_of_mem task ht
  refine ⟨?_, fun ht haction => h.registering (mem_of_schedule hrest ht) haction, ?_⟩
  · intro ip hsettled
    by_cases hip : ip = info.strIp
    · rw [hip, Function.update_self, h.registering htask haction]
      rfl
    · rw [Function.update_of_ne hip]
      refine h.registered (mt (registering_pop hpending fun info' haction' => ?_).mpr hsettled)
      obtain rfl := NodeConnect.Action.addNode.inj (haction.symm.trans haction')
      exact Ne.symm hip
  · intro ip login hlogin
    by_cases hip : ip = info.strIp
    · exact ⟨a, by rw [hip, AList.lookup_insert]⟩
    · rw [Function.update_of_ne hip] at hlogin
      rw [AList.lookup_insert_ne hip]
      exact h.mapped hlogin

end UpToDate

/-- The last logins of a state are up to date. -/
def State.UpToDate (s : State) : Prop :=
  Server.UpToDate s.lastLogin s.mapNode (readLogins s.reads) s.pending

section Steps

variable {host} {parse : Parser} {s s' : State}

/-- A worker goes on with its callback. -/
theorem State.UpToDate.resume (h : s.UpToDate) (hu : Undivided s) {worker : Worker} {task : Task}
    {rest : List Task} (hpending : s.pending worker = task :: rest) :
    ({ s with pending := Function.update s.pending worker rest }.perform task).UpToDate := by
  have htask : task ∈ s.pending worker := hpending ▸ List.mem_cons_self
  obtain ⟨x, hx, _, _⟩ := hu.alive.task hu.inv htask
  have hx' : { s with
    pending := Function.update s.pending worker rest }.heap task.arg = some x := hx
  unfold State.perform
  cases haction : task.action with
  | decode msgId body =>
    exact Server.UpToDate.pop h hpending fun info => haction ▸ (nomatch ·)
  | setNodeName strName =>
    dsimp only
    rw [State.setNodeName_live hx']
    exact Server.UpToDate.pop h hpending fun info => haction ▸ (nomatch ·)
  | addNode info =>
    obtain ⟨v, hv, _, _⟩ := hu.inv.1.taskBev htask
    have hregistered : { s with pending := Function.update s.pending worker rest }.registered
        task.bev = Function.update s.lastLogin info.strIp (some (v.fd, info.strName)) :=
      hu.inv.registered htask haction hv
    have hnew := Server.UpToDate.register h hpending haction v.fd task.arg
    rw [← hregistered] at hnew
    exact hnew
  | write bytes =>
    exact Server.UpToDate.pop h hpending fun info => haction ▸ (nomatch ·)

/-- Where no connection ends, logins that are read in their turn keep the last logins
up to date. -/
theorem State.UpToDate.step (h : s.UpToDate) (hu : Undivided s) {e : Event}
    (hquiet : ¬Disconnects e) (hturn : InTurn host parse s e)
    (hstep : Server.step host parse s e = some s') : s'.UpToDate := by
  cases e with
  | accept pNodeCon worker =>
    obtain ⟨_, rfl⟩ := step_accept hstep
    exact h
  | handlerConnect worker created =>
    cases created with
    | false => exact absurd rfl hquiet
    | true =>
      obtain ⟨pConnect, rest, y, _, _, rfl⟩ := hu.alive.step_created hstep
      exact h
  | read bev stack input =>
    have hreads := readLogins_step hstep
    obtain ⟨v, actions, _, hidle, hactions, rfl⟩ := step_read hstep
    have hlogins : (Event.read bev stack input).logins host parse =
        (((loginBody host stack input).map (PbCodec.handleNodeOnlineReq parse)).map
          (Prod.mk bev)).toList := by
      rw [Event.logins, Option.map_map]
      rfl
    rw [State.UpToDate, hreads, hlogins]
    refine Server.UpToDate.receive h bev _ hidle (fun info => ?_) fun info hinfo => ?_
    · refine Iff.trans ?_ ((mem_readCallBack_login hactions).1 info)
      simp only [List.mem_map, exists_exists_and_eq_and, exists_eq_right]
    · refine hturn (bev, info) ?_
      rw [hlogins, hinfo]
      exact List.mem_singleton_self _
  | resume worker =>
    obtain ⟨task, rest, hpending, rfl⟩ := step_resume hstep
    exact h.resume hu hpending
  | errorCallBack bev what =>
    obtain ⟨v, _, _, rfl⟩ := step_errorCallBack hstep
    have hkeep : ¬NodeConnect.errorCallBackDeletes what = true := hquiet
    rw [if_neg hkeep]
    exact h
  | getAllNode =>
    obtain rfl := step_getAllNode hstep
    rw [if_neg hu.alive.getAllNode]
    exact h
  | delNode strIp stack =>
    obtain rfl := step_delNode hstep
    obtain ⟨written, hdel⟩ := hu.alive.delNode host stack strIp
    rw [hdel]
    exact h

/-- A readable login has a plain ip and a plain name. -/
theorem plain_of_readable {r : Reader} (hr : r.Lawful) {e : Event}
    (hreadable : ReadsReadable host (ReqNodeLogin.parseWith r) e) {login : Bev × NodeInfo}
    (hlogin : login ∈ e.logins host (ReqNodeLogin.parseWith r)) :
    Plain login.2.strIp ∧ Plain login.2.strName := by
  cases e with
  | read bev stack input =>
    rw [Event.logins, Option.mem_toList] at hlogin
    obtain ⟨body, hbody, rfl⟩ := Option.map_eq_some_iff.mp hlogin
    obtain ⟨hinside, m, hparse, hip, hname⟩ := hreadable body hbody
    have hlen : body.length < ProtobufWire.sizeLimit :=
      lt_of_le_of_lt (Nat.le_of_add_left_le hinside) (by decide)
    obtain ⟨hipUtf8, _, hnameUtf8⟩ := ReqNodeLogin.utf8_of_accepted hr hlen hparse
    rw [PbCodec.handleNodeOnlineReq, hparse]
    exact ⟨⟨hipUtf8, hip⟩, ⟨hnameUtf8, hname⟩⟩
  | _ => cases hlogin

end Steps

/-- What holds while no connection ends, the logins are readable and come in their
turn, and no registered name changes. -/
structure Readable (s : State) : Prop where
  undivided : Undivided s
  listing : ListingOk s
  upToDate : s.UpToDate
  told : s.Told (fun _ => Plain) (fun _ => Plain)

variable {host} {r : Reader} {s s' : State}

theorem Readable.init : Readable State.init where
  undivided := Undivided.init
  listing := (listingOk_iff Alive.init).mpr fun _ _ _ hlookup => nomatch hlookup
  upToDate := ⟨fun _ => rfl, fun h => (nomatch h), fun h => (nomatch h)⟩
  told := ⟨fun h => (nomatch h), fun h => (nomatch h), fun h => (nomatch h), fun h => (nomatch h)⟩

theorem Readable.step (hr : r.Lawful) (h : Readable s) {e : Event} (hnames : KeepsNames s e)
    (hturn : InTurn host (ReqNodeLogin.parseWith r) s e) (hquiet : ¬Disconnects e)
    (hreadable : ReadsReadable host (ReqNodeLogin.parseWith r) e)
    (hstep : Server.step host (ReqNodeLogin.parseWith r) s e = some s') :
    Readable s' where
  undivided := h.undivided.step hquiet hstep
  listing := (listingOk_step h.undivided h.listing hquiet hstep).mpr hnames
  upToDate := h.upToDate.step h.undivided hquiet hturn hstep
  told := by
    have hnil : Plain [] := ⟨rfl, List.not_mem_nil⟩
    exact h.told.step (fun _ => hnil)
      (fun _ hlogin _ _ => plain_of_readable hr hreadable hlogin) hstep

/-- The names that a reader of the listing finds are those of the last logins that
were read, where none is still to be registered. -/
theorem Readable.members (h : Readable s) {members : List (Str × Json.Value)}
    (hmembers : ∀ ip value, KeyedList.get? ip members = some value ↔
      ∃ a x, s.mapNode.lookup ip = some a ∧ s.heap a = some x ∧ value = .string x.strNodeName)
    {ip : Str} (hsettled : ¬Registering s.pending ip) : KeyedList.get? ip members =
      (namesRead (readLogins s.reads) ip).getLast?.map .string := by
  have hnames := (listingOk_iff h.undivided.alive).mp h.listing
  rw [← h.upToDate.registered hsettled, Option.map_map, Option.ext_iff]
  intro value
  rw [hmembers, Option.map_eq_some_iff]
  constructor
  · rintro ⟨a, x, hlookup, hx, rfl⟩
    obtain ⟨k, hlogin⟩ := hnames ip a x hlookup hx
    exact ⟨_, hlogin, rfl⟩
  · rintro ⟨⟨k, name⟩, hlogin, rfl⟩
    obtain ⟨a, hlookup⟩ := h.upToDate.mapped hlogin
    obtain ⟨x, hx, _⟩ := h.undivided.alive.mapped hlookup
    obtain ⟨k', hlogin'⟩ := hnames ip a x hlookup hx
    rw [hlogin, Option.some.injEq, Prod.mk.injEq] at hlogin'
    exact ⟨a, x, hlookup, hx, by rw [← hlogin'.2]; rfl⟩

/-- Where no connection ends, every login is readable and is read when no other one with its
ip is still to be registered, and no registered node changes its name, the strict reader
gets from the reply to a listing for every ip the name in the last login that was read with
it, and nothing else, unless this login is still to be registered. -/
theorem listing_of_logins (hr : r.Lawful) (host : ByteOrder) (realToString : Json.Double → Str)
    (readDouble : Str → Option Json.Double) {events : List Event} {s : State}
    (hrun : (system host (ReqNodeLogin.parseWith r)).run events = some s)
    (hquiet : ∀ e ∈ events, ¬Disconnects e)
    (hreadable : ∀ e ∈ events, ReadsReadable host (ReqNodeLogin.parseWith r) e)
    (hguard : (system host (ReqNodeLogin.parseWith r)).Guarded
      (fun s e => KeepsNames s e ∧ InTurn host (ReqNodeLogin.parseWith r) s e) State.init events)
    (root : Json.Value) :
    ∃ reply members, HttpReq.httpReqGetAllNodesCb realToString s = .ok reply ∧
      Json.strictParse readDouble root reply.body =
        .ok (true, .object [(Json.chars "node", HttpReq.nodesOf members),
          (Json.chars "res", .object HttpReq.successMembers)]) ∧
      ∀ ip, ¬Registering s.pending ip → KeyedList.get? ip members =
        (namesRead (events.flatMap (Event.logins host (ReqNodeLogin.parseWith r)))
          ip).getLast?.map .string := by
  have hguarded := (hguard.and_events hquiet).and_events hreadable
  have halong := hguarded.along (I := Readable) (fun s e s' h hg hstep =>
    h.step hr hg.1.1.1 hg.1.1.2 hg.1.2 hg.2 hstep) Readable.init
  have h : Readable s := halong.of_runFrom hrun
  have hplain : ∀ ip a, s.mapNode.lookup ip = some a →
      ∃ x, s.heap a = some x ∧ Plain ip ∧ Plain x.strNodeName := by
    intro ip a hlookup
    obtain ⟨x, hx, _⟩ := h.undivided.alive.mapped hlookup
    exact ⟨x, hx, h.told.mapped hlookup, h.told.named hx⟩
  obtain ⟨reply, members, hreply, hparse, hmembers⟩ :=
    HttpReq.reply_members realToString readDouble hplain root
  rw [← readLogins_run hrun]
  exact ⟨reply, members, hreply, hparse, fun ip hsettled => h.members hmembers hsettled⟩

/-- A connection on which a node with the ip "1" and the name "2" logs in. -/
def loginOfOne : List Event :=
  let body := ReqNodeLogin.serialize { ip := Json.chars "1", name := Json.chars "2" }
  [.accept 0 0, .handlerConnect 0 true,
    .read 0 .zeros ([0, 100, 2, 1, 0, 6, 0, 101] ++ List.replicate 16 0 ++ body), .resume 0,
    .resume 0, .resume 0, .resume 0]

/-- Nothing is still to be registered when the workers of all bufferevents are done. -/
theorem not_registering_of_idle {parse : Parser} {events : List Event}
    (hrun : (system host parse).run events = some s)
    (hidle : (s.bevs.all fun v => (s.pending v.base).isEmpty) = true) (ip : Str) :
    ¬Registering s.pending ip := by
  have hinv : Inv s := System.run_induction (A := fun _ => True) (fun _ s => Inv s) Inv.init
    (fun _ _ _ _ _ h hstep => h.step hstep) (fun _ _ => trivial) hrun
  rintro ⟨w, t, ht, _⟩
  obtain ⟨v, hv, rfl, _⟩ := hinv.1.taskBev ht
  have hempty := List.all_eq_true.mp hidle v (List.mem_of_getElem? hv)
  rw [List.isEmpty_iff.mp hempty] at ht
  cases ht

/-- The name is set before there is an entry. -/
theorem loginOfOne_keepsNames {before after : List Event} {e : Event} {t : State}
    (hsplit : loginOfOne = before ++ e :: after)
    (hrun : (system .little ReqNodeLogin.parseFromIstream).run before = some t) :
    KeepsNames t e := by
  have hbefore : ∀ k < 7, ((system .little ReqNodeLogin.parseFromIstream).run
      (loginOfOne.take k)).all (fun s => s.mapNode.entries.isEmpty ||
        (s.pending 0).all fun t => t.action = .write (NodeConnect.loginReply .little .zeros)) =
          true := by
    decide +kernel
  have htake : before = loginOfOne.take before.length := by rw [hsplit, List.take_left]
  have hlt : before.length < 7 := by
    have hlength := congrArg List.length hsplit
    rw [List.length_append, List.length_cons] at hlength
    have hseven : loginOfOne.length = 7 := rfl
    omega
  have hcheck := hbefore before.length hlt
  rw [← htake, hrun, Option.all_some, Bool.or_eq_true] at hcheck
  have hevent : e ∈ loginOfOne := hsplit ▸ List.mem_append_right _ List.mem_cons_self
  cases e with
  | resume worker =>
    obtain rfl : worker = 0 := by
      simpa only [loginOfOne, List.mem_cons, List.not_mem_nil, reduceCtorEq, Event.resume.injEq,
        false_or, or_false, or_self] using hevent
    intro task htask strName haction ip x hlookup _
    rcases hcheck with hempty | hwrites
    · have hentries := List.isEmpty_iff.mp hempty
      have hmem := AList.mem_lookup_iff.mp hlookup
      rw [hentries] at hmem
      cases hmem
    · have hwrite := of_decide_eq_true
        (List.all_eq_true.mp hwrites task (List.mem_of_mem_head? htask))
      rw [haction] at hwrite
      cases hwrite
  | _ => trivial

/-- The only login is read before any is registered. -/
theorem loginOfOne_inTurn {before after : List Event} {e : Event} {t : State}
    (hsplit : loginOfOne = before ++ e :: after)
    (hrun : (system .little ReqNodeLogin.parseFromIstream).run before = some t) :
    InTurn .little ReqNodeLogin.parseFromIstream t e := by
  cases e with
  | read bev stack input =>
    obtain rfl : before = loginOfOne.take 2 := by
      rcases before with _ | ⟨b, _ | ⟨b', _ | ⟨b'', rest⟩⟩⟩
      · cases hsplit
      · cases hsplit
      · cases hsplit
        rfl
      · have hmem : Event.read bev stack input ∈ loginOfOne.drop 3 := by
          rw [hsplit]
          exact List.mem_append_right rest List.mem_cons_self
        simp only [loginOfOne, List.drop_succ_cons, List.drop_zero, List.mem_cons,
          List.not_mem_nil, reduceCtorEq, or_self] at hmem
    have hidle : ((system .little ReqNodeLogin.parseFromIstream).run (loginOfOne.take 2)).all
        (fun s => s.bevs.all fun v => (s.pending v.base).isEmpty) = true := by decide +kernel
    rw [hrun, Option.all_some] at hidle
    exact fun login _ => not_registering_of_idle hrun hidle login.2.strIp
  | _ => exact fun login hlogin => nomatch hlogin

/-- The listing after this login. -/
theorem listing_of_logins_loginOfOne : ∃ s reply members,
    (system .little ReqNodeLogin.parseFromIstream).run loginOfOne = some s ∧
      HttpReq.httpReqGetAllNodesCb (fun _ => []) s = .ok reply ∧
      Json.strictParse (fun _ => none) .null reply.body =
        .ok (true, .object [(Json.chars "node", HttpReq.nodesOf members),
          (Json.chars "res", .object HttpReq.successMembers)]) ∧
      KeyedList.get? (Json.chars "1") members = some (.string (Json.chars "2")) := by
  have hruns : ((system .little ReqNodeLogin.parseFromIstream).run loginOfOne).any
      (fun s => s.bevs.all fun v => (s.pending v.base).isEmpty) = true := by decide +kernel
  obtain ⟨s, hrun, hidle⟩ := (Option.any_eq_true _ _).mp hruns
  have hquiet : ∀ e ∈ loginOfOne, ¬Disconnects e := by
    intro e he
    simp only [loginOfOne, List.mem_cons, List.not_mem_nil, or_false] at he
    rcases he with rfl | rfl | rfl | rfl | rfl | rfl | rfl
    all_goals first | exact id | exact Bool.noConfusion
  have hreadable : ∀ e ∈ loginOfOne, ReadsReadable .little ReqNodeLogin.parseFromIstream e := by
    intro e he
    simp only [loginOfOne, List.mem_cons, List.not_mem_nil, or_false] at he
    rcases he with rfl | rfl | rfl | rfl | rfl | rfl | rfl
    all_goals first | exact trivial | skip
    intro body hbody
    cases hbody
    exact ⟨by decide +kernel, { ip := Json.chars "1", name := Json.chars "2" }, by decide +kernel,
      by decide, by decide⟩
  have hguard : (system .little ReqNodeLogin.parseFromIstream).Guarded
      (fun s e => KeepsNames s e ∧ InTurn .little ReqNodeLogin.parseFromIstream s e)
      State.init loginOfOne :=
    (System.guarded_iff_executed _ _).mpr fun before e after hsplit t t' hrun _ =>
      ⟨loginOfOne_keepsNames hsplit hrun, loginOfOne_inTurn hsplit hrun⟩
  obtain ⟨reply, members, hreply, hparse, hmembers⟩ :=
    listing_of_logins ProtobufWire.wireReader_lawful .little (fun _ => []) (fun _ => none) hrun
      hquiet hreadable hguard .null
  refine ⟨s, reply, members, hrun, hreply, hparse, ?_⟩
  have hnames : (namesRead (loginOfOne.flatMap (Event.logins .little
      ReqNodeLogin.parseFromIstream)) (Json.chars "1")).getLast? = some (Json.chars "2") := by
    decide +kernel
  have hmember := hmembers _ (not_registering_of_idle hrun hidle (Json.chars "1"))
  exact hmember.trans (congrArg (Option.map Json.Value.string) hnames)

end NodeManager.Server
