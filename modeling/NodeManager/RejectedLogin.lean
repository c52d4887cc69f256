import NodeManager.LoginEndToEnd

/-!
# A login that the parser rejects

`HandleNodeOnlineReq` returns a plain `NodeInfo`, with no room for the verdict
of the parser, so the callback cannot tell a rejected login from another one.
Whatever the parser has left in the message is registered and answered.
-/

namespace NodeManager.Server

open ByteMemory TransitionSystem

variable (host : ByteOrder) (parse : Parser)

/-- The read starts with a login whose body the parser rejects. -/
structure ReceivesRejected (stack : Stack) (input : List UInt8) : Prop where
  read : input ≠ []
  format : (DataHeadCodec.headAt host (databuff input)).ucType = ProtocolType.pb.code
  login : (DataHeadCodec.headAt host (databuff input)).usMsgId = MsgID.reqNodeLogin.code
  rejected : (parse (bytesFrom stack (databuff input) bodyMsgPos
    (DataHeadCodec.headAt host (databuff input)).usLen.toNat)).1 = false

/-- The registry and the name of the connection are unchanged, and no login
response is among the frames that were written. -/
structure LoginIgnored (bev : Bev) (pThis : Addr) (s s' : State) : Prop where
  mapNode : s'.mapNode = s.mapNode
  name : (s'.heap pThis).map NodeConnect.strNodeName = (s.heap pThis).map NodeConnect.strNodeName
  response : ∀ frames, s'.written bev = s.written bev ++ frames → ∀ frame ∈ frames,
    (DataHeadCodec.headAt host frame).usMsgId ≠ MsgID.respNodeLogin.code

section Callback

variable {host parse} {s : State} {bev : Bev} {v : BufferEvent} {stack : Stack}
  {input : List UInt8}

/-- The effects of a rejected login are those of any other. -/
theorem ReceivesRejected.actions (h : ReceivesRejected host parse stack input) :
    ∃ (msgId : UInt16) (body : List UInt8) (info : NodeInfo),
      NodeConnect.readCallBack host parse stack input =
        .ok [.decode msgId body, .setNodeName info.strName, .addNode info,
          .write (NodeConnect.loginReply host stack)] := by
  set head := DataHeadCodec.headAt host (databuff input) with hhead
  set body := bytesFrom stack (databuff input) bodyMsgPos head.usLen.toNat with hbody
  have hskip : ¬(input = [] ∨ head.ucType ≠ ProtocolType.pb.code) :=
    not_or.mpr ⟨h.read, not_not.mpr h.format⟩
  have hother : head.usMsgId ≠ MsgID.reqHeartBeat.code := by
    rw [h.login]
    decide
  refine ⟨head.usMsgId, body, PbCodec.handleNodeOnlineReq parse body, ?_⟩
  rw [NodeConnect.readCallBack_eq]
  dsimp only
  rw [← hhead, if_neg hskip, NodeConnect.handle, if_neg hother, if_pos h.login]

/-- The reply to a login is a login response. -/
theorem loginReply_id (host : ByteOrder) (stack : Stack) :
    (DataHeadCodec.headAt host (NodeConnect.loginReply host stack)).usMsgId =
      MsgID.respNodeLogin.code :=
  (headAt_frameOf_fields host host _ _).2.2

/-- A callback that begins finds its worker ready. -/
theorem ready_of_step_read {s' : State} (hbev : s.bevs[bev]? = some v)
    (h : step host parse s (.read bev stack input) = some s') :
    s.fault = none ∧ v.freed = false ∧ s.pending v.base = [] := by
  obtain ⟨_, _, hother, hidle, _, _⟩ := step_read h
  obtain rfl := Option.some.inj (hother.symm.trans hbev)
  exact ⟨fault_of_step h, open_of_step hbev (Or.inl ⟨stack, input, rfl⟩) h, hidle⟩

/-- The callback of a deleted object does not get past setting the name. -/
theorem run_login_dead {reply body : List UInt8} {msgId : UInt16} {info : NodeInfo}
    (hok : s.fault = none) (hbev : s.bevs[bev]? = some v) (hopen : v.freed = false)
    (hidle : s.pending v.base = []) (hx : s.heap v.arg = none)
    (hactions : NodeConnect.readCallBack host parse stack input =
      .ok [.decode msgId body, .setNodeName info.strName, .addNode info, .write reply]) :
    (system host parse).runFrom s (loginEvents bev v.base stack input) = none := by
  let task : NodeConnect.Action → Task := Task.mk bev v.arg
  let register := [task (.addNode info), task (.write reply)]
  let name := task (.setNodeName info.strName) :: register
  let decode := task (.decode msgId body) :: name
  let read : State := { s with
    pending := Function.update s.pending v.base decode
    reads := s.reads ++ [received host parse bev v.fd stack input] }
  let decoded : State := { read with pending := Function.update read.pending v.base name }
  let popped : State := { decoded with
    pending := Function.update decoded.pending v.base register }
  have hread : (system host parse).step s (.read bev stack input) = some read :=
    step_read_of hok hbev hopen hidle hactions
  have hdecodes : read.pending v.base = decode := Function.update_self ..
  have hnames : decoded.pending v.base = name := Function.update_self ..
  have hokRead : read.fault = none := hok
  have hokDecoded : decoded.fault = none := hok
  have hdead : popped.heap v.arg = none := hx
  have hdecode : (system host parse).step read (.resume v.base) = some decoded :=
    step_resume_of host parse hokRead hdecodes
  have hname : (system host parse).step decoded (.resume v.base) =
      some (popped.fail .useAfterFree) :=
    (step_resume_of host parse hokDecoded hnames).trans
      (congrArg some (State.setNodeName_dead hdead info.strName))
  have hstuck : (system host parse).step (popped.fail .useAfterFree) (.resume v.base) = none := by
    cases hnext : (system host parse).step (popped.fail .useAfterFree) (.resume v.base) with
    | none => rfl
    | some next =>
      have hstep : step host parse (popped.fail .useAfterFree) (.resume v.base) = some next := hnext
      have hfault := fault_of_step hstep
      cases hfault
  rw [loginEvents, System.runFrom_cons hread, System.runFrom_cons hdecode,
    System.runFrom_cons hname, System.runFrom, hstuck]
  rfl

/-- Every callback of a login that has run to its end has written the reply. -/
theorem written_of_run {reply body : List UInt8} {msgId : UInt16} {info : NodeInfo} {s' : State}
    (hbev : s.bevs[bev]? = some v)
    (hactions : NodeConnect.readCallBack host parse stack input =
      .ok [.decode msgId body, .setNodeName info.strName, .addNode info, .write reply])
    (hrun : (system host parse).runFrom s (loginEvents bev v.base stack input) = some s') :
    s'.written bev = s.written bev ++ [reply] := by
  obtain ⟨read, hread, _⟩ := Option.bind_eq_some_iff.mp hrun
  obtain ⟨hok, hopen, hidle⟩ := ready_of_step_read hbev hread
  cases hx : s.heap v.arg with
  | none =>
    rw [run_login_dead hok hbev hopen hidle hx hactions] at hrun
    cases hrun
  | some x =>
    obtain ⟨done, hdone, _, _, _, _, hwritten⟩ := run_login info hok hbev hopen hidle hx hactions
    obtain rfl := Option.some.inj (hdone.symm.trans hrun)
    rw [hwritten, Function.update_self]

end Callback

/-- Whenever the callback of a rejected login runs to its end, the login was not
ignored; and it does so wherever it can begin on a live object. -/
theorem rejectedLogin_answered (host : ByteOrder) (parse : Parser) {s : State} {bev : Bev}
    {v : BufferEvent} {stack : Stack} {input : List UInt8} (hbev : s.bevs[bev]? = some v)
    (hrejected : ReceivesRejected host parse stack input) :
    (∀ s', (system host parse).runFrom s (loginEvents bev v.base stack input) = some s' →
      ¬LoginIgnored host bev v.arg s s') ∧
    ∀ x, s.fault = none → v.freed = false → s.pending v.base = [] → s.heap v.arg = some x →
      ∃ s', (system host parse).runFrom s (loginEvents bev v.base stack input) = some s' := by
  obtain ⟨msgId, body, info, hactions⟩ := hrejected.actions
  constructor
  · intro s' hrun hignored
    have hwritten := written_of_run hbev hactions hrun
    exact hignored.response _ hwritten _ List.mem_cons_self (loginReply_id host stack)
  · intro x hok hopen hidle hx
    obtain ⟨s', hrun, _⟩ := run_login info hok hbev hopen hidle hx hactions
    exact ⟨s', hrun⟩

/-- A login whose body ends after the ip, in the middle of the name. -/
def truncatedLogin : List UInt8 :=
  [0, 100, 2, 1, 0, 4, 0, 101] ++ List.replicate 16 0 ++ [10, 1, 49, 34]

/-- The generated parser rejects the truncated login. -/
theorem receivesRejected_truncated :
    ReceivesRejected .little ReqNodeLogin.parseFromIstream .zeros truncatedLogin := by
  have hlen : (DataHeadCodec.headAt .little (databuff truncatedLogin)).usLen.toNat = 4 := by
    decide +kernel
  have hbody : bytesFrom .zeros (databuff truncatedLogin) bodyMsgPos 4 = [10, 1, 49, 34] := by
    decide +kernel
  refine ⟨by decide, by decide +kernel, by decide +kernel, ?_⟩
  rw [hlen, hbody]
  decide +kernel

/-- The truncated login is answered. -/
theorem truncatedLogin_answered :
    ∃ s', (system .little ReqNodeLogin.parseFromIstream).runFrom oneConnection
        (loginEvents 0 0 .zeros truncatedLogin) = some s' ∧
      ¬LoginIgnored .little 0 0 oneConnection s' := by
  have hbev : oneConnection.bevs[0]? = some { fd := 0, base := 0, arg := 0 } := rfl
  obtain ⟨hanswered, hends⟩ := rejectedLogin_answered .little ReqNodeLogin.parseFromIstream hbev
    receivesRejected_truncated
  obtain ⟨s', hrun⟩ := hends { sock := 0, base := 0, bev := some 0 } rfl rfl rfl rfl
  exact ⟨s', hrun, hanswered s' hrun⟩

/-- The ip of the truncated login is registered. -/
theorem truncatedLogin_registered : ¬∀ (host : ByteOrder) (parse : Parser) (s s' : State)
    (bev : Bev) (v : BufferEvent) (stack : Stack) (input : List UInt8),
    s.bevs[bev]? = some v → ReceivesRejected host parse stack input →
      (system host parse).runFrom s (loginEvents bev v.base stack input) = some s' →
        LoginIgnored host bev v.arg s s' := by
  intro h
  have hrun : ((system .little ReqNodeLogin.parseFromIstream).runFrom oneConnection
      (loginEvents 0 0 .zeros truncatedLogin)).any (fun s' =>
        s'.mapNode.lookup [49] = some 0) = true := by decide +kernel
  obtain ⟨s', hs', hlookup⟩ := (Option.any_eq_true _ _).mp hrun
  have hignored := h .little ReqNodeLogin.parseFromIstream oneConnection s' 0
    { fd := 0, base := 0, arg := 0 } .zeros truncatedLogin rfl receivesRejected_truncated hs'
  have hfound := of_decide_eq_true hlookup
  rw [hignored.mapNode] at hfound
  cases hfound

end NodeManager.Server
