import Mathlib.Algebra.BigOperators.Group.Finset.Basic
import Mathlib.Algebra.Order.BigOperators.Group.Finset
import NodeManager.Lifetime
import NodeManager.SessionRuns

/-!
# Every request is answered

While no connection ends, what the server has to do for its clients is bounded
by what they have sent. Its workers, in any order that they are scheduled in,
answer every request on a connection that has been accepted, and none of them
waits for another one, for a client or for the HTTP server.
-/

namespace NodeManager

open ByteMemory TransitionSystem

namespace Server

variable {host : ByteOrder} {parse : Parser} {s s' : State} {bev : Bev}

/-- What is left of the callback that a bufferevent is in. -/
def State.tasksOn (s : State) (bev : Bev) : List Task :=
  match s.bevs[bev]? with
  | none => []
  | some v => (s.pending v.base).filter (·.bev = bev)

theorem tasksOn_eq {v : BufferEvent} (hbev : s.bevs[bev]? = some v) :
    s.tasksOn bev = (s.pending v.base).filter (·.bev = bev) := by
  rw [State.tasksOn, hbev]

/-- A callback has four effects at most. -/
theorem readCallBack_length_le {stack : Stack} {input : List UInt8}
    {actions : List NodeConnect.Action}
    (h : NodeConnect.readCallBack host parse stack input = .ok actions) : actions.length ≤ 4 := by
  rw [NodeConnect.readCallBack_eq, Except.ok.injEq] at h
  subst h
  dsimp only
  split
  · exact Nat.zero_le 4
  · rw [NodeConnect.handle]
    split
    · exact Nat.le_add_left 2 2
    · split
      · exact Nat.le_refl 4
      · exact Nat.le_add_left 2 2

/-- A worker that goes on leaves less to do on one bufferevent and changes what is
left on no other one. -/
theorem tasksOn_resume (hinv : Inv s) {worker : Worker}
    (hstep : step host parse s (.resume worker) = some s') :
    s'.bevs = s.bevs ∧ ∃ bev < s.bevs.length,
      (s'.tasksOn bev).length < (s.tasksOn bev).length ∧
      ∀ other ≠ bev, s'.tasksOn other = s.tasksOn other := by
  obtain ⟨task, rest, hpending, rfl⟩ := step_resume hstep
  obtain ⟨_, hleft, hbevs⟩ :=
    perform_frames { s with pending := Function.update s.pending worker rest } task
  have htask : task ∈ s.pending worker := hpending ▸ List.mem_cons_self
  obtain ⟨v, hv, hbase, _⟩ := hinv.1.taskBev htask
  obtain ⟨hlt, _⟩ := List.getElem?_eq_some_iff.mp hv
  have hafter : ∀ {other : Bev} {u : BufferEvent}, s.bevs[other]? = some u →
      State.tasksOn (({ s with
        pending := Function.update s.pending worker rest } : State).perform task) other =
          (Function.update s.pending worker rest u.base).filter (·.bev = other) := by
    intro other u hu
    rw [State.tasksOn, hbevs, hleft]
    dsimp only
    rw [hu]
  refine ⟨hbevs, task.bev, hlt, ?_, fun other hother => ?_⟩
  · rw [hafter hv, tasksOn_eq hv, hbase, Function.update_self, hpending,
      List.filter_cons_of_pos (p := fun t : Task => t.bev = task.bev) (decide_eq_true rfl),
      List.length_cons]
    exact Nat.lt_succ_self _
  · cases hu : s.bevs[other]? with
    | none =>
      rw [State.tasksOn, State.tasksOn, hbevs]
      dsimp only
      rw [hu]
    | some u =>
      rw [hafter hu, tasksOn_eq hu]
      by_cases hsame : u.base = worker
      · have hskip : ¬decide (task.bev = other) = true := fun h =>
          hother (of_decide_eq_true h).symm
        rw [hsame, Function.update_self, hpending,
          List.filter_cons_of_neg (p := fun t : Task => t.bev = other) hskip]
      · rw [Function.update_of_ne hsame]

/-- A callback that begins leaves four effects at most on its bufferevent, and
nothing on the others. -/
theorem tasksOn_read {stack : Stack} {input : List UInt8}
    (hstep : step host parse s (.read bev stack input) = some s') :
    s'.bevs = s.bevs ∧ bev < s.bevs.length ∧ (s'.tasksOn bev).length ≤ 4 ∧
      ∀ other ≠ bev, (s'.tasksOn other).length ≤ (s.tasksOn other).length := by
  obtain ⟨v, actions, hv, hidle, hactions, rfl⟩ := step_read hstep
  obtain ⟨hlt, _⟩ := List.getElem?_eq_some_iff.mp hv
  have hafter : ∀ {other : Bev} {u : BufferEvent}, s.bevs[other]? = some u →
      State.tasksOn { s with
        pending := Function.update s.pending v.base (actions.map (Task.mk bev v.arg))
        reads := s.reads ++ [received host parse bev v.fd stack input] } other =
          (Function.update s.pending v.base (actions.map (Task.mk bev v.arg)) u.base).filter
            (·.bev = other) := fun hu => tasksOn_eq hu
  refine ⟨rfl, hlt, ?_, fun other hother => ?_⟩
  · rw [hafter hv, Function.update_self]
    refine (List.length_filter_le ..).trans ?_
    rw [List.length_map]
    exact readCallBack_length_le hactions
  · cases hu : s.bevs[other]? with
    | none =>
      rw [State.tasksOn]
      dsimp only
      rw [hu]
      exact Nat.zero_le _
    | some u =>
      rw [hafter hu, tasksOn_eq hu]
      by_cases hsame : u.base = v.base
      · have hnone : (actions.map (Task.mk bev v.arg)).filter (·.bev = other) = [] := by
          refine List.filter_eq_nil_iff.mpr fun task htask => ?_
          obtain ⟨action, _, rfl⟩ := List.mem_map.mp htask
          exact fun h => hother (of_decide_eq_true h).symm
        rw [hsame, Function.update_self, hnone]
        exact Nat.zero_le _
      · rw [Function.update_of_ne hsame]

end Server

namespace Session

variable {clientHost : Node → ByteOrder} {host : ByteOrder} {parse : Parser} {s s' : State}
  {events : List Event}

/-- A step that the server takes for its clients on its own. -/
def ServesClients (e : Event) : Prop :=
  (∃ worker, e = .server (.resume worker)) ∨ ∃ bev stack, e = .request bev stack

/-- The event ends no connection. -/
def KeepsConnections : Event → Prop
  | .server e => ¬Server.Disconnects e
  | _ => True

/-- Every request on a connection that has been accepted has its answer. -/
def AllAnswered (host : ByteOrder) (s : State) : Prop :=
  ∀ bev other, s.peer bev = some other →
    (s.server.written bev).filter (fun frame => !Server.isCloseFrame frame) =
      (s.requests other).map (answerTo host)

/-- The requests on a bufferevent that the server has yet to read. -/
def State.unread (s : State) (bev : Bev) : ℕ :=
  match s.peer bev with
  | none => 0
  | some other => (s.requests other).length - s.taken bev

/-- The steps that the server owes its clients at most: four effects for each
request, and to read it. -/
def owedSteps (s : State) : ℕ :=
  ∑ bev ∈ Finset.range s.server.bevs.length,
    (5 * s.unread bev + (s.server.tasksOn bev).length)

/-- What holds while no connection ends. -/
structure Connected (clientHost : Node → ByteOrder) (host : ByteOrder) (s : State) : Prop where
  inv : Inv clientHost host s
  paired : Paired s
  alive : Server.Alive s.server
  fault : s.server.fault = none

theorem Connected.init : Connected clientHost host State.init where
  inv := Inv.init
  paired := ⟨fun _ {_ _} h => (nomatch h), fun h => (nomatch h)⟩
  alive := Server.Alive.init
  fault := rfl

theorem Connected.step (h : Connected clientHost host s) {e : Event} (hkeeps : KeepsConnections e)
    (hstep : Session.step clientHost host parse s e = some s') : Connected clientHost host s' := by
  have hserver : Server.Alive s'.server ∧ s'.server.fault = none := by
    have hquiet : ∀ {e : Server.Event} {t : Server.State}, ¬Server.Disconnects e →
        Server.step host parse s.server e = some t → Server.Alive t ∧ t.fault = none := by
      intro e t hquiet ht
      obtain ⟨halive, _, hfault⟩ := h.alive.step h.inv.server hquiet ht
      exact ⟨halive, hfault⟩
    cases e with
    | client node e =>
      obtain ⟨_, c, _, rfl⟩ := step_client hstep
      exact ⟨h.alive, h.fault⟩
    | server e =>
      obtain ⟨_, t, ht, rfl⟩ := step_server hstep
      exact hquiet hkeeps ht
    | connect worker other =>
      obtain ⟨_, _, t, ht, rfl⟩ := step_connect hstep
      exact hquiet Bool.noConfusion ht
    | request bev stack =>
      obtain ⟨_, _, t, _, _, ht, rfl⟩ := step_request hstep
      exact hquiet id ht
    | reply bev stack now =>
      obtain ⟨_, _, c, _, _, _, rfl⟩ := step_reply hstep
      exact ⟨h.alive, h.fault⟩
  exact ⟨h.inv.step hstep, h.paired.step hstep, hserver.1, hserver.2⟩

/-- Such a step pays off some of what is owed. -/
theorem owedSteps_lt (h : Connected clientHost host s) {e : Event} (hserves : ServesClients e)
    (hstep : Session.step clientHost host parse s e = some s') : owedSteps s' < owedSteps s := by
  rcases hserves with ⟨worker, rfl⟩ | ⟨bev, stack, rfl⟩
  · obtain ⟨_, t, ht, rfl⟩ := step_server hstep
    obtain ⟨hbevs, bev, hlt, hless, hothers⟩ := Server.tasksOn_resume h.inv.server ht
    rw [owedSteps, owedSteps, hbevs]
    refine Finset.sum_lt_sum (fun other _ => ?_) ⟨bev, Finset.mem_range.mpr hlt, ?_⟩
    · by_cases hsame : other = bev
      · rw [hsame]
        exact Nat.add_le_add_left hless.le _
      · dsimp only
        rw [hothers other hsame]
        exact Nat.le_refl _
    · exact Nat.add_lt_add_left hless _
  · obtain ⟨other, frame, t, hpeer, hframe, ht, rfl⟩ := step_request hstep
    obtain ⟨hbevs, hlt, hfour, hothers⟩ := Server.tasksOn_read ht
    have hpos : s.taken bev < (s.requests other).length :=
      (List.getElem?_eq_some_iff.mp hframe).1
    set s' : State := { s with
      server := t
      taken := Function.update s.taken bev (s.taken bev + 1) } with hs'
    have hread : s'.unread bev + 1 = s.unread bev := by
      have htaken : s'.taken bev = s.taken bev + 1 := Function.update_self ..
      have hrequests : s'.requests other = s.requests other := rfl
      have hpeer' : s'.peer bev = some other := hpeer
      simp only [State.unread, hpeer, hpeer', hrequests, htaken]
      omega
    have hkept : ∀ other' ≠ bev, s'.unread other' = s.unread other' := by
      intro other' hne
      have htaken : s'.taken other' = s.taken other' := Function.update_of_ne hne ..
      rw [State.unread, State.unread, htaken]
      rfl
    have hless : 5 * s'.unread bev + (s'.server.tasksOn bev).length <
        5 * s.unread bev + (s.server.tasksOn bev).length := by
      have hfour' : (s'.server.tasksOn bev).length ≤ 4 := hfour
      omega
    rw [owedSteps, owedSteps, hbevs]
    refine Finset.sum_lt_sum (fun other' _ => ?_) ⟨bev, Finset.mem_range.mpr hlt, hless⟩
    by_cases hsame : other' = bev
    · rw [hsame]
      exact hless.le
    · rw [hkept other' hsame]
      exact Nat.add_le_add_left (hothers other' hsame) _

/-- As long as a request has no answer, the server has a step to take. -/
theorem serves_enabled (h : Connected clientHost host s) (hleft : ¬AllAnswered host s) :
    ∃ e s', ServesClients e ∧ Session.step clientHost host parse s e = some s' := by
  have hok := h.fault
  have hgo : ∀ e, ServesClients e → (Session.step clientHost host parse s e).isSome = true →
      ∃ e s', ServesClients e ∧ Session.step clientHost host parse s e = some s' := by
    intro e he hsome
    obtain ⟨s', hstep⟩ := Option.isSome_iff_exists.mp hsome
    exact ⟨e, s', he, hstep⟩
  obtain ⟨bev, other, hpeer, hanswers⟩ : ∃ bev other, s.peer bev = some other ∧
      (s.server.written bev).filter (fun frame => !Server.isCloseFrame frame) ≠
        (s.requests other).map (answerTo host) := by
    by_contra hnone
    exact hleft fun bev other hpeer => not_not.mp fun hne => hnone ⟨bev, other, hpeer, hne⟩
  have hlt := h.paired.bound hok hpeer
  obtain ⟨v, hv⟩ : ∃ v, s.server.bevs[bev]? = some v := ⟨_, List.getElem?_eq_getElem hlt⟩
  cases hpending : s.server.pending v.base with
  | cons task rest =>
    refine hgo (.server (.resume v.base)) (Or.inl ⟨v.base, rfl⟩) ?_
    rw [Session.step, Server.step_resume_of host parse hok hpending]
    rfl
  | nil =>
    have hall := h.inv.answered hpeer
    have hnothing : s.server.pendingFrames bev = [] := by
      rw [Server.State.pendingFrames, hv]
      dsimp only
      rw [hpending]
      rfl
    rw [Server.State.sent, hnothing, List.append_nil] at hall
    have hunread : s.taken bev < (s.requests other).length := by
      by_contra hread
      rw [List.take_of_length_le (Nat.le_of_not_lt hread)] at hall
      exact hanswers hall
    have hframe := List.getElem?_eq_getElem hunread
    have hopen := h.inv.server.1.notFreed (List.mem_of_getElem? hv)
    have hread := Server.step_read_of hok hv hopen hpending
      (NodeConnect.readCallBack_eq host parse .zeros (s.requests other)[s.taken bev])
    refine hgo (.request bev .zeros) (Or.inr ⟨bev, .zeros, rfl⟩) ?_
    rw [Session.step, hpeer]
    dsimp only
    rw [hframe]
    dsimp only
    rw [hread]
    rfl

/-- After any run in which no connection ends, the steps that the server takes for
its clients come to an end, and in whatever order they are taken, they lead to a
state in which every request of every client has its one answer. -/
theorem session_settles (hrun : (system clientHost host parse).run events = some s)
    (hkeeps : ∀ e ∈ events, KeepsConnections e) :
    (system clientHost host parse).Settles ServesClients (AllAnswered host) s := by
  have hconnected : Connected clientHost host s :=
    System.run_induction (fun _ => Connected clientHost host) Connected.init
      (fun _ _ _ _ he h hstep => h.step he hstep) hkeeps hrun
  refine System.settles_of_measure (I := Connected clientHost host) owedSteps ?_ ?_ hconnected
  · intro s e s' h hserves hstep
    have hquiet : KeepsConnections e := by
      rcases hserves with ⟨worker, rfl⟩ | ⟨bev, stack, rfl⟩
      · exact id
      · trivial
    exact ⟨h.step hquiet hstep, owedSteps_lt h hserves hstep⟩
  · exact fun s h hleft => serves_enabled h hleft

/-- Two nodes have sent their logins, and the server has read none. -/
def loginsUnread : List Event := [.client 0 (.connectToSerd 0 .pending),
  .client 1 (.connectToSerd 0 .pending), .server (.accept 0 0), .server (.accept 1 0),
  .connect 0 ⟨0, 0⟩, .connect 0 ⟨1, 0⟩, .client 0 .readTerminal, .client 1 .readTerminal]

theorem session_settles_loginsUnread : ∃ s,
    (system (fun _ => .little) .big ReqNodeLogin.parseFromIstream).run loginsUnread = some s ∧
      (system (fun _ => .little) .big ReqNodeLogin.parseFromIstream).Settles ServesClients
        (AllAnswered .big) s := by
  have hruns : ((system (fun _ => .little) .big ReqNodeLogin.parseFromIstream).run
      loginsUnread).isSome = true := by decide +kernel
  obtain ⟨s, hrun⟩ := Option.isSome_iff_exists.mp hruns
  have hkeeps : ∀ e ∈ loginsUnread, KeepsConnections e := by
    intro e he
    simp only [loginsUnread, List.mem_cons, List.not_mem_nil, or_false] at he
    rcases he with rfl | rfl | rfl | rfl | rfl | rfl | rfl | rfl
    all_goals first | trivial | exact id
  exact ⟨s, hrun, session_settles hrun hkeeps⟩

end Session

end NodeManager
