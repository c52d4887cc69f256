import NodeManager.Cluster
import NodeManager.ProcessSettles

/-!
# Whose connection an accepted socket is

The other end of a socket that the listener accepts is a client or another peer,
and `HandlerConnect` makes the bufferevent for the one whose connection it is. A
client's connection is accepted once, and not before the client has made it.
While no object is deleted, every bufferevent belongs to the owner of its socket.
-/

namespace NodeManager

open ByteMemory TransitionSystem

namespace Process

variable {host : ByteOrder} {parse : Parser} {parseJson : HttpReq.JsonParser}
  {realToString : Json.Double → Str} {overflow : ThreadPool.SignedOverflow} {nThreadCount : Int32}
  {s s' : State}

/-- Only `ListenCallBack` accepts a socket, and only `HandlerConnect` makes a
bufferevent. -/
theorem Connected.links (h : Connected nThreadCount s) {e : Event} (hkeeps : KeepsObjects e)
    (hstopped : s'.stopped = none)
    (hstep : Process.step host parse parseJson realToString overflow s e = some s') :
    (∃ a, e = .accept a) ∨ (∃ worker, e = .handlerConnect worker true) ∨
      s'.server.bevs = s.server.bevs ∧ s'.server.accepted = s.server.accepted := by
  rcases h.matched hkeeps hstopped hstep with haccept | ⟨_, _, habs | hserver⟩
  · exact Or.inl haccept
  · have hbevs := congrArg Server.State.bevs habs
    have haccepted := congrArg Server.State.accepted habs
    exact Or.inr (Or.inr ⟨hbevs, haccepted⟩)
  · obtain ⟨f, hquiet, hother, hconnect, hmatched⟩ := hserver
    rcases h.alive.sameLinks h.inv hquiet hmatched with ⟨a, worker, hf⟩ | ⟨worker, hf⟩ | hlinks
    · exact absurd hf (hother a worker)
    · exact Or.inr (Or.inl ⟨worker, hconnect worker hf⟩)
    · exact Or.inr (Or.inr ⟨hlinks.bevs, hlinks.accepted⟩)

/-- `ListenCallBack` accepts one socket at most. -/
theorem links_accept {a : Addr}
    (hstep : step host parse parseJson realToString overflow s (.accept a) = some s') :
    s'.server.bevs = s.server.bevs ∧ s'.server.accepted ≤ s.server.accepted + 1 := by
  obtain ⟨_, pool, _, rfl⟩ := step_accept hstep
  split
  · exact ⟨rfl, Nat.le_succ _⟩
  · exact ⟨rfl, le_rfl⟩

/-- The bufferevent that `HandlerConnect` makes is on the first socket that the
worker has yet to connect. -/
theorem Connected.links_handlerConnect (h : Connected nThreadCount s) {worker : Worker}
    (hstep : Process.step host parse parseJson realToString overflow s
      (.handlerConnect worker true) = some s') :
    ∃ v, (s.abs.queuedSocks worker).head? = some v.fd ∧
      s'.server.bevs = s.server.bevs ++ [v] ∧ s'.server.accepted = s.server.accepted := by
  obtain ⟨_, hserver⟩ := matched_handlerConnect h.exclusive hstep
  obtain ⟨a, rest, x, hlist, hx, hnext⟩ := h.alive.step_created hserver
  refine ⟨{ fd := x.sock, base := x.base, arg := a }, ?_, ?_, ?_⟩
  · rw [Server.State.queuedSocks, hlist, List.filterMap_cons, hx]
    rfl
  · have hbevs := congrArg Server.State.bevs hnext
    exact hbevs
  · have haccepted := congrArg Server.State.accepted hnext
    exact haccepted

end Process

namespace Cluster

open Session (Node End)

/-- The event makes the server delete no object. -/
def KeepsObjects : Event → Prop
  | .process e => Process.KeepsObjects e
  | _ => True

/-- The client's end of each accepted socket, if it is the one of a client. -/
abbrev Owner := Sock → Option End

/-- No connection of a client is accepted twice. -/
def AcceptedOnce (owner : Owner) : Prop :=
  ∀ {j k other}, owner j = some other → owner k = some other → j = k

/-- The owner of the first socket that a worker has yet to connect. -/
def State.nextOwner (owner : Owner) (s : State) (worker : Worker) : Option End :=
  (s.process.abs.queuedSocks worker).head?.bind owner

/-- What is accepted has been connected by its owner, and its bufferevent is made
for the owner. -/
def belongs (owner : Owner) (s : State) : Event → Bool
  | .process (.accept _) => (owner s.process.server.accepted).all fun other =>
      other.conn < (s.client other.node).sockets
  | .process (.handlerConnect worker true) => s.nextOwner owner worker = none
  | .connect worker other => s.nextOwner owner worker = some other
  | _ => true

/-- The bufferevents belong to the owners of their sockets, who have connected them. -/
structure Owned (owner : Owner) (s : State) : Prop where
  peer : ∀ {bev v}, s.process.server.bevs[bev]? = some v → s.peer bev = owner v.fd
  /-- A bufferevent that is yet to be made belongs to nobody. -/
  unmade : ∀ {bev}, s.process.server.bevs.length ≤ bev → s.peer bev = none
  connected : ∀ {k other}, k < s.process.server.accepted → owner k = some other →
    other.conn < (s.client other.node).sockets

variable {clientHost : Node → ByteOrder} {host : ByteOrder} {parse : Parser}
  {parseJson : HttpReq.JsonParser} {realToString : Json.Double → Str}
  {overflow : ThreadPool.SignedOverflow} {nThreadCount : Int32} {owner : Owner}
  {s s' : State}

theorem Owned.init : Owned owner (State.init nThreadCount) where
  peer := fun h => nomatch h
  unmade := fun _ => rfl
  connected := fun h => nomatch h

/-- Nothing is accepted and no bufferevent is made. -/
theorem Owned.same (h : Owned owner s) (hbevs : s'.process.server.bevs = s.process.server.bevs)
    (haccepted : s'.process.server.accepted = s.process.server.accepted)
    (hpeer : s'.peer = s.peer)
    (hsockets : ∀ node, (s.client node).sockets ≤ (s'.client node).sockets) :
    Owned owner s' where
  peer := by
    rw [hbevs, hpeer]
    exact h.peer
  unmade := by
    rw [hbevs, hpeer]
    exact h.unmade
  connected := by
    rw [haccepted]
    exact fun hlt howner => (h.connected hlt howner).trans_le (hsockets _)

/-- A bufferevent is made for the owner of its socket. -/
theorem Owned.made (h : Owned owner s) {v : BufferEvent}
    (hbevs : s'.process.server.bevs = s.process.server.bevs ++ [v])
    (haccepted : s'.process.server.accepted = s.process.server.accepted)
    (hpeer : s'.peer = Function.update s.peer s.process.server.bevs.length (owner v.fd))
    (hclient : s'.client = s.client) : Owned owner s' where
  peer := by
    intro bev u hu
    rw [hpeer]
    rw [hbevs] at hu
    by_cases hnew : bev = s.process.server.bevs.length
    · rw [hnew, List.getElem?_concat_length] at hu
      rw [hnew, Function.update_self, Option.some.inj hu]
    · have hlast := (List.getElem?_eq_some_iff.mp hu).1
      rw [List.length_append, List.length_singleton] at hlast
      have hlt : bev < s.process.server.bevs.length :=
        lt_of_le_of_ne (Nat.le_of_lt_succ hlast) hnew
      rw [List.getElem?_append_left hlt] at hu
      rw [Function.update_of_ne hnew]
      exact h.peer hu
  unmade := by
    intro bev hlater
    rw [hbevs, List.length_append, List.length_singleton] at hlater
    rw [hpeer, Function.update_of_ne (Nat.ne_of_gt hlater)]
    exact h.unmade (Nat.le_of_lt hlater)
  connected := by
    rw [haccepted, hclient]
    exact h.connected

/-- A socket of a client is accepted after the client has connected it. -/
theorem Owned.accept (h : Owned owner s) {a : Addr}
    (hbelongs : belongs owner s (.process (.accept a)) = true)
    (hstep : Process.step host parse parseJson realToString overflow s.process (.accept a) =
      some s'.process) (hclient : s'.client = s.client) (hpeer : s'.peer = s.peer) :
    Owned owner s' where
  peer := by
    rw [(Process.links_accept hstep).1, hpeer]
    exact h.peer
  unmade := by
    rw [(Process.links_accept hstep).1, hpeer]
    exact h.unmade
  connected := by
    intro k other hlt howner
    rw [hclient]
    have hcases : k < s.process.server.accepted ∨ k = s.process.server.accepted :=
      Nat.lt_or_eq_of_le (Nat.le_of_lt_succ (hlt.trans_le (Process.links_accept hstep).2))
    rcases hcases with hbefore | rfl
    · exact h.connected hbefore howner
    · rw [belongs, howner] at hbelongs
      exact of_decide_eq_true hbelongs

/-- An event of the process, a read from a client included. -/
theorem Owned.process (h : Owned owner s) (hconnected : Process.Connected nThreadCount s.process)
    {e : Process.Event} (hkeeps : Process.KeepsObjects e)
    (hbelongs : belongs owner s (.process e) = true) (hstopped : s'.process.stopped = none)
    (hstep : Process.step host parse parseJson realToString overflow s.process e =
      some s'.process) (hclient : s'.client = s.client) (hpeer : s'.peer = s.peer) :
    Owned owner s' := by
  rcases hconnected.links hkeeps hstopped hstep with ⟨a, rfl⟩ | ⟨worker, rfl⟩ | ⟨hbevs, haccepted⟩
  · exact h.accept hbelongs hstep hclient hpeer
  · obtain ⟨v, hhead, hbevs, haccepted⟩ := hconnected.links_handlerConnect hstep
    refine h.made hbevs haccepted ?_ hclient
    have hnobody : owner v.fd = none := by
      have hnext := of_decide_eq_true hbelongs
      rwa [State.nextOwner, hhead] at hnext
    rw [hpeer, hnobody, ← h.unmade le_rfl, Function.update_eq_self]
  · exact h.same hbevs haccepted hpeer fun _ => by rw [hclient]

/-- An event of a client, its reads included. -/
theorem Owned.client (h : Owned owner s) {node : Node} {e : Client.Event} {c : Client.State}
    (hstep : Client.step (clientHost node) (s.client node) e = some c)
    (hclient : s'.client = Function.update s.client node c) (hprocess : s'.process = s.process)
    (hpeer : s'.peer = s.peer) : Owned owner s' := by
  refine h.same (by rw [hprocess]) (by rw [hprocess]) hpeer fun node' => ?_
  rw [hclient]
  by_cases hsame : node' = node
  · rw [hsame, Function.update_self]
    exact Client.sockets_step hstep
  · rw [Function.update_of_ne hsame]

/-- Every event that deletes nothing, if it goes to the owner. -/
theorem Owned.step (h : Owned owner s) (hconnected : Process.Connected nThreadCount s.process)
    {e : Event} (hkeeps : KeepsObjects e) (hbelongs : belongs owner s e = true)
    (hstopped : s'.process.stopped = none)
    (hstep : Cluster.step clientHost host parse parseJson realToString overflow s e = some s') :
    Owned owner s' := by
  cases e with
  | client node e =>
    obtain ⟨hprocess, hsession⟩ := step_client hstep
    obtain ⟨_, c, hc, hnext⟩ := Session.step_client hsession
    have hclient := congrArg Session.State.client hnext
    have hpeer := congrArg Session.State.peer hnext
    exact h.client hc hclient hprocess hpeer
  | process e =>
    obtain ⟨_, process, hprocess, rfl⟩ := step_process hstep
    exact h.process hconnected hkeeps hbelongs hstopped hprocess rfl rfl
  | connect worker other =>
    obtain ⟨_, process, hprocess, rfl⟩ := step_connect hstep
    obtain ⟨v, hhead, hbevs, haccepted⟩ := hconnected.links_handlerConnect hprocess
    have howner : owner v.fd = some other := by
      have hnext := of_decide_eq_true hbelongs
      rwa [State.nextOwner, hhead] at hnext
    refine h.made hbevs haccepted ?_ rfl
    rw [howner]
  | request bev stack =>
    obtain ⟨_, frame, process, _, _, hprocess, rfl⟩ := step_request hstep
    exact h.process (e := .callback (.read bev stack frame)) hconnected id rfl hstopped hprocess
      rfl rfl
  | reply bev stack now =>
    obtain ⟨hprocess, hsession⟩ := step_reply hstep
    obtain ⟨_, _, c, _, _, hc, hnext⟩ := Session.step_reply hsession
    have hclient := congrArg Session.State.client hnext
    have hpeer := congrArg Session.State.peer hnext
    exact h.client hc hclient hprocess hpeer

/-- A client that comes next has connected its end, which has no bufferevent yet. -/
theorem Owned.not_connected (h : Owned owner s) (honce : AcceptedOnce owner)
    (hconnected : Process.Connected nThreadCount s.process) {worker : Worker} {other : End}
    (hnext : s.nextOwner owner worker = some other) :
    ¬((s.client other.node).sockets ≤ other.conn ∨ s.abs.connected other = true) := by
  obtain ⟨k, hhead, howner⟩ := Option.bind_eq_some_iff.mp hnext
  have hqueued : k ∈ s.process.abs.queuedSocks worker := List.mem_of_mem_head? hhead
  have horder := hconnected.connects.order
  have hturn : k ∈ (List.range s.process.abs.accepted).filter
      (Process.turn nThreadCount · = worker) := by
    rw [← horder worker]
    exact List.mem_append_right _ hqueued
  obtain ⟨hlt, hworker⟩ := List.mem_filter.mp hturn
  refine not_or.mpr ⟨?_, fun hpaired => ?_⟩
  · exact Nat.not_le.mpr (h.connected (List.mem_range.mp hlt) howner)
  · -- its bufferevent would be on the same socket, which is still on the list
    obtain ⟨bev, hbev, hpeer⟩ := List.any_eq_true.mp hpaired
    obtain ⟨v, hv⟩ : ∃ v, s.process.server.bevs[bev]? = some v :=
      ⟨_, List.getElem?_eq_getElem (List.mem_range.mp hbev)⟩
    have hfd : owner v.fd = some other := (h.peer hv).symm.trans (of_decide_eq_true hpeer)
    obtain rfl := honce hfd howner
    have hmade : v.fd ∈ s.process.abs.connectedSocks v.base :=
      List.mem_map_of_mem (List.mem_filter.mpr ⟨List.mem_of_getElem? hv, decide_eq_true rfl⟩)
    have hbase : v.base = worker := by
      have hmem := List.mem_append_left (s.process.abs.queuedSocks v.base) hmade
      rw [horder] at hmem
      exact (of_decide_eq_true (List.mem_filter.mp hmem).2).symm.trans (of_decide_eq_true hworker)
    have hnodup : (s.process.abs.connectedSocks worker ++
        s.process.abs.queuedSocks worker).Nodup := by
      rw [horder]
      exact List.nodup_range.filter _
    exact List.disjoint_of_nodup_append hnodup (hbase ▸ hmade) hqueued

end Cluster

end NodeManager
