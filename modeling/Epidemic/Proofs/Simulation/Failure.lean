import Epidemic.Proofs.Simulation.Peering
import Epidemic.Proofs.World.Standing

/-!
# Broadcasts that fail

A live node with peers that cannot reach the network any more has made its broadcast before it learns
that there is nobody to hand it to. So the broadcast fails, but all that it does to the node itself is
done, and only what it would do to others is not. In a simulation this does not come about, because the
network is there as long as the simulation. There a broadcast fails if it is asked of a node that there
is not, before anything is done at all.
-/

namespace Epidemic

namespace Node

variable {π : Type} [Policy π] {node : Node}

/-- A broadcast that reaches nobody, or is made where the network can be reached, is answered with its
id. -/
theorem result_broadcast_of_linked (protocol : π) (now : Nat) (id : MessageId)
    (kind : String) (payload : Payload) :
    (node.broadcast protocol true now id kind payload).result = .ok id := by
  cases hdown : node.isDown with
  | true => rw [broadcast_of_isDown hdown]
  | false =>
    rw [broadcast_eq hdown]
    split
    · rfl
    · rfl

/-- A live node with peers that cannot reach the network learns its broadcast, draws no peers and sends
nothing. -/
theorem broadcast_of_unlinked (hup : node.isDown = false) (hpeers : node.peers ≠ [])
    (protocol : π) (now : Nat) (id : MessageId) (kind : String) (payload : Payload) :
    node.broadcast protocol false now id kind payload =
      { result := .error .networkUnavailable
        node := node.originate (node.compose now id kind payload)
        protocol
        sends := [] } := by
  have hsome : ¬node.peers.isEmpty = true := by rwa [List.isEmpty_iff]
  rw [broadcast_eq hup, if_neg hsome]
  rfl

/-- A broadcast fails exactly if the node is live and has peers, and cannot reach the network. -/
theorem broadcast_fails_iff (node : Node) (protocol : π) (linked : Bool) (now : Nat)
    (id : MessageId) (kind : String) (payload : Payload) :
    (∃ fault, (node.broadcast protocol linked now id kind payload).result = .error fault) ↔
      node.isDown = false ∧ node.peers ≠ [] ∧ linked = false := by
  constructor
  · rintro ⟨fault, hfault⟩
    cases hdown : node.isDown with
    | true =>
      rw [broadcast_of_isDown hdown] at hfault
      cases hfault
    | false =>
      cases linked with
      | true =>
        rw [result_broadcast_of_linked] at hfault
        cases hfault
      | false =>
        refine ⟨rfl, fun hnone => ?_, rfl⟩
        rw [broadcast_eq hdown, hnone] at hfault
        cases hfault
  · rintro ⟨hup, hpeers, rfl⟩
    rw [broadcast_of_unlinked hup hpeers]
    exact ⟨.networkUnavailable, rfl⟩

/-- A broadcast that was made by a live node has left it as it is before it pushes, apart from the
count of batches. -/
theorem node_broadcast_withForwards (hup : node.isDown = false) (protocol : π)
    (linked : Bool) (now : Nat) (id : MessageId) (kind : String) (payload : Payload) :
    (node.broadcast protocol linked now id kind payload).node.withForwards node.stats.forwards =
      node.originate (node.compose now id kind payload) := by
  obtain ⟨⟨forwards, hnode⟩, -, -⟩ := broadcast_of_isUp hup protocol linked now id kind payload
  rw [hnode]
  rfl

end Node

namespace World

variable {σ : Type} {k : Nat} [Random.Source σ]

/-- A broadcast that fails changes the node that makes it, and nothing else in the world. -/
theorem broadcast_of_error {world after : World σ k} {index : Nat} {id : MessageId}
    {kind : String} {payload : Payload} {fault : Fault}
    (h : world.broadcast index id kind payload = some (.error fault, after)) :
    ∃ member, world.members[index]? = some member ∧
      after = { world with
        members := world.members.set index
          { member with
            node := member.node.originate (member.node.compose world.wall id kind payload) } } := by
  cases hat : world.members[index]? with
  | none =>
    rw [World.broadcast, act, hat] at h
    cases h
  | some member =>
    rw [World.broadcast, act_of_getElem? hat] at h
    obtain ⟨hfault, hafter⟩ := Prod.mk.inj (Option.some.inj h)
    obtain ⟨hup, hpeers, hunlinked⟩ := (Node.broadcast_fails_iff _ _ _ _ _ _ _).mp ⟨fault, hfault⟩
    have hprotocols : world.protocols.set member.protocol (world.protocolOf member) =
        world.protocols := Vector.set_getElem_self member.protocol.isLt
    rw [hunlinked, Node.broadcast_of_unlinked hup hpeers] at hafter
    rw [← hafter, sendAll, List.foldl_nil, replace, hprotocols]
    exact ⟨member, rfl, rfl⟩

end World

namespace Simulation

variable {σ : Type} [Random.Source σ]

/-- A broadcast by a node that there is not is refused, and nothing is done. -/
theorem broadcastFrom_of_unknown {simulation : Simulation σ} (hindexed : simulation.Indexed)
    {name : NodeId} (hname : name ∉ simulation.nodeIds) (id : MessageId) (kind : String)
    (payload : Payload) :
    simulation.broadcastFrom name id kind payload = (.error (.unknownNode name), simulation) := by
  rw [broadcastFrom, hindexed.indexOf?_eq_none hname]

/-- If the network can be reached, a broadcast by a node that there is is answered with its id. -/
theorem broadcastFrom_of_known {simulation : Simulation σ} (hindexed : simulation.Indexed)
    (hopen : simulation.world.network.isOpen = true) {name : NodeId}
    (hname : name ∈ simulation.nodeIds) (id : MessageId) (kind : String) (payload : Payload) :
    (simulation.broadcastFrom name id kind payload).1 = .ok id := by
  obtain ⟨index, member, hindex, hat, -⟩ := hindexed.exists_indexOf? hname
  rw [broadcastFrom, hindex]
  simp only [World.broadcast, World.act_of_getElem? hat, hopen, Node.result_broadcast_of_linked]

/-- A broadcast of a node fails exactly if the node is live, has peers and cannot reach the network, and
then because of this. What the node holds, has seen and still pushes, its peers and its counters are as
they are after a broadcast of the same message that succeeds, except that no batch is counted; nothing
is sent, and no peers are drawn. Nothing else in the world has changed.

In a simulation, whatever was done to it before as long as its network was not closed and no other node
joined, a broadcast fails exactly if it is asked of a name that is none of the names of the nodes, and
then because of this, and nothing has changed. Otherwise it is answered with its id. The names are those
that the nodes had from the beginning. -/
theorem broadcast_failures_are_contained {config : SimulationConfig}
    (hvalid : config.check = .ok ()) (generators : Generators σ) (hasClock : Bool) (wall : Nat) :
    (∀ {π : Type} [Policy π] (node : Node) (protocol other : π) (linked : Bool) (now : Nat)
      (id : MessageId) (kind : String) (payload : Payload),
      let turn := node.broadcast protocol linked now id kind payload
      let success := node.broadcast other true now id kind payload
      ((∃ fault, turn.result = .error fault) ↔
        node.isDown = false ∧ node.peers ≠ [] ∧ linked = false) ∧
      ∀ fault, turn.result = .error fault →
        fault = .networkUnavailable ∧ success.result = .ok id ∧
        turn.node = success.node.withForwards node.stats.forwards ∧
        turn.sends = [] ∧ turn.protocol = protocol) ∧
    (∀ {k : Nat} (world after : World σ k) (index : Nat) (id : MessageId) (kind : String)
      (payload : Payload) (fault : Fault),
      world.broadcast index id kind payload = some (.error fault, after) →
        after.network = world.network ∧ after.protocols = world.protocols ∧
        after.agenda = world.agenda ∧ after.journal = world.journal) ∧
    ∃ start, Simulation.new config generators hasClock wall = .ok start ∧
      ∀ moves : List (Move 1), (∀ move ∈ moves, move.joins = false ∧ move.closes = false) →
        let reached : Simulation σ := { start with world := start.world.run moves }
        reached.nodeIds = (List.range config.nodeCount).map nodeId ∧
        ∀ (name : NodeId) (id : MessageId) (kind : String) (payload : Payload),
          let answer := reached.broadcastFrom name id kind payload
          ((∃ fault, answer.1 = .error fault) ↔ name ∉ reached.nodeIds) ∧
          (name ∉ reached.nodeIds → answer = (.error (.unknownNode name), reached)) ∧
          (name ∈ reached.nodeIds → answer.1 = .ok id) := by
  refine ⟨fun {π} _ node protocol other linked now id kind payload => ?_,
    fun world after index id kind payload fault hfault => ?_, ?_⟩
  · intro turn success
    have hfails := node.broadcast_fails_iff protocol linked now id kind payload
    refine ⟨hfails, fun fault hfault => ?_⟩
    obtain ⟨hup, hpeers, rfl⟩ := hfails.mp ⟨fault, hfault⟩
    have hturn : turn = _ := Node.broadcast_of_unlinked hup hpeers protocol now id kind payload
    rw [hturn] at hfault ⊢
    exact ⟨(Except.error.inj hfault).symm, Node.result_broadcast_of_linked other now id kind payload,
      (Node.node_broadcast_withForwards hup other true now id kind payload).symm, rfl, rfl⟩
  · obtain ⟨member, -, rfl⟩ := World.broadcast_of_error hfault
    exact ⟨rfl, rfl, rfl, rfl⟩
  · obtain ⟨start, hnew, hfounded⟩ := exists_founded hvalid generators hasClock wall
    refine ⟨start, hnew, fun moves hmoves => ?_⟩
    intro reached
    have hids : reached.nodeIds = (List.range config.nodeCount).map nodeId := by
      rw [← hfounded.nodeIds_eq]
      exact start.world.names_run fun move hmem => (hmoves move hmem).1
    have hstart : start.world.network.isOpen = true := by
      rw [hfounded.network]
      rfl
    have hopen : reached.world.network.isOpen = true :=
      World.isOpen_run hstart fun move hmem => (hmoves move hmem).2
    have hindexed : reached.Indexed := hfounded.indexed.run fun move hmem => (hmoves move hmem).1
    refine ⟨hids, fun name id kind payload => ⟨⟨?_, fun hname => ?_⟩,
      fun hname => broadcastFrom_of_unknown hindexed hname id kind payload,
      fun hname => broadcastFrom_of_known hindexed hopen hname id kind payload⟩⟩
    · rintro ⟨fault, hfault⟩ hname
      rw [broadcastFrom_of_known hindexed hopen hname] at hfault
      cases hfault
    · rw [broadcastFrom_of_unknown hindexed hname]
      exact ⟨.unknownNode name, rfl⟩

/-- One node is shut down, another one is taken away from the network, and every send is lost. -/
def meddled : List (Move 1) :=
  [.shutdown 0, .unregister "node-1", .setDropRate Binary64.one, .addPeer 2 "node-3"]

/-- A node with one peer and without a network keeps the value of a broadcast that fails. In the
simulation all three nodes still answer with ids, and a name that is only that of a peer is refused. -/
theorem broadcast_failures_are_contained_meddled :
    ∃ start,
      Simulation.new trio (⟨⟨[]⟩, ⟨[]⟩, ⟨[]⟩⟩ : Generators Random.Script) true 0 = .ok start ∧
      let reached : Simulation Random.Script := { start with world := start.world.run meddled }
      let alone := (Node.new "node-0" 1).addPeers ["node-1"]
      let protocol : Protocol Random.Script := ⟨2, none, ⟨[]⟩⟩
      let turn := alone.broadcast protocol false 0 "first" "update" [("key", .int 1)]
      turn.result = .error .networkUnavailable ∧ turn.node.seen = ["first"] ∧
      turn.node.stats = ⟨1, 0, 0, 0⟩ ∧ turn.sends = [] ∧
      reached.broadcastFrom "node-3" "second" "update" [] =
        (.error (.unknownNode "node-3"), reached) ∧
      ∀ name ∈ ["node-0", "node-1", "node-2"],
        (reached.broadcastFrom name "second" "update" []).1 = .ok "second" := by
  have hvalid : trio.check = .ok () := rfl
  obtain ⟨hnode, -, start, hnew, hsimulation⟩ := broadcast_failures_are_contained hvalid
    (⟨⟨[]⟩, ⟨[]⟩, ⟨[]⟩⟩ : Generators Random.Script) true 0
  have hmoves : ∀ move ∈ meddled, move.joins = false ∧ move.closes = false := by
    simp [meddled, Move.joins, Move.closes]
  obtain ⟨hids, hanswers⟩ := hsimulation meddled hmoves
  have hnames : (List.range trio.nodeCount).map nodeId = ["node-0", "node-1", "node-2"] := by
    decide +kernel
  rw [hnames] at hids
  refine ⟨start, hnew, ?_⟩
  intro reached alone protocol turn
  obtain ⟨hiff, hfails⟩ := hnode alone protocol protocol false 0 "first" "update" [("key", .int 1)]
  obtain ⟨fault, hfault⟩ := hiff.mpr ⟨rfl, by decide, rfl⟩
  obtain ⟨rfl, -, -, hsends, -⟩ := hfails fault hfault
  refine ⟨hfault, by decide, ?_, hsends, ?_, fun name hname => ?_⟩
  · rfl
  · refine (hanswers "node-3" "second" "update" []).2.1 ?_
    rw [hids]
    decide
  · refine (hanswers name "second" "update" []).2.2 ?_
    rw [hids]
    exact hname

end Simulation

end Epidemic
