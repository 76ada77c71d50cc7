import Epidemic.Proofs.Simulation.Occurrence
import Epidemic.Proofs.World.Quiescence

/-!
# A simulation that was shut down

Whatever was under way when a simulation is shut down, and whatever happens to it afterwards, its
nodes stay as they are, nothing is sent and nothing is drawn. Nodes can still be asked for broadcasts
and answer as ever. The messages that were in transit are resolved one by one.
-/

namespace Epidemic.Simulation

variable {σ : Type}

/-- When a simulation is shut down, its nodes are down, and nothing else of them has changed. -/
theorem nodes_shutdown (simulation : Simulation σ) :
    simulation.shutdown.world.nodes = simulation.world.nodes.map Node.shutdown := by
  rw [World.nodes, World.nodes, shutdown, List.map_map, List.map_map]
  rfl

/-- They keep their names. -/
theorem nodeIds_shutdown (simulation : Simulation σ) :
    simulation.shutdown.nodeIds = simulation.nodeIds := by
  rw [nodeIds, nodes_shutdown, List.map_map]
  rfl

/-- When a simulation is shut down, the same messages are in transit as before. -/
theorem pending_shutdown (simulation : Simulation σ) :
    simulation.shutdown.world.pending = simulation.world.pending :=
  simulation.world.pending_stopRounds

/-- All sends are still accounted for. -/
theorem accounts_shutdown {simulation : Simulation σ} (h : World.Accounts [] simulation.world) :
    World.Accounts [] simulation.shutdown.world :=
  h.congr rfl rfl (List.Perm.of_eq simulation.pending_shutdown)

/-- When a simulation is shut down, all its nodes are down. -/
theorem isDown_shutdown (simulation : Simulation σ) : simulation.shutdown.world.IsDown := by
  intro node hnode
  rw [nodes_shutdown, List.mem_map] at hnode
  obtain ⟨before, -, rfl⟩ := hnode
  rfl

variable [Random.Source σ]

/-- Whatever happens to a simulation whose nodes are down, its world rests. -/
theorem rests_proceedAll {simulation : Simulation σ} (h : simulation.world.IsDown)
    (occurrences : List Occurrence) :
    simulation.world.Rests (simulation.proceedAll occurrences).world := by
  rw [world_proceedAll]
  exact World.rests_run h fun _ => isInternal_of_mem_movesOfAll

/-- A node that is down answers to a broadcast with its id. -/
theorem result_broadcast_of_isDown {simulation : Simulation σ} (hdown : simulation.world.IsDown)
    {index : Nat} {member : Member 1} (hat : simulation.world.members[index]? = some member)
    (id : MessageId) (kind : String) (payload : Payload) :
    (simulation.world.broadcast index id kind payload).map (·.1) = some (.ok id) := by
  have hmember := hdown member.node (List.mem_map_of_mem (List.mem_of_getElem? hat))
  simp only [World.broadcast, World.act_of_getElem? hat, Node.broadcast_of_isDown hmember,
    Option.map_some]

/-- So does a simulation, under each name that leads to a node that is down. -/
theorem broadcastFrom_of_isDown {simulation : Simulation σ} (hdown : simulation.world.IsDown)
    {name : NodeId} {index : Nat} (hindex : simulation.indexOf? name = some index)
    {member : Member 1} (hat : simulation.world.members[index]? = some member) (id : MessageId)
    (kind : String) (payload : Payload) :
    (simulation.broadcastFrom name id kind payload).1 = .ok id := by
  have hresult := result_broadcast_of_isDown hdown hat id kind payload
  obtain ⟨⟨result, world⟩, hbroadcast, hok⟩ := Option.map_eq_some_iff.mp hresult
  rw [broadcastFrom, hindex]
  dsimp only
  rw [hbroadcast]
  exact hok

/-- Whatever moves were made in a simulation before it is shut down, and whatever happens to it
afterwards: its nodes hold and have done what they had before, no peers, losses or delays are drawn,
no send is handed over or lost, and every node that is asked for a broadcast answers with its id, by
itself as well as under its name. The messages that were in transit are delivered or undeliverable, each
of them once, or are still in transit. So there are never more in flight than there were. -/
theorem shutdown_quiesces {config : SimulationConfig} (hvalid : config.check = .ok ())
    (generators : Generators σ) (hasClock : Bool) (wall : Nat) :
    ∃ start, Simulation.new config generators hasClock wall = .ok start ∧
      ∀ (before : List (Move 1)) (earlier later : List Occurrence),
        let reached : Simulation σ := { start with world := start.world.run before }
        let settled := reached.shutdown.proceedAll earlier
        let after := settled.proceedAll later
        after.world.nodes.map Node.unlinked =
          reached.world.nodes.map (fun node => node.shutdown.unlinked) ∧
        after.world.protocols = reached.world.protocols ∧
        after.world.network.generator = reached.world.network.generator ∧
        after.world.network.stats.sent = reached.world.network.stats.sent ∧
        after.world.network.stats.dropped = reached.world.network.stats.dropped ∧
        (∀ index < reached.world.nodes.length, ∀ id kind payload,
          (after.world.broadcast index id kind payload).map (·.1) = some (.ok id)) ∧
        (∀ name ∈ start.nodeIds, ∀ id kind payload,
          (after.broadcastFrom name id kind payload).1 = .ok id) ∧
        (∃ resolved, after.world.outcomes = resolved ++ reached.world.outcomes ∧
          (∀ entry ∈ resolved, entry.2 = .delivered ∨ entry.2 = .undeliverable) ∧
          (resolved.map (·.1) ++ after.world.pending.map (·.serial)).Perm
            (reached.world.pending.map (·.serial)) ∧
          (resolved.map (·.1)).Nodup) ∧
        after.world.network.stats.inFlight ≤ settled.world.network.stats.inFlight := by
  obtain ⟨start, hnew, hfounded⟩ := exists_founded hvalid generators hasClock wall
  refine ⟨start, hnew, fun before earlier later => ?_⟩
  intro reached settled after
  have hsettled : reached.shutdown.world.Rests settled.world :=
    rests_proceedAll reached.isDown_shutdown earlier
  have hlater : settled.world.Rests after.world :=
    rests_proceedAll (hsettled.isDown reached.isDown_shutdown) later
  have hafter := hsettled.trans hlater
  have hdown := hafter.isDown reached.isDown_shutdown
  have haccounts : World.Accounts [] reached.shutdown.world :=
    accounts_shutdown (hfounded.accounts.run before)
  have hresolved := hafter.exists_resolved haccounts
  have hsettledAccounts : World.Accounts [] settled.world := accounts_proceedAll haccounts earlier
  have hinFlight := hlater.inFlight_le hsettledAccounts (accounts_proceedAll hsettledAccounts later)
  have hnodes : after.world.nodes.map Node.unlinked =
      reached.world.nodes.map (fun node => node.shutdown.unlinked) := by
    rw [hafter.nodes, nodes_shutdown, List.map_map]
    rfl
  have hids : after.nodeIds = reached.nodeIds := hafter.names_eq.trans reached.nodeIds_shutdown
  have hindex : after.index = start.index :=
    (index_proceedAll settled later).trans (index_proceedAll reached.shutdown earlier)
  rw [reached.pending_shutdown] at hresolved
  refine ⟨hnodes, hafter.protocols, hafter.generator, hafter.sent, hafter.dropped,
    fun index hlt id kind payload => ?_, fun name hname id kind payload => ?_, hresolved, hinFlight⟩
  · have hlength := congrArg List.length hids
    rw [nodeIds, nodeIds, List.length_map, List.length_map, World.nodes, List.length_map] at hlength
    rw [← hlength] at hlt
    exact result_broadcast_of_isDown hdown (List.getElem?_eq_getElem hlt) id kind payload
  · have hprefix : start.nodeIds <+: after.nodeIds := by
      rw [hids]
      exact start.world.names_prefix_run before
    obtain ⟨index, member, hplace, hat, -⟩ :=
      hfounded.indexed.exists_member_of_prefix hindex hprefix hname
    exact broadcastFrom_of_isDown hdown hplace hat id kind payload

/-- A broadcast that has not gone along the first link yet. -/
def underWay : List (Move 1) :=
  [.broadcast 0 "first" "update" [("key", .int 1)], .turn 0]

/-- Its time comes. -/
def fallenDue : List Occurrence := ticking [.pass 1, .fire] (by decide)

/-- A node is asked for another broadcast, the first one is delivered, and time goes on. -/
def undeterred : List Occurrence :=
  .broadcastFrom "node-1" "second" "update" [("key", .int 2)] ::
    ticking [.turn 0, .pass 10, .fire] (by decide)

/-- If the simulation is shut down in the meantime, the first broadcast is delivered to a node that
takes no notice of it, and the second one is not made. -/
theorem shutdown_quiesces_underWay :
    ∃ start,
      Simulation.new trio (⟨⟨[]⟩, ⟨[]⟩, ⟨[]⟩⟩ : Generators Random.Script) true 0 = .ok start ∧
      let reached : Simulation Random.Script :=
        { start with world := start.world.run underWay }
      let settled := reached.shutdown.proceedAll fallenDue
      let after := settled.proceedAll undeterred
      reached.world.nodes.map (·.seen) = [["first"], [], []] ∧
      settled.world.network.stats = ⟨1, 0, 0, 0⟩ ∧ after.world.network.stats = ⟨1, 0, 1, 0⟩ ∧
      after.world.nodes.map Node.unlinked =
        reached.world.nodes.map (fun node => node.shutdown.unlinked) ∧
      "node-1" ∈ start.nodeIds ∧
      (after.world.broadcast 1 "third" "update" [("key", .int 3)]).map (·.1) = some (.ok "third") ∧
      (after.broadcastFrom "node-1" "third" "update" [("key", .int 3)]).1 = .ok "third" ∧
      after.world.network.stats.inFlight ≤ settled.world.network.stats.inFlight := by
  have hvalid : trio.check = .ok () := rfl
  obtain ⟨start, hnew, hquiet⟩ := shutdown_quiesces hvalid
    (⟨⟨[]⟩, ⟨[]⟩, ⟨[]⟩⟩ : Generators Random.Script) true 0
  have hfacts : (Simulation.new trio (⟨⟨[]⟩, ⟨[]⟩, ⟨[]⟩⟩ : Generators Random.Script) true
      0).toOption.map (fun start =>
        let reached : Simulation Random.Script :=
          { start with world := start.world.run underWay }
        let settled := reached.shutdown.proceedAll fallenDue
        (reached.world.nodes.map (·.seen), settled.world.network.stats,
          (settled.proceedAll undeterred).world.network.stats,
          start.nodeIds.contains "node-1", reached.world.nodes.length)) =
      some ([["first"], [], []], ⟨1, 0, 0, 0⟩, ⟨1, 0, 1, 0⟩, true, 3) := by
    decide +kernel
  rw [hnew] at hfacts
  have hfacts := Option.some.inj hfacts
  simp only [Prod.mk.injEq] at hfacts
  obtain ⟨hseen, hsettled, hafter, hknown, hlength⟩ := hfacts
  have hname := List.contains_iff_mem.mp hknown
  obtain ⟨hnodes, -, -, -, -, hanswers, hanswer, -, hinFlight⟩ :=
    hquiet underWay fallenDue undeterred
  exact ⟨start, hnew, hseen, hsettled, hafter, hnodes, hname,
    hanswers 1 (by rw [hlength]; decide) "third" "update" [("key", .int 3)],
    hanswer "node-1" hname "third" "update" [("key", .int 3)], hinFlight⟩

end Epidemic.Simulation
