import Epidemic.Proofs.Simulation.Shutdown
import Epidemic.Proofs.Simulation.Traffic
import Epidemic.Proofs.World.Isolation

/-!
# Simulations in which nothing can arrive

A simulation that loses every send, or that has no clock, goes on as any other: broadcasts are made,
rumor rounds are held, sends are counted. But its nodes are on their own. Nothing is ever delivered or
in flight, and every node holds what it has broadcast itself and nothing else.
-/

namespace Epidemic

/-- Whether a simulation is set up with an obstacle. -/
def Obstacle.StandsIn (obstacle : Obstacle) (config : SimulationConfig) (hasClock : Bool) : Prop :=
  match obstacle with
  | .loss => config.dropRate = Binary64.one
  | .noClock => hasClock = false

namespace Simulation

/-- Whether something that happens leaves an obstacle in its place. -/
def Occurrence.Spares (obstacle : Obstacle) : Occurrence → Prop
  | .happens move _ => obstacle.Withstands move
  | _ => True

variable {σ : Type} {obstacle : Obstacle}

/-- Then all moves that it comes down to do so. -/
theorem Occurrence.withstands_of_mem_moves {simulation : Simulation σ} {occurrence : Occurrence}
    (h : occurrence.Spares obstacle) {move : Move 1} (hmem : move ∈ occurrence.moves simulation) :
    obstacle.Withstands move := by
  cases occurrence with
  | broadcastFrom origin id kind payload =>
    rw [moves, Option.mem_toList, Option.map_eq_some_iff] at hmem
    obtain ⟨index, -, rfl⟩ := hmem
    cases obstacle <;> trivial
  | shutdown =>
    rcases List.mem_cons.mp hmem with rfl | hshutdown
    · cases obstacle <;> trivial
    · obtain ⟨index, -, rfl⟩ := List.mem_map.mp hshutdown
      cases obstacle <;> trivial
  | happens other hinternal =>
    rw [List.mem_singleton.mp hmem]
    exact h

section Founded

variable {config : SimulationConfig} {generators : Generators σ} {hasClock : Bool}
  {simulation : Simulation σ}

/-- At first nothing has been let through. -/
theorem Founded.blocked (h : simulation.Founded config generators hasClock)
    (hobstacle : obstacle.StandsIn config hasClock) : simulation.world.Blocked obstacle where
  network := by
    rw [h.network]
    refine ⟨?_, rfl, fun _ => rfl⟩
    cases obstacle <;> exact hobstacle
  pending := h.pending

/-- At first no node knows anything. -/
theorem Founded.secluded (h : simulation.Founded config generators hasClock) :
    simulation.world.Secluded [] where
  names := by
    have hnames : simulation.world.nodes.map (·.id) = _ := h.nodeIds_eq
    rw [hnames]
    exact nodup_map_nodeId config.nodeCount
  nodes node hnode := by
    obtain ⟨member, hmember, rfl⟩ := List.mem_map.mp hnode
    obtain ⟨index, -, peers, hnew⟩ := h.exists_new hmember
    rw [hnew]
    exact ⟨rfl, rfl, rfl, rfl⟩

end Founded

variable [Random.Source σ]

/-- If a simulation is set up so that every send is lost, or so that there is no clock, and whatever
happens to it leaves this as it is: nothing is ever delivered or in flight, every send is lost or
undeliverable, and in the first case lost. No node receives anything, and each of them has seen its own
broadcasts only and holds nothing but their values. -/
theorem nothing_arrives {config : SimulationConfig} (hvalid : config.check = .ok ())
    (generators : Generators σ) (hasClock : Bool) (wall : Nat) (obstacle : Obstacle)
    (hobstacle : obstacle.StandsIn config hasClock) :
    ∃ start, Simulation.new config generators hasClock wall = .ok start ∧
      ∀ occurrences : List Occurrence,
        (∀ occurrence ∈ occurrences, occurrence.Spares obstacle) →
        let reached := start.proceedAll occurrences
        reached.stats.deliveredCount = 0 ∧
        reached.world.network.stats.inFlight = 0 ∧
        reached.stats.messageCount =
          reached.stats.droppedCount + reached.stats.undeliverableCount ∧
        (obstacle = .loss → reached.stats.messageCount = reached.stats.droppedCount) ∧
        reached.stats.acceptedCount = 0 ∧ reached.stats.duplicateCount = 0 ∧
        ∀ node ∈ reached.world.nodes, node.Secluded (start.broadcasts occurrences) := by
  obtain ⟨start, hnew, hfounded⟩ := exists_founded hvalid generators hasClock wall
  refine ⟨start, hnew, fun occurrences hspares => ?_⟩
  intro reached
  have hblocked : reached.world.Blocked obstacle := by
    rw [world_proceedAll]
    refine (hfounded.blocked hobstacle).run (fun _ => isInternal_of_mem_movesOfAll) fun move hmove => ?_
    obtain ⟨occurrence, hmem, before, hmoves⟩ := exists_of_mem_movesOfAll hmove
    exact Occurrence.withstands_of_mem_moves (hspares occurrence hmem) hmoves
  have hdelivered : reached.world.network.stats.delivered = 0 := hblocked.network.delivered
  have haccounts : World.Accounts [] reached.world := accounts_proceedAll hfounded.accounts occurrences
  have hpending : reached.world.pending.length = 0 := by rw [hblocked.pending, List.length_nil]
  have hsent : reached.world.network.stats.sent = reached.world.network.stats.dropped +
      reached.world.network.stats.undeliverable := by
    have hall := haccounts.sent_eq
    omega
  have hsecluded : reached.world.Secluded (start.broadcasts occurrences) :=
    hfounded.secluded.passage (start.passage_proceedAll occurrences) hdelivered
  refine ⟨hdelivered, haccounts.inFlight_eq.trans hpending, hsent, fun hloss => ?_,
    total_eq_zero fun node hnode => (hsecluded.nodes node hnode).received,
    total_eq_zero fun node hnode => (hsecluded.nodes node hnode).duplicates, hsecluded.nodes⟩
  have hundeliverable := hblocked.network.undeliverable hloss
  rw [hundeliverable] at hsent
  exact hsent

/-- Three nodes of which no send ever arrives. -/
def deafTrio : SimulationConfig := { trio with dropRate := Binary64.one }

/-- A broadcast, a rumor round of the node that has made it, and time for both of them to arrive. -/
def unheard : List Occurrence :=
  .broadcastFrom "node-1" "first" "update" [("key", .int 1)] :: .happens (.gossipRound 1) rfl ::
    ticking [.turn 0, .pass 5, .fire, .turn 0] (by decide)

/-- The broadcast is sent twice, and arrives neither if it is lost nor if there is no clock. -/
theorem nothing_arrives_unheard :
    (∃ start, Simulation.new deafTrio (⟨⟨[]⟩, ⟨[]⟩, ⟨[]⟩⟩ : Generators Random.Script) true 0 =
        .ok start ∧
      let reached := start.proceedAll unheard
      (reached.stats.messageCount, reached.stats.droppedCount) = (2, 2) ∧
        reached.stats.deliveredCount = 0 ∧
        ∀ node ∈ reached.world.nodes, node.Secluded (start.broadcasts unheard)) ∧
    ∃ start, Simulation.new trio (⟨⟨[]⟩, ⟨[]⟩, ⟨[]⟩⟩ : Generators Random.Script) false 0 =
        .ok start ∧
      let reached := start.proceedAll unheard
      (reached.stats.messageCount, reached.stats.undeliverableCount) = (2, 2) ∧
        reached.stats.deliveredCount = 0 ∧
        ∀ node ∈ reached.world.nodes, node.Secluded (start.broadcasts unheard) := by
  constructor
  · have hvalid : deafTrio.check = .ok () := rfl
    obtain ⟨start, hnew, hisolated⟩ := nothing_arrives hvalid
      (⟨⟨[]⟩, ⟨[]⟩, ⟨[]⟩⟩ : Generators Random.Script) true 0 .loss rfl
    have hfacts : (Simulation.new deafTrio (⟨⟨[]⟩, ⟨[]⟩, ⟨[]⟩⟩ : Generators Random.Script) true
        0).toOption.map (fun start =>
          let reached := start.proceedAll unheard
          (reached.stats.messageCount, reached.stats.droppedCount)) = some (2, 2) := by
      decide +kernel
    have hspares : ∀ occurrence ∈ unheard, occurrence.Spares .loss := by
      simp [unheard, ticking, Occurrence.Spares, Obstacle.Withstands]
    rw [hnew] at hfacts
    obtain ⟨hdelivered, -, -, -, -, -, hsecluded⟩ := hisolated unheard hspares
    exact ⟨start, hnew, Option.some.inj hfacts, hdelivered, hsecluded⟩
  · have hvalid : trio.check = .ok () := rfl
    obtain ⟨start, hnew, hisolated⟩ := nothing_arrives hvalid
      (⟨⟨[]⟩, ⟨[]⟩, ⟨[]⟩⟩ : Generators Random.Script) false 0 .noClock rfl
    have hfacts : (Simulation.new trio (⟨⟨[]⟩, ⟨[]⟩, ⟨[]⟩⟩ : Generators Random.Script) false
        0).toOption.map (fun start =>
          let reached := start.proceedAll unheard
          (reached.stats.messageCount, reached.stats.undeliverableCount)) = some (2, 2) := by
      decide +kernel
    have hspares : ∀ occurrence ∈ unheard, occurrence.Spares .noClock := by
      simp [unheard, ticking, Occurrence.Spares, Obstacle.Withstands]
    rw [hnew] at hfacts
    obtain ⟨hdelivered, -, -, -, -, -, hsecluded⟩ := hisolated unheard hspares
    exact ⟨start, hnew, Option.some.inj hfacts, hdelivered, hsecluded⟩

end Simulation

end Epidemic
