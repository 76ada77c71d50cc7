import Epidemic.Proofs.Simulation.Occurrence
import Epidemic.Proofs.World.Blank

/-!
# Simulations that are blind to content

All content can be taken from a simulation, and from the stages of its run: from the broadcasts that are
made in it, while the passage of time has no content in the first place. Whatever happens, the simulation
that is left afterwards is the one to which the blank stages lead from the simulation that was left
before.
-/

namespace Epidemic

/-- A move is internal whatever it says. -/
theorem Move.isInternal_blank (rename : MessageId → MessageId) {k : Nat} {move : Move k}
    (h : move.isInternal = true) : (move.blank rename).isInternal = true := by
  cases move with
  | send | receive | join | register => cases h
  | _ => rfl

namespace Simulation

/-- A stage of a run: something happens, what is due is done, or time passes. -/
inductive Stage where
  /-- Something happens. -/
  | occurs (occurrence : Occurrence)
  /-- All tasks are given their turn whose time has come. -/
  | catchUp
  /-- The given milliseconds pass. -/
  | advance (millis : Nat)

section Blank

variable (rename : MessageId → MessageId)

/-- Something that happens, without content. -/
def Occurrence.blank : Occurrence → Occurrence
  | .broadcastFrom origin id _ _ => .broadcastFrom origin (rename id) "" []
  | .shutdown => .shutdown
  | .happens move h => .happens (move.blank rename) (Move.isInternal_blank rename h)

/-- A stage without content. -/
def Stage.blank : Stage → Stage
  | .occurs occurrence => .occurs (occurrence.blank rename)
  | stage => stage

/-- A simulation without content. -/
def blank {σ : Type} (simulation : Simulation σ) : Simulation σ :=
  { simulation with world := simulation.world.blank rename }

end Blank

variable {σ : Type} {rename : MessageId → MessageId}

/-- Names are found whatever their nodes know. -/
theorem indexOf?_blank (simulation : Simulation σ) (id : NodeId) :
    (simulation.blank rename).indexOf? id = simulation.indexOf? id := rfl

/-- What happens comes down to the same moves, without content. -/
theorem moves_blank (simulation : Simulation σ) (occurrence : Occurrence) :
    (occurrence.blank rename).moves (simulation.blank rename) =
      (occurrence.moves simulation).map (Move.blank rename) := by
  cases occurrence with
  | broadcastFrom origin id kind payload =>
    simp only [Occurrence.blank, Occurrence.moves, indexOf?_blank]
    cases simulation.indexOf? origin <;> rfl
  | shutdown =>
    have hlength : (simulation.blank rename).world.members.length =
        simulation.world.members.length := List.length_map _
    simp only [Occurrence.blank, Occurrence.moves, hlength, List.map_cons, List.map_map]
    rfl
  | happens move hinternal => rfl

/-! ## Nodes that have just joined -/

/-- Their protocol has no bound for the age of messages. -/
theorem isAgeless_assembled (network : Network σ) (fanout : Nat) (generator : σ)
    (wall rumorRounds count : Nat) :
    (assembled network #v[⟨fanout, none, generator⟩] wall rumorRounds count).IsAgeless := by
  intro member
  rw [protocolOf_eq rfl]

/-- They have no content, and only the wall clock is taken from their world. -/
theorem blank_assembled (network : Network σ) (protocols : Vector (Protocol σ) 1)
    (wall rumorRounds count : Nat) :
    (assembled network protocols wall rumorRounds count).blank rename =
      assembled network protocols 0 rumorRounds count := by
  simp only [assembled, World.blank, World.new, List.map_map]
  rfl

/-! ## What happens -/

variable [Random.Source σ]

/-- What happens leaves the protocols as blind to the age of messages as they were. -/
theorem isAgeless_proceed {simulation : Simulation σ} (hage : simulation.world.IsAgeless)
    (occurrence : Occurrence) : (simulation.proceed occurrence).world.IsAgeless := by
  have hpassage := simulation.world.passage_run (occurrence.moves simulation)
    fun move hmem => Occurrence.isInternal_of_mem_moves hmem
  rw [world_proceed]
  exact hpassage.isAgeless hage

/-- Something happens whatever messages say. -/
theorem blank_proceed (hrename : Function.Injective rename) {simulation : Simulation σ}
    (hage : simulation.world.IsAgeless) (occurrence : Occurrence) :
    (simulation.proceed occurrence).blank rename =
      (simulation.blank rename).proceed (occurrence.blank rename) := by
  have hrun := World.blank_run hrename hage
    fun move (hmem : move ∈ occurrence.moves simulation) => Occurrence.isInternal_of_mem_moves hmem
  rw [proceed_eq, proceed_eq, moves_blank]
  exact congrArg (mk _ _ _) hrun

/-! ## Runs -/

/-- What a stage makes of a simulation. -/
def undergo (simulation : Simulation σ) : Stage → Simulation σ
  | .occurs occurrence => simulation.proceed occurrence
  | .catchUp => simulation.catchUp
  | .advance millis => simulation.advance millis

/-- What one stage after the other makes of a simulation. -/
def undergoAll (simulation : Simulation σ) (stages : List Stage) : Simulation σ :=
  stages.foldl undergo simulation

/-- A stage leaves the protocols as blind to the age of messages as they were. -/
theorem isAgeless_undergo {simulation : Simulation σ} (hage : simulation.world.IsAgeless)
    (stage : Stage) : (simulation.undergo stage).world.IsAgeless := by
  cases stage with
  | occurs occurrence => exact isAgeless_proceed hage occurrence
  | catchUp => exact hage.later simulation.world.isLater_catchUp
  | advance millis => exact hage.later (simulation.world.isLater_advance millis)

/-- A stage is gone through whatever messages say. -/
theorem blank_undergo (hrename : Function.Injective rename) {simulation : Simulation σ}
    (hage : simulation.world.IsAgeless) (stage : Stage) :
    (simulation.undergo stage).blank rename =
      (simulation.blank rename).undergo (stage.blank rename) := by
  cases stage with
  | occurs occurrence => exact blank_proceed hrename hage occurrence
  | catchUp => exact congrArg (mk _ _ _) (World.blank_catchUp hrename hage)
  | advance millis => exact congrArg (mk _ _ _) (World.blank_advance hrename hage millis)

/-- Stages are gone through one after the other whatever messages say. -/
theorem blank_undergoAll (hrename : Function.Injective rename) {simulation : Simulation σ}
    (hage : simulation.world.IsAgeless) (stages : List Stage) :
    (simulation.undergoAll stages).blank rename =
      (simulation.blank rename).undergoAll (stages.map (Stage.blank rename)) := by
  induction stages generalizing simulation with
  | nil => rfl
  | cons stage rest ih =>
    have hrest := ih (isAgeless_undergo hage stage)
    rw [blank_undergo hrename hage] at hrest
    exact hrest

/-! ## The beginning -/

/-- The moves by which the nodes at the ends of links become peers of each other. -/
def connecting (links : List Link) : List (Move 1) :=
  links.flatMap fun link =>
    [.addPeer link.low (nodeId link.high), .addPeer link.high (nodeId link.low)]

/-- The moves by which a simulation gets going when its nodes have joined. -/
def startingUp (config : SimulationConfig) (generators : Generators σ) (hasClock : Bool) :
    List (Move 1) :=
  connecting (Topology.random config.nodeCount generators.topology).1 ++
    if 0 < config.rumorRounds && hasClock then [.startRounds config.rumorIntervalMillis] else []

/-- The world of a simulation is what these moves make of the world that its nodes have joined. -/
theorem wired_eq (config : SimulationConfig) (generators : Generators σ) (hasClock : Bool)
    (start : World σ 1) :
    wired config generators hasClock start =
      { config, index := places config.nodeCount,
        links := (Topology.random config.nodeCount generators.topology).1,
        world := start.run (startingUp config generators hasClock) } := by
  have hconnect : ∀ links, start.run (connecting links) = links.foldl connect start := by
    intro links
    rw [World.run, connecting, List.foldl_flatMap]
    rfl
  rw [wired, startingUp, World.run_append, hconnect]
  split <;> rfl

/-- None of these moves comes from outside or has content. -/
theorem blank_of_mem_startingUp {config : SimulationConfig} {generators : Generators σ}
    {hasClock : Bool} {move : Move 1} (h : move ∈ startingUp config generators hasClock) :
    move.isInternal = true ∧ ∀ rename, move.blank rename = move := by
  rcases List.mem_append.mp h with hconnecting | hrounds
  · obtain ⟨link, -, hends⟩ := List.mem_flatMap.mp hconnecting
    rcases List.mem_cons.mp hends with rfl | hlast
    · exact ⟨rfl, fun _ => rfl⟩
    · rw [List.mem_singleton.mp hlast]
      exact ⟨rfl, fun _ => rfl⟩
  · split at hrounds
    · rw [List.mem_singleton.mp hrounds]
      exact ⟨rfl, fun _ => rfl⟩
    · cases hrounds

/-- A simulation that gets going does not look at the age of messages. -/
theorem isAgeless_wired (config : SimulationConfig) (generators : Generators σ) (hasClock : Bool)
    {start : World σ 1} (hage : start.IsAgeless) :
    (wired config generators hasClock start).world.IsAgeless := by
  have hpassage := start.passage_run (startingUp config generators hasClock)
    fun move hmem => (blank_of_mem_startingUp hmem).1
  rw [wired_eq]
  exact hpassage.isAgeless hage

/-- It gets going whatever messages say. -/
theorem blank_wired (hrename : Function.Injective rename) (config : SimulationConfig)
    (generators : Generators σ) (hasClock : Bool) {start : World σ 1} (hage : start.IsAgeless) :
    (wired config generators hasClock start).blank rename =
      wired config generators hasClock (start.blank rename) := by
  have hmoves : (startingUp config generators hasClock).map (Move.blank rename) =
      startingUp config generators hasClock :=
    (List.map_congr_left fun move hmem => (blank_of_mem_startingUp hmem).2 rename).trans
      (List.map_id _)
  have hrun := World.blank_run hrename hage
    fun move (hmem : move ∈ startingUp config generators hasClock) => (blank_of_mem_startingUp hmem).1
  rw [hmoves] at hrun
  rw [wired_eq, wired_eq, ← hrun]
  rfl

end Simulation

end Epidemic
