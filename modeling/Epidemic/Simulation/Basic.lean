import Epidemic.Convergence.Wait
import Epidemic.Random.Cipher
import Epidemic.Simulation.Config
import Epidemic.Topology.Random

/-!
# Simulations

A simulation is a network of nodes `node-0`, `node-1`, … in a random connected topology. The nodes
share one protocol. If there is a clock and the nodes have rumor rounds, these are held in regular
intervals until the simulation is shut down.
-/

namespace Epidemic

/-- A simulation with its random choices drawn from `σ`. -/
structure Simulation (σ : Type) where
  /-- What it was set up from. -/
  config : SimulationConfig
  /-- The place of each node among the nodes, by its name. -/
  index : List (NodeId × Nat)
  /-- The links between its nodes. -/
  links : List Link
  /-- Its network and nodes. -/
  world : World σ 1

namespace Simulation

variable {σ : Type}

/-- The states from which a simulation draws. -/
structure Generators (σ : Type) where
  /-- The state from which the topology is drawn. -/
  topology : σ
  /-- The state from which peers are drawn. -/
  selection : σ
  /-- The state from which losses and delays are drawn. -/
  network : σ

/-- The seeded sources of a configuration, or those of the given seed if it has none. -/
def Generators.ofSeed (config : SimulationConfig) (otherwise : UInt64) :
    Generators Random.Cipher :=
  let seeds := SimulationConfig.Seeds.ofSeed (config.seed.getD otherwise)
  ⟨.ofSeed seeds.topology, .ofSeed seeds.selection, .ofSeed seeds.network⟩

/-- The name of the node with an index. -/
def nodeId (index : Nat) : NodeId := "node-" ++ String.ofList (Decimal.natText index)

/-- Adds the nodes with the given numbers, each of them without peers, and notes their places. -/
def joinAll (rumorRounds : Nat) :
    List Nat → List (NodeId × Nat) → World σ 1 → Except Fault (List (NodeId × Nat) × World σ 1)
  | [], index, world => .ok (index, world)
  | number :: rest, index, world => do
    let world ← world.join (.new (nodeId number) rumorRounds) 0
    joinAll rumorRounds rest ((nodeId number, number) :: index) world

/-- Makes the two ends of a link peers of each other. -/
def connect (world : World σ 1) (link : Link) : World σ 1 :=
  (world.modifyNode link.low fun node => (node.addPeer (nodeId link.high)).2).modifyNode link.high
    fun node => (node.addPeer (nodeId link.low)).2

/-- Sets up a simulation at time zero, the wall clock being given. -/
def new [Random.Source σ] (config : SimulationConfig) (generators : Generators σ)
    (hasClock : Bool) (wall : Nat) : Except Fault (Simulation σ) := do
  config.check
  let network ← Network.new config.network generators.network hasClock
  let protocol : Protocol σ := ⟨config.fanout, none, generators.selection⟩
  let (index, world) ← joinAll config.rumorRounds (List.range config.nodeCount) []
    (World.new network #v[protocol] wall)
  let links := (Topology.random config.nodeCount generators.topology).1
  let world := links.foldl connect world
  let world :=
    if 0 < config.rumorRounds && hasClock then world.startRounds config.rumorIntervalMillis
    else world
  return { config, index, links, world }

/-- The names of the nodes. -/
def nodeIds (simulation : Simulation σ) : List NodeId := simulation.world.nodes.map (·.id)

/-- The place of the node with a name. -/
def indexOf? (simulation : Simulation σ) (id : NodeId) : Option Nat := simulation.index.lookup id

/-- The node with a name. -/
def node? (simulation : Simulation σ) (id : NodeId) : Option Node :=
  (simulation.indexOf? id).bind fun index => simulation.world.nodes[index]?

/-- The links by the names of their ends. -/
def topology (simulation : Simulation σ) : List (NodeId × NodeId) :=
  simulation.links.map fun link => (nodeId link.low, nodeId link.high)

/-- A broadcast by the node with a name. A name that no node has is refused before anything
happens. -/
def broadcastFrom [Random.Source σ] (simulation : Simulation σ) (origin : NodeId) (id : MessageId)
    (kind : String) (payload : Payload) : Except Fault MessageId × Simulation σ :=
  match simulation.indexOf? origin with
  | none => (.error (.unknownNode origin), simulation)
  | some index =>
    match simulation.world.broadcast index id kind payload with
    | none => (.error (.unknownNode origin), simulation)
    | some (result, world) => (result, { simulation with world })

/-- The watch over all nodes. -/
def watch (simulation : Simulation σ) (key : String) : Convergence.Watch :=
  .ofAll simulation.world key Convergence.Watch.defaultPoll

/-- How far the nodes agree on a key. -/
def report (simulation : Simulation σ) (key : String) : Convergence.Report :=
  (simulation.watch key).report simulation.world

/-- Waits until the nodes agree on a key, at most for a timeout. The tasks of the last millisecond are
still to have their turn. -/
def wait [Random.Source σ] (simulation : Simulation σ) (key : String) (timeout : Duration) :
    Bool × Simulation σ :=
  let (isConverged, world) := (simulation.watch key).waitFor timeout simulation.world
  (isConverged, { simulation with world })

/-- Lets the given milliseconds pass. -/
def advance [Random.Source σ] (simulation : Simulation σ) (millis : Nat) : Simulation σ :=
  { simulation with world := simulation.world.advance millis }

/-- Gives all tasks their turn whose time has come. -/
def catchUp [Random.Source σ] (simulation : Simulation σ) : Simulation σ :=
  { simulation with world := simulation.world.catchUp }

/-- Shuts down every node and stops the rumor rounds. Messages on their way still arrive. -/
def shutdown (simulation : Simulation σ) : Simulation σ :=
  let world := simulation.world.stopRounds
  { simulation with
    world := { world with
      members := world.members.map fun member => { member with node := member.node.shutdown } } }

/-- The sum of a counter over nodes. -/
def total (count : Node → Nat) : List Node → Nat
  | [] => 0
  | node :: rest => count node + total count rest

/-- The counters of the network and of all nodes. -/
def stats (simulation : Simulation σ) : SimulationStats :=
  let network := simulation.world.network.stats
  let nodes := simulation.world.nodes
  { nodeCount := nodes.length
    edgeCount := simulation.links.length
    messageCount := network.sent
    droppedCount := network.dropped
    deliveredCount := network.delivered
    undeliverableCount := network.undeliverable
    acceptedCount := total (·.stats.received) nodes
    duplicateCount := total (·.stats.duplicates) nodes
    forwardCount := total (·.stats.forwards) nodes }

end Simulation

end Epidemic
