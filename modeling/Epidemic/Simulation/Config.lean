import Epidemic.Network

/-!
# Configurations of a simulation

Everything needed to set up a simulation, the seeds that belong to one given seed, and the counters
that a simulation ends with.
-/

namespace Epidemic

/-- What a simulation is set up from. -/
structure SimulationConfig where
  /-- The number of nodes. -/
  nodeCount : Nat
  /-- How many peers a message is pushed to. -/
  fanout : Nat
  /-- The delay of every send, in microseconds. -/
  latencyMicros : Nat
  /-- The upper bound of a random further delay, in microseconds. -/
  jitterMicros : Nat
  /-- The probability with which a send is lost. -/
  dropRate : Binary64
  /-- The seed of all random choices, if they are to be reproducible. -/
  seed : Option UInt64
  /-- In how many rumor rounds a learned message is pushed again. -/
  rumorRounds : Nat
  /-- The time between two rumor rounds, in milliseconds. -/
  rumorIntervalMillis : Nat

/-- Counters of a whole simulation. Like those of its network and its nodes they count without bound,
and are the same as words of 64 bits in every run whose broadcasts and sends such a word counts. -/
structure SimulationStats where
  /-- The number of nodes. -/
  nodeCount : Nat
  /-- The number of links. -/
  edgeCount : Nat
  /-- All sends. -/
  messageCount : Nat
  /-- Sends that were lost. -/
  droppedCount : Nat
  /-- Sends that reached their target. -/
  deliveredCount : Nat
  /-- Sends whose target was not registered. -/
  undeliverableCount : Nat
  /-- Deliveries of a message that was new to its target. -/
  acceptedCount : Nat
  /-- Deliveries of a message that its target had seen. -/
  duplicateCount : Nat
  /-- Batches of sends handed to the network. -/
  forwardCount : Nat

namespace SimulationConfig

/-- Ten nodes with a fanout of three, five milliseconds of latency, no loss, and eight rumor rounds
in intervals of 25 milliseconds. -/
def default : SimulationConfig where
  nodeCount := 10
  fanout := 3
  latencyMicros := 5000
  jitterMicros := 0
  dropRate := .zero
  seed := none
  rumorRounds := 8
  rumorIntervalMillis := 25

/-- The default configuration with another population, fanout, latency and loss rate. A latency of
more than 64 bits of microseconds is cut to them. -/
def new (nodeCount fanout : Nat) (latency : Duration) (dropRate : Binary64) : SimulationConfig :=
  { default with nodeCount, fanout, dropRate, latencyMicros := min latency.micros (Width.words64 - 1) }

/-- Refuses a configuration that no simulation can have. -/
def check (config : SimulationConfig) : Except Fault Unit :=
  if config.nodeCount = 0 then .error .noNodes
  else if config.fanout = 0 then .error .noFanout
  else if 0 < config.rumorRounds ∧ config.rumorIntervalMillis = 0 then .error .noRumorInterval
  else NetworkConfig.checkDropRate config.dropRate

/-! ## Seeds -/

/-- The seeds of the three streams of random choices in a simulation. -/
structure Seeds where
  /-- The seed of the topology. -/
  topology : UInt64
  /-- The seed of the selection of peers. -/
  selection : UInt64
  /-- The seed of losses and delays. -/
  network : UInt64

/-- The seeds that belong to one seed: the seed itself, the one after it, and its product with an odd
constant, all of them in 64 bits. -/
def Seeds.ofSeed (seed : UInt64) : Seeds where
  topology := seed
  selection := seed + 1
  network := seed * 0x9E3779B97F4A7C15

/-- The configuration of the network. -/
def network (config : SimulationConfig) : NetworkConfig where
  latency := .ofMicros config.latencyMicros
  jitter := .ofMicros config.jitterMicros
  dropRate := config.dropRate
  seed := config.seed.map fun seed => (Seeds.ofSeed seed).network

/-! ## Records -/

/-- The names of the settings, in their order. -/
def fieldNames : List String :=
  ["node_count", "fanout", "latency_us", "jitter_us", "drop_rate", "seed", "rumor_rounds",
    "rumor_interval_ms"]

/-- The configuration as a record. -/
def toJson (config : SimulationConfig) : Json.Value :=
  .object [("node_count", .int config.nodeCount), ("fanout", .int config.fanout),
    ("latency_us", .int config.latencyMicros), ("jitter_us", .int config.jitterMicros),
    ("drop_rate", .float config.dropRate), ("seed", NetworkConfig.seedToJson config.seed),
    ("rumor_rounds", .int config.rumorRounds),
    ("rumor_interval_ms", .int config.rumorIntervalMillis)]

/-- Reads a record as a configuration; a setting that is not given is that of the default. -/
def ofDocument (document : Json.Document) : Except Json.Fault SimulationConfig := do
  let fields ← Json.Record.ofDocument { names := fieldNames, allowsFewer := true } document
  let word := fun name value => Json.Record.defaulted fields name value Json.Record.word
  let nodeCount ← word "node_count" default.nodeCount
  let fanout ← word "fanout" default.fanout
  let latencyMicros ← word "latency_us" default.latencyMicros
  let jitterMicros ← word "jitter_us" default.jitterMicros
  let dropRate ← Json.Record.defaulted fields "drop_rate" default.dropRate Json.Record.float
  let seed ← NetworkConfig.seedOfFields fields
  let rumorRounds ← Json.Record.defaulted fields "rumor_rounds" default.rumorRounds
    (Json.Record.natural Width.words32)
  let rumorIntervalMillis ← word "rumor_interval_ms" default.rumorIntervalMillis
  return { nodeCount, fanout, latencyMicros, jitterMicros, dropRate, seed, rumorRounds,
           rumorIntervalMillis }

end SimulationConfig

namespace SimulationStats

/-- The names of the counters, in their order. -/
def fieldNames : List String :=
  ["node_count", "edge_count", "message_count", "dropped_count", "delivered_count",
    "undeliverable_count", "accepted_count", "duplicate_count", "forward_count"]

/-- The counters in the order of their names. -/
def toList (stats : SimulationStats) : List Nat :=
  [stats.nodeCount, stats.edgeCount, stats.messageCount, stats.droppedCount, stats.deliveredCount,
    stats.undeliverableCount, stats.acceptedCount, stats.duplicateCount, stats.forwardCount]

/-- The counters as a record. -/
def toJson (stats : SimulationStats) : Json.Value :=
  .object (fieldNames.zip (stats.toList.map fun (n : Nat) => .int n))

/-- Reads a record of counters. -/
def ofDocument (document : Json.Document) : Except Json.Fault SimulationStats := do
  let fields ← Json.Record.ofDocument { names := fieldNames } document
  let word := fun name => Json.Record.required fields name Json.Record.word
  return {
    nodeCount := ← word "node_count"
    edgeCount := ← word "edge_count"
    messageCount := ← word "message_count"
    droppedCount := ← word "dropped_count"
    deliveredCount := ← word "delivered_count"
    undeliverableCount := ← word "undeliverable_count"
    acceptedCount := ← word "accepted_count"
    duplicateCount := ← word "duplicate_count"
    forwardCount := ← word "forward_count" }

end SimulationStats

end Epidemic
