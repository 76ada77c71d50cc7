import Epidemic.Fault
import Epidemic.Node
import Epidemic.Random.Chance

/-!
# The network

The network knows which endpoint is registered under which id, decides the fate of every send and
counts what became of the sends. It does not carry anything itself: a send that is neither lost nor
undeliverable gets a delay, and whoever runs the network delivers it after this delay.
-/

namespace Epidemic

/-- How a network delays and loses messages. -/
structure NetworkConfig where
  /-- The delay of every send. -/
  latency : Duration
  /-- The upper bound of a random further delay. -/
  jitter : Duration
  /-- The probability with which a send is lost. -/
  dropRate : Binary64
  /-- The seed of losses and delays, if they are to be reproducible. -/
  seed : Option UInt64

/-- Counters of what became of the sends. No counter is greater than the number of sends, so that as
long as a word of 64 bits counts these, all counters are such words. -/
structure NetworkStats where
  /-- All sends. -/
  sent : Nat
  /-- Sends that were lost. -/
  dropped : Nat
  /-- Sends that reached an endpoint. -/
  delivered : Nat
  /-- Sends that found no endpoint or could not be scheduled. -/
  undeliverable : Nat
  deriving DecidableEq

/-- What receives messages under a registered id. -/
inductive Endpoint where
  /-- An observer that takes note of every message. -/
  | recorder
  /-- The node with the given index. -/
  | node (index : Nat)

/-- What happens to a send at once. -/
inductive Fate where
  /-- It is lost. -/
  | dropped
  /-- There is no clock by which it could be delivered. -/
  | unscheduled
  /-- It will be delivered after a delay. -/
  | scheduled (delay : Duration)

/-- A network with its random choices drawn from `σ`. -/
structure Network (σ : Type) where
  /-- Delays and losses. -/
  config : NetworkConfig
  /-- The endpoints by id. -/
  registry : List (NodeId × Endpoint)
  /-- The state from which losses and further delays are drawn. -/
  generator : σ
  /-- What became of the sends. -/
  stats : NetworkStats
  /-- Whether there is a clock by which messages are delivered. -/
  hasClock : Bool
  /-- Whether nodes can still hand over sends. -/
  isOpen : Bool

namespace NetworkStats

/-- No sends at all. -/
def none : NetworkStats := ⟨0, 0, 0, 0⟩

/-- Sends whose outcome is not known yet. -/
def inFlight (stats : NetworkStats) : Nat :=
  stats.sent - (stats.dropped + stats.delivered + stats.undeliverable)

/-- The names of the counters, in their order. -/
def fieldNames : List String :=
  ["messages_sent", "messages_dropped", "messages_delivered", "messages_undeliverable"]

/-- The counters as a record. -/
def toJson (stats : NetworkStats) : Json.Value :=
  .object [("messages_sent", .int stats.sent), ("messages_dropped", .int stats.dropped),
    ("messages_delivered", .int stats.delivered),
    ("messages_undeliverable", .int stats.undeliverable)]

/-- Reads a record of counters. -/
def ofDocument (document : Json.Document) : Except Json.Fault NetworkStats := do
  let fields ← Json.Record.ofDocument { names := fieldNames } document
  let sent ← Json.Record.required fields "messages_sent" Json.Record.word
  let dropped ← Json.Record.required fields "messages_dropped" Json.Record.word
  let delivered ← Json.Record.required fields "messages_delivered" Json.Record.word
  let undeliverable ← Json.Record.required fields "messages_undeliverable" Json.Record.word
  return { sent, dropped, delivered, undeliverable }

end NetworkStats

namespace NetworkConfig

/-- Five milliseconds of latency, and nothing is lost. -/
def default : NetworkConfig := ⟨.ofMillis 5, .zero, .zero, none⟩

/-- Refuses a loss rate that is no probability. -/
def checkDropRate (rate : Binary64) : Except Fault Unit :=
  if rate.isProbability then .ok () else .error (.dropRate rate)

/-- Refuses a configuration that no network can have. -/
def check (config : NetworkConfig) : Except Fault Unit := checkDropRate config.dropRate

/-- The names of the settings, in their order. -/
def fieldNames : List String := ["latency", "jitter", "drop_rate", "seed"]

/-- A seed, or null. -/
def seedToJson : Option UInt64 → Json.Value
  | none => .null
  | some seed => .int seed.toNat

/-- Reads a seed, which may be null and which an object may leave out. -/
def seedOfFields (fields : Json.Record.Fields) : Except Json.Fault (Option UInt64) :=
  Json.Record.defaulted fields "seed" none fun item =>
    (Json.Record.nullable Json.Record.word item).map (·.map UInt64.ofNat)

/-- The configuration as a record. -/
def toJson (config : NetworkConfig) : Json.Value :=
  .object [("latency", config.latency.toJson), ("jitter", config.jitter.toJson),
    ("drop_rate", .float config.dropRate), ("seed", seedToJson config.seed)]

/-- Reads a record as a configuration. -/
def ofDocument (document : Json.Document) : Except Json.Fault NetworkConfig := do
  let fields ← Json.Record.ofDocument { names := fieldNames } document
  let latency ← Json.Record.required fields "latency" Duration.ofDocument
  let jitter ← Json.Record.required fields "jitter" Duration.ofDocument
  let dropRate ← Json.Record.required fields "drop_rate" Json.Record.float
  let seed ← seedOfFields fields
  return { latency, jitter, dropRate, seed }

end NetworkConfig

namespace Network

variable {σ : Type}

/-- A network without endpoints. -/
def new (config : NetworkConfig) (generator : σ) (hasClock : Bool) : Except Fault (Network σ) := do
  config.check
  return { config, registry := [], generator, stats := .none, hasClock, isOpen := true }

/-- The endpoint under an id. -/
def endpoint? (network : Network σ) (id : NodeId) : Option Endpoint := network.registry.lookup id

/-- Whether there is an endpoint under an id. -/
def isRegistered (network : Network σ) (id : NodeId) : Bool := (network.endpoint? id).isSome

/-- How many endpoints are registered. -/
def nodeCount (network : Network σ) : Nat := network.registry.length

/-- Puts an endpoint under an id that has none. -/
def register (network : Network σ) (id : NodeId) (endpoint : Endpoint) :
    Except Fault (Network σ) :=
  if network.isRegistered id then .error (.duplicateNode id)
  else .ok { network with registry := network.registry ++ [(id, endpoint)] }

/-- Takes away the endpoint under an id, and tells whether there was one. -/
def unregister (network : Network σ) (id : NodeId) : Bool × Network σ :=
  (network.isRegistered id, { network with registry := network.registry.filter (·.1 != id) })

/-- Sets the delay of the sends to come. -/
def setLatency (network : Network σ) (latency : Duration) : Network σ :=
  { network with config := { network.config with latency } }

/-- Sets the bound of the random further delay of the sends to come. -/
def setJitter (network : Network σ) (jitter : Duration) : Network σ :=
  { network with config := { network.config with jitter } }

/-- Sets the loss rate of the sends to come, unless it is no probability. -/
def setDropRate (network : Network σ) (dropRate : Binary64) : Except Fault (Network σ) := do
  NetworkConfig.checkDropRate dropRate
  return { network with config := { network.config with dropRate } }

/-- Nodes cannot hand over sends any more. -/
def close (network : Network σ) : Network σ := { network with isOpen := false }

/-- A random further delay in whole microseconds up to the bound; a bound of more than 64 bits of
microseconds is itself the delay. -/
def drawExtra [Random.Source σ] (jitter : Duration) (generator : σ) : Duration × σ :=
  if jitter.micros = 0 then (.zero, generator)
  else if jitter.micros < Width.words64 then
    let (micros, after) := Random.Chooser.pick jitter.micros generator
    (.ofMicros micros, after)
  else (jitter, generator)

/-- Decides about one send: none if it is lost, otherwise its delay. -/
def roll [Random.Source σ] (config : NetworkConfig) (generator : σ) : Option Duration × σ :=
  let (isLost, generator) :=
    if config.dropRate.isPositive then Random.chance config.dropRate generator
    else (false, generator)
  if isLost then (none, generator)
  else
    let (extra, generator) := drawExtra config.jitter generator
    (some (config.latency.add extra), generator)

/-- A random further delay, all that is needed for it being asked for with a check. -/
def drawExtra? [Random.Source σ] (jitter : Duration) (generator : σ) : Option (Duration × σ) :=
  if jitter.micros = 0 then some (.zero, generator)
  else if jitter.micros < Width.words64 then do
    let (micros, after) ← Random.pickBetween? 0 jitter.micros generator
    let extra ← Duration.ofMicros? micros
    return (extra, after)
  else some (jitter, generator)

/-- Whether a send is lost, the event being asked for with a check. -/
def drawLoss? [Random.Source σ] (dropRate : Binary64) (generator : σ) : Option (Bool × σ) :=
  if dropRate.isPositive then Random.chance? dropRate generator else some (false, generator)

/-- What is decided about one send, all that is needed for it being asked for with a check. -/
def roll? [Random.Source σ] (config : NetworkConfig) (generator : σ) : Option (Option Duration × σ) := do
  let (isLost, generator) ← drawLoss? config.dropRate generator
  if isLost then return (none, generator)
  else
    let (extra, generator) ← drawExtra? config.jitter generator
    return (some (config.latency.add extra), generator)

/-- Takes over one send: counts it and decides its fate. -/
def dispatch [Random.Source σ] (network : Network σ) : Fate × Network σ :=
  let (delay, generator) := roll network.config network.generator
  let stats := { network.stats with sent := network.stats.sent + 1 }
  match delay with
  | none => (.dropped, { network with generator, stats := { stats with dropped := stats.dropped + 1 } })
  | some delay =>
    if network.hasClock then (.scheduled delay, { network with generator, stats })
    else
      let stats := { stats with undeliverable := stats.undeliverable + 1 }
      (.unscheduled, { network with generator, stats })

/-- Counts a delivery. -/
def countDelivered (network : Network σ) : Network σ :=
  { network with stats := { network.stats with delivered := network.stats.delivered + 1 } }

/-- Counts a message whose target is not registered. -/
def countUndeliverable (network : Network σ) : Network σ :=
  { network with stats := { network.stats with undeliverable := network.stats.undeliverable + 1 } }

end Network

end Epidemic
