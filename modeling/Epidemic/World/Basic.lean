import Epidemic.Agenda
import Epidemic.Network
import Epidemic.Protocol

/-!
# A network at work

A world is a network together with the nodes that take part in it, their protocols, and the agenda
of deliveries and rumor rounds. Nodes may share a protocol, and with it one stream of random
choices. Whatever happens to messages is also written into a journal.

The wall clock that stamps messages is read from the world and is independent of the agenda.
-/

namespace Epidemic

/-- A message on its way. -/
structure Parcel where
  /-- How many sends were handed over before it. -/
  serial : Nat
  /-- The send. -/
  envelope : Envelope

/-- What waits for its turn. -/
inductive Task where
  /-- A message that is delivered, or that waits the given milliseconds for its delivery from the
  turn of this task on. -/
  | parcel (delay : Nat) (parcel : Parcel)
  /-- A rumor round of all nodes, repeated after the given milliseconds. -/
  | rounds (interval : Nat)

/-- An entry of the journal. -/
inductive Event where
  /-- A send was handed over. -/
  | posted (time : Nat) (parcel : Parcel) (fate : Fate)
  /-- A message reached its target; an observer accepts every message. -/
  | arrived (time : Nat) (parcel : Parcel) (reception : Reception)
  /-- A message found no endpoint. -/
  | unclaimed (time : Nat) (parcel : Parcel)
  /-- A node had a rumor round. -/
  | round (time : Nat) (index : Nat)

/-- A node and the index of its protocol. -/
structure Member (k : Nat) where
  /-- The node. -/
  node : Node
  /-- The index of its protocol. -/
  protocol : Fin k

/-- A network with nodes that follow `k` protocols, all random choices being drawn from `σ`. -/
structure World (σ : Type) (k : Nat) where
  /-- The network. -/
  network : Network σ
  /-- The protocols. -/
  protocols : Vector (Protocol σ) k
  /-- The nodes, in the order in which they joined. -/
  members : List (Member k)
  /-- Deliveries and rumor rounds to come. -/
  agenda : Agenda Task
  /-- The wall clock, in milliseconds. -/
  wall : Nat
  /-- What has happened, last first. -/
  journal : List Event

namespace Task

/-- Whether a task is a rumor round. -/
def isRounds : Task → Bool
  | .rounds _ => true
  | .parcel _ _ => false

/-- The message that a task carries. -/
def messageId? : Task → Option MessageId
  | .parcel _ content => some content.envelope.message.id
  | .rounds _ => none

end Task

namespace World

variable {σ : Type} {k : Nat}

/-- A world without nodes at time zero. -/
def new (network : Network σ) (protocols : Vector (Protocol σ) k) (wall : Nat) : World σ k where
  network := network
  protocols := protocols
  members := []
  agenda := .empty
  wall := wall
  journal := []

/-- The nodes. -/
def nodes (world : World σ k) : List Node := world.members.map (·.node)

/-- The protocol of a member. -/
def protocolOf (world : World σ k) (member : Member k) : Protocol σ :=
  world.protocols.get member.protocol

/-- The world in which a member with an index and its protocol are replaced. -/
def replace (world : World σ k) (index : Nat) (member : Member k) (protocol : Protocol σ) :
    World σ k :=
  { world with
    members := world.members.set index member
    protocols := world.protocols.set member.protocol protocol }

/-- Hands one send to the network. -/
def send [Random.Source σ] (world : World σ k) (envelope : Envelope) : World σ k :=
  let parcel : Parcel := ⟨world.network.stats.sent, envelope⟩
  let (fate, network) := world.network.dispatch
  let journal := .posted world.agenda.now parcel fate :: world.journal
  match fate with
  | .scheduled delay =>
    let agenda := world.agenda.enqueue (.parcel delay.millisCeil parcel)
    { world with network, journal, agenda }
  | _ => { world with network, journal }

/-- Hands sends to the network, one after the other. -/
def sendAll [Random.Source σ] (world : World σ k) (envelopes : List Envelope) : World σ k :=
  envelopes.foldl send world

/-- Lets the node with an index act, and hands its sends to the network. None if there is no such
node. -/
def act [Random.Source σ] {α : Type} (world : World σ k) (index : Nat)
    (operation : Node → Protocol σ → Turn (Protocol σ) α) : Option (α × World σ k) := do
  let member ← world.members[index]?
  let turn := operation member.node (world.protocolOf member)
  let after := world.replace index { member with node := turn.node } turn.protocol
  return (turn.result, after.sendAll turn.sends)

/-- A broadcast by the node with an index. -/
def broadcast [Random.Source σ] (world : World σ k) (index : Nat) (id : MessageId) (kind : String)
    (payload : Payload) : Option (Except Fault MessageId × World σ k) :=
  world.act index fun node protocol =>
    node.broadcast protocol world.network.isOpen world.wall id kind payload

/-- A message given to the node with an index by one of its neighbours. -/
def receive [Random.Source σ] (world : World σ k) (index : Nat) (message : Message)
    (sender : NodeId) : Option (Reception × World σ k) :=
  world.act index fun node protocol =>
    node.receive protocol world.network.isOpen world.wall message sender

/-- A rumor round of the node with an index. Nothing has to be done for a node without rumors. -/
def gossipRound [Random.Source σ] (world : World σ k) (index : Nat) : Option (Nat × World σ k) := do
  let member ← world.members[index]?
  if member.node.rumors.isEmpty then return (0, world)
  else world.act index fun node protocol => node.gossipRound protocol world.network.isOpen

/-- Changes the node with an index. -/
def modifyNode (world : World σ k) (index : Nat) (change : Node → Node) : World σ k :=
  { world with
    members := world.members.modify index fun member =>
      { member with node := change member.node } }

/-- Adds an entry to the journal. -/
def record (world : World σ k) (event : Event) : World σ k :=
  { world with journal := event :: world.journal }

/-- Delivers a message to the endpoint that is registered under its target now. -/
def deliver [Random.Source σ] (world : World σ k) (parcel : Parcel) : World σ k :=
  let envelope := parcel.envelope
  match world.network.endpoint? envelope.target with
  | none =>
    { world with network := world.network.countUndeliverable }.record
      (.unclaimed world.agenda.now parcel)
  | some endpoint =>
    let world := { world with network := world.network.countDelivered }
    match endpoint with
    | .recorder => world.record (.arrived world.agenda.now parcel .accepted)
    | .node index =>
      match world.receive index envelope.message envelope.sender with
      | some (reception, after) => after.record (.arrived world.agenda.now parcel reception)
      | none => world.record (.arrived world.agenda.now parcel .refused)

/-- A rumor round of the nodes with the given indexes, one after the other. -/
def roundOf [Random.Source σ] (world : World σ k) : List Nat → World σ k
  | [] => world
  | index :: rest =>
    match world.gossipRound index with
    | some (_, after) => (after.record (.round world.agenda.now index)).roundOf rest
    | none => world.roundOf rest

/-- A rumor round of all nodes, to be repeated after the interval. Once all nodes are down there are
no rounds any more. -/
def roundOfAll [Random.Source σ] (world : World σ k) (interval : Nat) : World σ k :=
  if world.members.all (·.node.isDown) then world
  else
    let after := world.roundOf (List.range world.members.length)
    { after with agenda := after.agenda.schedule interval (.rounds interval) }

/-- The turn of a task. -/
def perform [Random.Source σ] (world : World σ k) : Task → World σ k
  | .parcel 0 parcel => world.deliver parcel
  | .parcel (delay + 1) parcel =>
    { world with agenda := world.agenda.schedule (delay + 1) (.parcel 0 parcel) }
  | .rounds interval => world.roundOfAll interval

/-- Starts rumor rounds of all nodes, the first one after the interval. -/
def startRounds (world : World σ k) (interval : Nat) : World σ k :=
  { world with agenda := world.agenda.schedule interval (.rounds interval) }

/-- Stops the rumor rounds. -/
def stopRounds (world : World σ k) : World σ k :=
  { world with agenda := world.agenda.cancel Task.isRounds }

/-- Registers an endpoint under an id that has none. -/
def register (world : World σ k) (id : NodeId) (endpoint : Endpoint) : Except Fault (World σ k) := do
  let network ← world.network.register id endpoint
  return { world with network }

/-- Adds a node and registers it. -/
def join (world : World σ k) (node : Node) (protocol : Fin k) : Except Fault (World σ k) := do
  let world ← world.register node.id (.node world.members.length)
  return { world with members := world.members ++ [⟨node, protocol⟩] }

/-- Putting a member in its own place, with the protocol that it has, changes nothing. -/
theorem replace_self {world : World σ k} {index : Nat} {member : Member k}
    (h : world.members[index]? = some member) :
    world.replace index member (world.protocolOf member) = world := by
  obtain ⟨hlt, hget⟩ := List.getElem?_eq_some_iff.mp h
  have hmembers : world.members.set index member = world.members := by
    rw [← hget]
    exact List.set_getElem_self hlt
  have hprotocols : world.protocols.set member.protocol (world.protocolOf member) =
      world.protocols := Vector.set_getElem_self member.protocol.isLt
  simp only [replace, hmembers, hprotocols]

/-- The rumor round of a node in a world is that of the node, also if it has no rumors. -/
theorem gossipRound_eq_act [Random.Source σ] (world : World σ k) (index : Nat) :
    world.gossipRound index =
      world.act index fun node protocol => node.gossipRound protocol world.network.isOpen := by
  unfold gossipRound
  cases h : world.members[index]? with
  | none => simp only [act, h, Option.bind_eq_bind, Option.bind_none]
  | some member =>
    simp only [Option.bind_eq_bind, Option.bind_some]
    split
    · rename_i hempty
      rw [List.isEmpty_iff] at hempty
      simp only [act, h, Option.bind_eq_bind, Option.bind_some, replace_self h, sendAll,
        Node.gossipRound_of_rumors_eq_nil hempty, List.foldl_nil]
    · rfl

end World

end Epidemic
