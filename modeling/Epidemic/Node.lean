import Epidemic.Fault
import Epidemic.Ordered
import Epidemic.Policy

/-!
# Nodes

A node keeps the values it has learned, the ids of the messages it has seen and the messages it
still pushes in rumor rounds. Each operation is a function of the node, its protocol, which may be any
policy, a reading of the wall clock and whether the network can be reached; it answers with a `Turn`:
the result, what node and protocol have become, and the sends to be handed to the network, in their
order.
-/

namespace Epidemic

/-- Counters of what a node has done. They count without bound; as words of 64 bits they are the same
until more broadcasts are made, or more sends handed over, than such a word counts. -/
structure NodeStats where
  /-- Broadcasts made. -/
  originated : Nat
  /-- Messages received for the first time. -/
  received : Nat
  /-- Messages received again. -/
  duplicates : Nat
  /-- Batches of sends handed to the network. -/
  forwards : Nat

namespace NodeStats

/-- Nothing done yet. -/
def none : NodeStats := ⟨0, 0, 0, 0⟩

/-- The names of the counters, in their order. -/
def fieldNames : List String := ["originated", "received", "duplicates", "forwards"]

/-- The counters as a record. -/
def toJson (stats : NodeStats) : Json.Value :=
  .object [("originated", .int stats.originated), ("received", .int stats.received),
    ("duplicates", .int stats.duplicates), ("forwards", .int stats.forwards)]

/-- Reads a record of counters. -/
def ofDocument (document : Json.Document) : Except Json.Fault NodeStats := do
  let fields ← Json.Record.ofDocument { names := fieldNames } document
  let originated ← Json.Record.required fields "originated" Json.Record.word
  let received ← Json.Record.required fields "received" Json.Record.word
  let duplicates ← Json.Record.required fields "duplicates" Json.Record.word
  let forwards ← Json.Record.required fields "forwards" Json.Record.word
  return { originated, received, duplicates, forwards }

end NodeStats

/-- A message that is pushed again in the coming rumor rounds. -/
structure Rumor where
  /-- The message. -/
  message : Message
  /-- In how many rounds it is still pushed. -/
  roundsLeft : Nat

/-- One message to be sent from one node to another. -/
structure Envelope where
  /-- The node that sends it. -/
  sender : NodeId
  /-- The node it is sent to. -/
  target : NodeId
  /-- The message. -/
  message : Message

/-- A participant. -/
structure Node where
  /-- Its name. -/
  id : NodeId
  /-- The nodes it pushes messages to, in ascending order. -/
  peers : List NodeId
  /-- In how many rumor rounds it pushes a message that it has learned. -/
  rumorRounds : Nat
  /-- The ids of the messages it has seen, last first. -/
  seen : List MessageId
  /-- The values it has learned, the later ones in place of earlier ones. -/
  state : Payload
  /-- The messages it still pushes, in the order in which it learned them. -/
  rumors : List Rumor
  /-- Whether it was shut down. -/
  isDown : Bool
  /-- What it has done so far. -/
  stats : NodeStats

/-- What a node makes of a message that a neighbour has sent. -/
inductive Reception where
  /-- It had not seen the message and has learned it. -/
  | accepted
  /-- It had seen the message already. -/
  | repeated
  /-- It is down. -/
  | refused
  deriving DecidableEq

/-- Whether a message was new to the node. -/
def Reception.isNew : Reception → Bool
  | .accepted => true
  | _ => false

/-- What an operation of a node comes to. -/
structure Turn (π α : Type) where
  /-- The result. -/
  result : α
  /-- The node afterwards. -/
  node : Node
  /-- Its protocol afterwards. -/
  protocol : π
  /-- The sends handed to the network, in their order. -/
  sends : List Envelope

namespace Node

variable {π : Type}

/-- A node without peers that has seen nothing. -/
def new (id : NodeId) (rumorRounds : Nat) : Node where
  id := id
  peers := []
  rumorRounds := rumorRounds
  seen := []
  state := []
  rumors := []
  isDown := false
  stats := .none

/-- Makes another node a peer, and tells whether it has become one by this. No node is a peer of its
own. -/
def addPeer (node : Node) (peer : NodeId) : Bool × Node :=
  if peer == node.id || node.peers.contains peer then (false, node)
  else (true, { node with peers := Ordered.insert peer node.peers })

/-- Makes all nodes of a list peers. -/
def addPeers (node : Node) (peers : List NodeId) : Node :=
  peers.foldl (fun node peer => (node.addPeer peer).2) node

/-- Whether the node has seen a message. -/
def hasSeen (node : Node) (id : MessageId) : Bool := node.seen.contains id

/-- The value that the node has for a key. -/
def get? (node : Node) (key : String) : Option Json.Value := node.state.get? key

/-- Takes no further part: a node that is shut down neither learns nor sends. -/
def shutdown (node : Node) : Node := { node with isDown := true }

/-- Keeps a message for the coming rumor rounds, if the node has any. -/
def remember (node : Node) (message : Message) : Node :=
  if 0 < node.rumorRounds then
    { node with rumors := node.rumors ++ [⟨message, node.rumorRounds⟩] }
  else node

/-- Learns a message: it is seen from now on, and its values are taken over. -/
def learn (node : Node) (message : Message) : Node :=
  { node with
    seen := message.id :: node.seen
    state := node.state.merge message.payload }

/-- Counts a batch, unless it is empty. -/
def countBatch (node : Node) (batch : List Envelope) : Node :=
  if batch.isEmpty then node
  else { node with stats := { node.stats with forwards := node.stats.forwards + 1 } }

/-- The sends of one message to several targets. -/
def batch (node : Node) (message : Message) (targets : List NodeId) : List Envelope :=
  targets.map fun target => ⟨node.id, target, message⟩

/-- Pushes a message to peers drawn by the protocol. If the network cannot be reached the peers are
drawn all the same, but nothing is sent. -/
def push [Policy π] (node : Node) (protocol : π) (linked : Bool)
    (message : Message) (excluded : Option NodeId) : Turn π Unit :=
  let (targets, protocol) := Policy.select protocol node.peers excluded
  let sends := if linked then node.batch message targets else []
  { result := (), node := node.countBatch sends, protocol, sends }

/-- Makes a broadcast under a fresh id. The node learns it at once, even if it cannot reach its
peers; only a node that is shut down does nothing at all. -/
def broadcast [Policy π] (node : Node) (protocol : π) (linked : Bool) (now : Nat)
    (id : MessageId) (kind : String) (payload : Payload) : Turn π (Except Fault MessageId) :=
  let message : Message := { id, kind, origin := node.id, payload, timestamp := now }
  if node.isDown then { result := .ok id, node, protocol, sends := [] }
  else
    let informed := (node.learn message).remember message
    let informed :=
      { informed with stats := { informed.stats with originated := informed.stats.originated + 1 } }
    if informed.peers.isEmpty then { result := .ok id, node := informed, protocol, sends := [] }
    else if !linked then
      { result := .error .networkUnavailable, node := informed, protocol, sends := [] }
    else
      let turn := informed.push protocol linked message none
      { turn with result := .ok id }

/-- Takes in a message that a neighbour has sent. A new one is learned and, if the protocol says so,
pushed on to others than this neighbour. -/
def receive [Policy π] (node : Node) (protocol : π) (linked : Bool) (now : Nat)
    (message : Message) (sender : NodeId) : Turn π Reception :=
  if node.isDown then { result := .refused, node, protocol, sends := [] }
  else if node.hasSeen message.id then
    let stats := { node.stats with duplicates := node.stats.duplicates + 1 }
    { result := .repeated, node := { node with stats }, protocol, sends := [] }
  else
    let (isForwarded, protocol) := Policy.forwards protocol message now
    let informed := node.learn message
    let informed := if isForwarded then informed.remember message else informed
    let informed :=
      { informed with stats := { informed.stats with received := informed.stats.received + 1 } }
    if isForwarded then
      let turn := informed.push protocol linked message (some sender)
      { turn with result := .accepted }
    else { result := .accepted, node := informed, protocol, sends := [] }

/-- Pushes a list of messages, one after the other. -/
def pushAll [Policy π] (node : Node) (protocol : π) (linked : Bool) :
    List Message → Turn π Unit
  | [] => { result := (), node, protocol, sends := [] }
  | message :: rest =>
    let first := node.push protocol linked message none
    let others := first.node.pushAll first.protocol linked rest
    { others with sends := first.sends ++ others.sends }

/-- The rumors after a round: each has one round less, and those without rounds left are dropped. -/
def ageRumors (rumors : List Rumor) : List Rumor :=
  (rumors.map fun rumor => { rumor with roundsLeft := rumor.roundsLeft - 1 }).filter
    fun rumor => 0 < rumor.roundsLeft

/-- A rumor round: every message that has rounds left is pushed again. The result is their
number. -/
def gossipRound [Policy π] (node : Node) (protocol : π) (linked : Bool) :
    Turn π Nat :=
  if node.isDown then { result := 0, node, protocol, sends := [] }
  else
    let due := node.rumors.map (·.message)
    let turn := { node with rumors := ageRumors node.rumors }.pushAll protocol linked due
    { turn with result := due.length }

/-- A node without rumors does nothing in a rumor round. -/
theorem gossipRound_of_rumors_eq_nil [Policy π] {node : Node} {protocol : π}
    {linked : Bool} (h : node.rumors = []) :
    node.gossipRound protocol linked = { result := 0, node, protocol, sends := [] } := by
  obtain ⟨id, peers, rumorRounds, seen, state, rumors, isDown, stats⟩ := node
  dsimp only at h
  subst h
  unfold gossipRound
  split
  · rfl
  · rfl

/-! ## What a node has seen -/

/-- Counting a batch does not change what the node has seen. -/
theorem seen_countBatch (node : Node) (batch : List Envelope) :
    (node.countBatch batch).seen = node.seen := by
  unfold countBatch
  split <;> rfl

/-- Remembering a message does not change what the node has seen. -/
theorem seen_remember (node : Node) (message : Message) :
    (node.remember message).seen = node.seen := by
  unfold remember
  split <;> rfl

variable [Policy π]

/-- Pushing does not change what the node has seen. -/
theorem seen_push (node : Node) (protocol : π) (linked : Bool) (message : Message)
    (excluded : Option NodeId) : (node.push protocol linked message excluded).node.seen = node.seen := by
  exact seen_countBatch _ _

/-- Every send of a push carries its message. -/
theorem message_of_mem_push {node : Node} {protocol : π} {linked : Bool}
    {message : Message} {excluded : Option NodeId} {envelope : Envelope}
    (h : envelope ∈ (node.push protocol linked message excluded).sends) :
    envelope.message = message := by
  unfold push batch at h
  dsimp only at h
  split at h
  · obtain ⟨_, _, rfl⟩ := List.mem_map.mp h
    rfl
  · cases h

/-- If a node sends on receiving a message, it is not down and had not seen the message. -/
theorem isDown_or_hasSeen_of_receive {node : Node} {protocol : π} {linked : Bool}
    {now : Nat} {message : Message} {sender : NodeId}
    (h : (node.receive protocol linked now message sender).sends ≠ []) :
    (node.isDown || node.hasSeen message.id) = false := by
  unfold receive at h
  split at h
  · exact absurd rfl h
  · split at h
    · exact absurd rfl h
    · rename_i hd hs
      simp [hd, hs]

/-- What a node sends on receiving a message carries this message. -/
theorem message_of_mem_receive {node : Node} {protocol : π} {linked : Bool} {now : Nat}
    {message : Message} {sender : NodeId} {envelope : Envelope}
    (h : envelope ∈ (node.receive protocol linked now message sender).sends) :
    envelope.message = message := by
  unfold receive at h
  split at h
  · cases h
  · split at h
    · cases h
    · dsimp only at h
      split at h
      · exact message_of_mem_push h
      · cases h

/-- The ids that a node has seen after it was given a message: the one of the message is added,
unless the node is down or knows it. -/
theorem seen_receive (node : Node) (protocol : π) (linked : Bool) (now : Nat)
    (message : Message) (sender : NodeId) :
    (node.receive protocol linked now message sender).node.seen =
      if node.isDown || node.hasSeen message.id then node.seen else message.id :: node.seen := by
  unfold receive
  split
  · rename_i hd
    rw [hd]
    rfl
  · rename_i hd
    rw [Bool.not_eq_true] at hd
    rw [hd]
    split
    · rename_i hs
      rw [hs]
      rfl
    · rename_i hs
      rw [Bool.not_eq_true] at hs
      rw [hs]
      dsimp only
      split
      · rw [seen_push]
        exact seen_remember _ _
      · rfl

end Node

end Epidemic
