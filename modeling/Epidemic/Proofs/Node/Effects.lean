import Epidemic.Node
import Epidemic.Proofs.Ordered
import Epidemic.Proofs.Policy

/-!
# What the operations of a node change

Pushing touches no more of a node than its count of batches, and of its protocol it leaves one that
comes of it. What else an operation does is said here once for each of them: what the node becomes,
and which sends it makes. Later proofs do not look into the operations again.
-/

namespace Epidemic

namespace Node

/-- The node with another count of batches. -/
def withForwards (node : Node) (forwards : Nat) : Node :=
  { node with stats := { node.stats with forwards } }

/-- What the node keeps of a message for the coming rumor rounds. -/
def keepsakes (node : Node) (message : Message) : List Rumor :=
  if 0 < node.rumorRounds then [⟨message, node.rumorRounds⟩] else []

/-- The node that has made a broadcast of its own and has not pushed it yet. -/
def originate (node : Node) (message : Message) : Node :=
  { node with
    seen := message.id :: node.seen
    state := node.state.merge message.payload
    rumors := node.rumors ++ node.keepsakes message
    stats := { node.stats with originated := node.stats.originated + 1 } }

/-- The node that has accepted a new message and has not pushed it on yet; it keeps the message for
rumor rounds if this is to be pushed on. -/
def accept (node : Node) (message : Message) (isKept : Bool) : Node :=
  { node with
    seen := message.id :: node.seen
    state := node.state.merge message.payload
    rumors := node.rumors ++ if isKept then node.keepsakes message else []
    stats := { node.stats with received := node.stats.received + 1 } }

/-- The node that has noted a message received again. -/
def noteRepetition (node : Node) : Node :=
  { node with stats := { node.stats with duplicates := node.stats.duplicates + 1 } }

/-- The message of a broadcast that the node makes. -/
def compose (node : Node) (now : Nat) (id : MessageId) (kind : String) (payload : Payload) :
    Message :=
  { id, kind, origin := node.id, payload, timestamp := now }

/-- Counting a batch changes at most the count of batches. -/
theorem countBatch_eq (node : Node) (batch : List Envelope) :
    ∃ forwards, node.countBatch batch = node.withForwards forwards := by
  unfold countBatch
  split
  · exact ⟨node.stats.forwards, rfl⟩
  · exact ⟨node.stats.forwards + 1, rfl⟩

/-- The sends of a batch. -/
theorem mem_batch {node : Node} {message : Message} {targets : List NodeId} {envelope : Envelope} :
    envelope ∈ node.batch message targets ↔
      ∃ target ∈ targets, envelope = ⟨node.id, target, message⟩ := by
  rw [batch, List.mem_map]
  constructor
  · rintro ⟨target, hmem, rfl⟩
    exact ⟨target, hmem, rfl⟩
  · rintro ⟨target, hmem, rfl⟩
    exact ⟨target, hmem, rfl⟩

/-- Remembering a message adds to the rumors what is kept of it. -/
theorem remember_eq (node : Node) (message : Message) :
    node.remember message = { node with rumors := node.rumors ++ node.keepsakes message } := by
  unfold remember keepsakes
  split
  · rfl
  · rw [List.append_nil]

/-- What is kept of a message is the message, if there are rumor rounds at all. -/
theorem mem_keepsakes {node : Node} {message : Message} {rumor : Rumor} :
    rumor ∈ node.keepsakes message ↔
      0 < node.rumorRounds ∧ rumor = ⟨message, node.rumorRounds⟩ := by
  unfold keepsakes
  split
  · rename_i hrounds
    rw [List.mem_singleton]
    exact ⟨fun heq => ⟨hrounds, heq⟩, And.right⟩
  · rename_i hnone
    exact ⟨fun hmem => absurd hmem List.not_mem_nil, fun h => absurd h.1 hnone⟩

/-- Making a node a peer changes the peers, and nothing else. -/
theorem addPeer_eq (node : Node) (peer : NodeId) :
    ∃ peers, (node.addPeer peer).2 = { node with peers } ∧
      (∀ other, other ∈ peers ↔ other ∈ node.peers ∨ other = peer ∧ peer ≠ node.id) ∧
      (node.peers.Nodup → peers.Nodup) := by
  unfold addPeer
  split
  · rename_i hrefused
    refine ⟨node.peers, rfl, fun other => ⟨Or.inl, ?_⟩, fun h => h⟩
    rintro (hmem | ⟨rfl, hne⟩)
    · exact hmem
    · rw [Bool.or_eq_true, beq_iff_eq, List.contains_iff_mem] at hrefused
      exact hrefused.resolve_left hne
  · rename_i haccepted
    rw [Bool.or_eq_true, beq_iff_eq, List.contains_iff_mem, not_or] at haccepted
    refine ⟨_, rfl, fun other => ?_, fun hnodup => ?_⟩
    · rw [Ordered.mem_insert]
      constructor
      · rintro (rfl | hmem)
        · exact Or.inr ⟨rfl, haccepted.1⟩
        · exact Or.inl hmem
      · rintro (hmem | ⟨rfl, -⟩)
        · exact Or.inr hmem
        · exact Or.inl rfl
    · rw [(Ordered.perm_insert haccepted.2).nodup_iff]
      exact List.nodup_cons.mpr ⟨haccepted.2, hnodup⟩

variable {π : Type} [Policy π]

/-! ## Pushing -/

/-- A push sends the message to the peers drawn, if the network can be reached. -/
theorem push_eq (node : Node) (protocol : π) (linked : Bool) (message : Message)
    (excluded : Option NodeId) :
    ∃ forwards, node.push protocol linked message excluded =
      { result := ()
        node := node.withForwards forwards
        protocol := (Policy.select protocol node.peers excluded).2
        sends :=
          if linked then node.batch message (Policy.select protocol node.peers excluded).1 else [] } := by
  obtain ⟨forwards, heq⟩ := countBatch_eq node
    (if linked then node.batch message (Policy.select protocol node.peers excluded).1 else [])
  refine ⟨forwards, ?_⟩
  rw [← heq]
  rfl

/-- Pushing several messages changes at most the count of batches, and the protocol to one that comes
of it. -/
theorem pushAll_eq (node : Node) (protocol : π) (linked : Bool)
    (messages : List Message) :
    (∃ forwards, (node.pushAll protocol linked messages).node = node.withForwards forwards) ∧
      Policy.LeadsTo protocol (node.pushAll protocol linked messages).protocol := by
  induction messages generalizing node protocol with
  | nil => exact ⟨⟨node.stats.forwards, rfl⟩, .refl⟩
  | cons message rest ih =>
    obtain ⟨first, hpush⟩ := push_eq node protocol linked message none
    obtain ⟨⟨forwards, hnode⟩, hleads⟩ := ih (node.push protocol linked message none).node
      (node.push protocol linked message none).protocol
    refine ⟨⟨forwards, ?_⟩, ?_⟩
    · rw [pushAll]
      dsimp only
      rw [hnode, hpush]
      rfl
    · rw [pushAll]
      rw [hpush] at hleads
      rw [hpush]
      exact (Policy.LeadsTo.refl.select node.peers none).trans hleads

/-- Every send of a series of pushes carries one of the messages from the node to a peer of it.
There is none unless the network can be reached and the fanout is positive. -/
theorem of_mem_pushAll [LawfulPolicy π] {node : Node} {protocol : π} {linked : Bool}
    {messages : List Message} {envelope : Envelope}
    (h : envelope ∈ (node.pushAll protocol linked messages).sends) :
    linked = true ∧ 0 < Policy.fanout protocol ∧ envelope.message ∈ messages ∧
      envelope.sender = node.id ∧ envelope.target ∈ node.peers := by
  induction messages generalizing node protocol with
  | nil => cases h
  | cons message rest ih =>
    obtain ⟨first, hpush⟩ := push_eq node protocol linked message none
    rw [pushAll] at h
    rcases List.mem_append.mp h with hfirst | hrest
    · rw [hpush] at hfirst
      dsimp only at hfirst
      split at hfirst
      · rename_i hlinked
        obtain ⟨target, htarget, rfl⟩ := mem_batch.mp hfirst
        exact ⟨hlinked, Policy.fanout_pos_of_mem_select htarget, List.mem_cons_self, rfl,
          (LawfulPolicy.mem_select protocol node.peers none target htarget).1⟩
      · cases hfirst
    · obtain ⟨hlinked, hfanout, hmessage, hsender, htarget⟩ := ih hrest
      rw [hpush] at hfanout hsender htarget
      rw [LawfulPolicy.fanout_select] at hfanout
      exact ⟨hlinked, hfanout, List.mem_cons_of_mem message hmessage, hsender, htarget⟩

/-! ## Broadcasts -/

/-- A node that is down makes no broadcast. -/
theorem broadcast_of_isDown {node : Node} {protocol : π} {linked : Bool} {now : Nat}
    {id : MessageId} {kind : String} {payload : Payload} (h : node.isDown = true) :
    node.broadcast protocol linked now id kind payload =
      { result := .ok id, node, protocol, sends := [] } := by
  rw [broadcast, if_pos h]

/-- The node learns a broadcast first; then it pushes it, if it has peers and can reach the network. -/
theorem broadcast_eq {node : Node} (h : node.isDown = false) (protocol : π)
    (linked : Bool) (now : Nat) (id : MessageId) (kind : String) (payload : Payload) :
    node.broadcast protocol linked now id kind payload =
      if node.peers.isEmpty then
        { result := .ok id, node := node.originate (node.compose now id kind payload), protocol,
          sends := [] }
      else if !linked then
        { result := .error .networkUnavailable,
          node := node.originate (node.compose now id kind payload), protocol, sends := [] }
      else
        { (node.originate (node.compose now id kind payload)).push protocol linked
            (node.compose now id kind payload) none with result := .ok id } := by
  rw [broadcast, if_neg (ne_true_of_eq_false h), remember_eq]
  rfl

/-- A broadcast is learned and, if there are peers and the network can be reached, sent to the peers
drawn. -/
theorem broadcast_of_isUp {node : Node} (h : node.isDown = false) (protocol : π)
    (linked : Bool) (now : Nat) (id : MessageId) (kind : String) (payload : Payload) :
    (∃ forwards, (node.broadcast protocol linked now id kind payload).node =
        (node.originate (node.compose now id kind payload)).withForwards forwards) ∧
      Policy.LeadsTo protocol (node.broadcast protocol linked now id kind payload).protocol ∧
      (node.broadcast protocol linked now id kind payload).sends =
        if linked && !node.peers.isEmpty then
          node.batch (node.compose now id kind payload) (Policy.select protocol node.peers none).1
        else [] := by
  obtain ⟨forwards, hpush⟩ := push_eq (node.originate (node.compose now id kind payload)) protocol
    linked (node.compose now id kind payload) none
  rw [broadcast_eq h]
  split
  · rename_i hempty
    rw [hempty, Bool.not_true, Bool.and_false]
    exact ⟨⟨_, rfl⟩, .refl, rfl⟩
  · rename_i hsome
    rw [Bool.not_eq_true] at hsome
    rw [hsome, Bool.not_false, Bool.and_true]
    split
    · rename_i hlinked
      rw [Bool.not_eq_true'] at hlinked
      rw [hlinked]
      exact ⟨⟨_, rfl⟩, .refl, rfl⟩
    · rename_i hlinked
      rw [Bool.not_eq_true', Bool.not_eq_false] at hlinked
      rw [hpush, hlinked]
      exact ⟨⟨forwards, rfl⟩, Policy.LeadsTo.refl.select node.peers none, rfl⟩

/-! ## Messages received -/

/-- A node that is down takes no notice of a message. -/
theorem receive_of_isDown {node : Node} {protocol : π} {linked : Bool} {now : Nat}
    {message : Message} {sender : NodeId} (h : node.isDown = true) :
    node.receive protocol linked now message sender =
      { result := .refused, node, protocol, sends := [] } := by
  rw [receive, if_pos h]

/-- A message that the node has seen is counted, and that is all. -/
theorem receive_of_hasSeen {node : Node} {protocol : π} {linked : Bool} {now : Nat}
    {message : Message} {sender : NodeId} (hup : node.isDown = false)
    (hseen : node.hasSeen message.id = true) :
    node.receive protocol linked now message sender =
      { result := .repeated, node := node.noteRepetition, protocol, sends := [] } := by
  rw [receive, if_neg (ne_true_of_eq_false hup), if_pos hseen]
  rfl

/-- The node learns a new message first; then it pushes it on, if the protocol says so. -/
theorem receive_eq {node : Node} {message : Message} (hup : node.isDown = false)
    (hnew : node.hasSeen message.id = false) (protocol : π) (linked : Bool) (now : Nat)
    (sender : NodeId) :
    node.receive protocol linked now message sender =
      if (Policy.forwards protocol message now).1 then
        { (node.accept message true).push (Policy.forwards protocol message now).2 linked message
            (some sender) with
          result := .accepted }
      else
        { result := .accepted, node := node.accept message false,
          protocol := (Policy.forwards protocol message now).2, sends := [] } := by
  rw [receive, if_neg (ne_true_of_eq_false hup), if_neg (ne_true_of_eq_false hnew)]
  dsimp only
  cases (Policy.forwards protocol message now).1 with
  | false =>
    simp only [Bool.false_eq_true, if_false, accept, List.append_nil]
    rfl
  | true =>
    simp only [if_true, remember_eq]
    rfl

/-- A new message is learned and, if the protocol says so and the network can be reached, sent to
the peers drawn, from among which its sender is excluded. -/
theorem receive_of_isNew {node : Node} {message : Message} (hup : node.isDown = false)
    (hnew : node.hasSeen message.id = false) (protocol : π) (linked : Bool) (now : Nat)
    (sender : NodeId) :
    (node.receive protocol linked now message sender).result = .accepted ∧
      (∃ forwards, (node.receive protocol linked now message sender).node =
        (node.accept message (Policy.forwards protocol message now).1).withForwards forwards) ∧
      Policy.LeadsTo protocol (node.receive protocol linked now message sender).protocol ∧
      (node.receive protocol linked now message sender).sends =
        if (Policy.forwards protocol message now).1 && linked then
          node.batch message
            (Policy.select (Policy.forwards protocol message now).2 node.peers (some sender)).1
        else [] := by
  have hdecided : Policy.LeadsTo protocol (Policy.forwards protocol message now).2 :=
    Policy.LeadsTo.refl.forwards message now
  rw [receive_eq hup hnew]
  cases (Policy.forwards protocol message now).1 with
  | false => exact ⟨rfl, ⟨_, rfl⟩, hdecided, rfl⟩
  | true =>
    obtain ⟨forwards, hpush⟩ := push_eq (node.accept message true)
      (Policy.forwards protocol message now).2 linked message (some sender)
    rw [if_pos rfl, hpush]
    refine ⟨rfl, ⟨forwards, rfl⟩, hdecided.select node.peers (some sender), ?_⟩
    rw [Bool.true_and]
    rfl

/-- A message is new to a node that is live and has not seen it. -/
theorem isNew_receive {node : Node} {protocol : π} {linked : Bool} {now : Nat}
    {message : Message} {sender : NodeId} :
    (node.receive protocol linked now message sender).result.isNew = true ↔
      node.isDown = false ∧ node.hasSeen message.id = false := by
  cases hdown : node.isDown with
  | true =>
    rw [receive_of_isDown hdown]
    exact ⟨fun h => Bool.noConfusion h, fun h => Bool.noConfusion h.1⟩
  | false =>
    cases hseen : node.hasSeen message.id with
    | true =>
      rw [receive_of_hasSeen hdown hseen]
      exact ⟨fun h => Bool.noConfusion h, fun h => Bool.noConfusion h.2⟩
    | false =>
      rw [(receive_of_isNew hdown hseen protocol linked now sender).1]
      exact ⟨fun _ => ⟨rfl, rfl⟩, fun _ => rfl⟩

/-- A message that is not new changes at most the count of messages received again. -/
theorem receive_of_not_isNew {node : Node} {protocol : π} {linked : Bool} {now : Nat}
    {message : Message} {sender : NodeId}
    (h : (node.receive protocol linked now message sender).result.isNew = false) :
    node.receive protocol linked now message sender =
      { result := if node.isDown then .refused else .repeated
        node := if node.isDown then node else node.noteRepetition
        protocol := protocol
        sends := [] } := by
  cases hdown : node.isDown with
  | true => exact receive_of_isDown hdown
  | false =>
    cases hseen : node.hasSeen message.id with
    | true => exact receive_of_hasSeen hdown hseen
    | false => exact absurd (isNew_receive.mpr ⟨hdown, hseen⟩) (ne_true_of_eq_false h)

/-! ## Rumor rounds -/

/-- A node that is down has no rumor rounds. -/
theorem gossipRound_of_isDown {node : Node} {protocol : π} {linked : Bool}
    (h : node.isDown = true) :
    node.gossipRound protocol linked = { result := 0, node, protocol, sends := [] } := by
  rw [gossipRound, if_pos h]

/-- In a rumor round the messages that are remembered are pushed, in their order, and each of them
has one round less. -/
theorem gossipRound_of_isUp {node : Node} (h : node.isDown = false) (protocol : π)
    (linked : Bool) :
    (∃ forwards, (node.gossipRound protocol linked).node =
        ({ node with rumors := ageRumors node.rumors } : Node).withForwards forwards) ∧
      Policy.LeadsTo protocol (node.gossipRound protocol linked).protocol ∧
      (node.gossipRound protocol linked).sends =
        (({ node with rumors := ageRumors node.rumors } : Node).pushAll protocol linked
          (node.rumors.map (·.message))).sends := by
  rw [gossipRound, if_neg (ne_true_of_eq_false h)]
  obtain ⟨hnode, hleads⟩ := pushAll_eq ({ node with rumors := ageRumors node.rumors } : Node)
    protocol linked (node.rumors.map (·.message))
  exact ⟨hnode, hleads, rfl⟩

/-- Two lists of rumors age one by one. -/
theorem ageRumors_append (earlier later : List Rumor) :
    ageRumors (earlier ++ later) = ageRumors earlier ++ ageRumors later := by
  simp only [ageRumors, List.map_append, List.filter_append]

/-- A rumor that ages has one round less, and is gone if it has none left. -/
theorem ageRumors_singleton (message : Message) (roundsLeft : Nat) :
    ageRumors [⟨message, roundsLeft⟩] =
      if 1 < roundsLeft then [⟨message, roundsLeft - 1⟩] else [] := by
  have hleft : 0 < roundsLeft - 1 ↔ 1 < roundsLeft := by omega
  simp only [ageRumors, List.map_cons, List.map_nil, List.filter_cons, List.filter_nil,
    decide_eq_true_eq, hleft]

/-- Rumors have been rumors before the round. -/
theorem mem_ageRumors {rumors : List Rumor} {rumor : Rumor} (h : rumor ∈ ageRumors rumors) :
    ∃ earlier ∈ rumors, earlier.message = rumor.message := by
  rw [ageRumors, List.mem_filter, List.mem_map] at h
  obtain ⟨⟨earlier, hmem, rfl⟩, -⟩ := h
  exact ⟨earlier, hmem, rfl⟩

end Node

end Epidemic
