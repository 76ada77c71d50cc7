import Epidemic.Proofs.Node.Life

/-!
# Batches

A node hands its sends to the network in batches: the sends of one message to the peers that were
drawn for it. What a node counts as forwards is the number of its batches.
-/

namespace Epidemic

/-- The sends of one message that a node hands to the network together. -/
abbrev Batch := List Envelope

namespace Batch

/-- Whether a batch carries the message of an id. -/
def carries (id : MessageId) (batch : Batch) : Bool :=
  batch.any fun envelope => envelope.message.id == id

/-- Whether a batch comes from the node of a name. -/
def isFrom (name : NodeId) (batch : Batch) : Bool :=
  batch.any fun envelope => envelope.sender == name

/-- Whether a batch is one: it is not empty, it brings one message from one node, and it goes to no
more targets than the fanout says. -/
structure IsPush (sender : NodeId) (message : Message) (fanout : Nat) (batch : Batch) : Prop where
  /-- Something is sent. -/
  ne_nil : batch ≠ []
  /-- The fanout is respected. -/
  length_le : batch.length ≤ fanout
  /-- All sends are from the one node, and carry the one message. -/
  uniform : ∀ envelope ∈ batch, envelope.sender = sender ∧ envelope.message = message

variable {sender : NodeId} {message : Message} {fanout : Nat} {batch : Batch}

/-- Who has sent a batch. -/
theorem IsPush.isFrom_iff (h : IsPush sender message fanout batch) {name : NodeId} :
    isFrom name batch = true ↔ sender = name := by
  rw [isFrom, List.any_eq_true]
  constructor
  · rintro ⟨envelope, hmem, heq⟩
    rw [beq_iff_eq] at heq
    exact (h.uniform envelope hmem).1.symm.trans heq
  · intro heq
    obtain ⟨envelope, hmem⟩ := List.exists_mem_of_ne_nil batch h.ne_nil
    exact ⟨envelope, hmem, beq_iff_eq.mpr ((h.uniform envelope hmem).1.trans heq)⟩

/-- Which message a batch carries. -/
theorem IsPush.carries_iff (h : IsPush sender message fanout batch) {id : MessageId} :
    carries id batch = true ↔ message.id = id := by
  rw [carries, List.any_eq_true]
  constructor
  · rintro ⟨envelope, hmem, heq⟩
    rw [beq_iff_eq] at heq
    rw [← (h.uniform envelope hmem).2]
    exact heq
  · intro heq
    obtain ⟨envelope, hmem⟩ := List.exists_mem_of_ne_nil batch h.ne_nil
    refine ⟨envelope, hmem, beq_iff_eq.mpr ?_⟩
    rw [(h.uniform envelope hmem).2]
    exact heq

/-- The batches of some sends: one, unless there are none. -/
def ofSends (sends : List Envelope) : List Batch := if sends.isEmpty then [] else [sends]

/-- How many of the batches carry the message of an id. -/
def handed (id : MessageId) (batches : List Batch) : Nat := batches.countP (carries id)

/-- A batch holds the sends that it is made of. -/
theorem flatten_ofSends (sends : List Envelope) : (ofSends sends).flatten = sends := by
  cases sends <;> simp [ofSends]

/-- Sends are a batch unless there are none. -/
theorem mem_ofSends {sends : List Envelope} {batch : Batch} :
    batch ∈ ofSends sends ↔ batch = sends ∧ sends ≠ [] := by
  cases sends <;> simp [ofSends]

/-- There is one batch at most. -/
theorem length_ofSends_le (sends : List Envelope) : (ofSends sends).length ≤ 1 := by
  unfold ofSends
  split <;> simp

/-- If the sends are a push of a message, there is one batch at most that carries the message of an
id, and none if this is the id of another message. -/
theorem handed_ofSends_le (id : MessageId) {sends : List Envelope}
    (h : ∀ batch ∈ ofSends sends, IsPush sender message fanout batch) :
    handed id (ofSends sends) ≤ if message.id = id then 1 else 0 := by
  rw [handed]
  split
  · exact Nat.le_trans List.countP_le_length (length_ofSends_le sends)
  · rename_i hne
    rw [Nat.le_zero, List.countP_eq_zero]
    intro batch hmem hcarries
    exact hne ((h batch hmem).carries_iff.mp hcarries)

/-- The batches of two lists. -/
theorem handed_append (id : MessageId) (earlier later : List Batch) :
    handed id (earlier ++ later) = handed id earlier + handed id later :=
  List.countP_append

end Batch

namespace Node

variable {π : Type} {node : Node} {message : Message}

/-- Counting a batch counts one, unless it is empty. -/
theorem forwards_countBatch (node : Node) (sends : List Envelope) :
    (node.countBatch sends).stats.forwards =
      node.stats.forwards + (Batch.ofSends sends).length := by
  unfold countBatch Batch.ofSends
  split <;> rfl

variable [Policy π]

/-- The batches of several pushes, one after the other. -/
def batchesOfAll (node : Node) (protocol : π) (linked : Bool) : List Message → List Batch
  | [] => []
  | message :: rest =>
    let first := node.push protocol linked message none
    Batch.ofSends first.sends ++ first.node.batchesOfAll first.protocol linked rest

/-- The batches of several pushes hold their sends. -/
theorem flatten_batchesOfAll (node : Node) (protocol : π) (linked : Bool)
    (messages : List Message) :
    (node.batchesOfAll protocol linked messages).flatten =
      (node.pushAll protocol linked messages).sends := by
  induction messages generalizing node protocol with
  | nil => rfl
  | cons message rest ih =>
    rw [batchesOfAll, pushAll, List.flatten_append, Batch.flatten_ofSends, ih]

/-- Every batch of several pushes is counted. -/
theorem forwards_pushAll (node : Node) (protocol : π) (linked : Bool)
    (messages : List Message) :
    (node.pushAll protocol linked messages).node.stats.forwards =
      node.stats.forwards + (node.batchesOfAll protocol linked messages).length := by
  induction messages generalizing node protocol with
  | nil => rfl
  | cons message rest ih =>
    have hfirst : (node.push protocol linked message none).node.stats.forwards =
        node.stats.forwards +
          (Batch.ofSends (node.push protocol linked message none).sends).length :=
      forwards_countBatch node _
    rw [pushAll, batchesOfAll, List.length_append]
    dsimp only
    rw [ih, hfirst, Nat.add_assoc]

/-- The sends of a message to the peers drawn for it are a batch, unless there are none. -/
theorem isPush_of_mem_ofSends [LawfulPolicy π] {protocol : π} {linked : Bool} {excluded : Option NodeId}
    {batch : Batch}
    (h : batch ∈ Batch.ofSends
      (if linked then node.batch message (Policy.select protocol node.peers excluded).1 else [])) :
    batch.IsPush node.id message (Policy.fanout protocol) := by
  obtain ⟨rfl, hne⟩ := Batch.mem_ofSends.mp h
  cases linked with
  | false => exact absurd rfl hne
  | true =>
    refine ⟨hne, ?_, fun envelope hmem => ?_⟩
    · rw [if_pos rfl, batch, List.length_map]
      exact LawfulPolicy.length_select_le protocol node.peers excluded
    · obtain ⟨target, -, rfl⟩ := mem_batch.mp hmem
      exact ⟨rfl, rfl⟩

/-- The batch of a push is one. -/
theorem isPush_of_mem_ofSends_push [LawfulPolicy π] {protocol : π} {linked : Bool}
    {excluded : Option NodeId} {batch : Batch}
    (h : batch ∈ Batch.ofSends (node.push protocol linked message excluded).sends) :
    batch.IsPush node.id message (Policy.fanout protocol) := by
  obtain ⟨forwards, hpush⟩ := push_eq node protocol linked message excluded
  rw [hpush] at h
  exact isPush_of_mem_ofSends h

/-- Every batch of several pushes is one, and brings one of the messages. -/
theorem exists_isPush_of_mem_batchesOfAll [LawfulPolicy π] {protocol : π} {linked : Bool}
    {messages : List Message} {batch : Batch}
    (h : batch ∈ node.batchesOfAll protocol linked messages) :
    ∃ message ∈ messages, batch.IsPush node.id message (Policy.fanout protocol) := by
  induction messages generalizing node protocol with
  | nil => cases h
  | cons message rest ih =>
    rw [batchesOfAll] at h
    rcases List.mem_append.mp h with hfirst | hrest
    · exact ⟨message, List.mem_cons_self, isPush_of_mem_ofSends_push hfirst⟩
    · obtain ⟨other, hother, hpush⟩ := ih hrest
      obtain ⟨forwards, heq⟩ := push_eq node protocol linked message none
      rw [heq, LawfulPolicy.fanout_select] at hpush
      exact ⟨other, List.mem_cons_of_mem message hother, hpush⟩

/-- Of the batches of several pushes there are no more that carry the message of an id than there
are messages of this id. -/
theorem handed_batchesOfAll_le [LawfulPolicy π] (id : MessageId) (node : Node) (protocol : π)
    (linked : Bool) (messages : List Message) :
    Batch.handed id (node.batchesOfAll protocol linked messages) ≤
      messages.countP (·.id == id) := by
  induction messages generalizing node protocol with
  | nil => exact Nat.le_refl _
  | cons message rest ih =>
    have hfirst : Batch.handed id (Batch.ofSends (node.push protocol linked message none).sends) ≤
        if message.id = id then 1 else 0 :=
      Batch.handed_ofSends_le id fun batch hmem => isPush_of_mem_ofSends_push hmem
    have hrest := ih (node.push protocol linked message none).node
      (node.push protocol linked message none).protocol
    rw [batchesOfAll, Batch.handed_append, List.countP_cons]
    simp only [beq_iff_eq] at hrest ⊢
    omega

/-- A broadcast counts its batch, and changes nothing else of a node that has learned it. -/
theorem node_broadcast (h : node.isDown = false) (protocol : π) (linked : Bool) (now : Nat)
    (id : MessageId) (kind : String) (payload : Payload) :
    (node.broadcast protocol linked now id kind payload).node =
      (node.originate (node.compose now id kind payload)).countBatch
        (node.broadcast protocol linked now id kind payload).sends := by
  rw [broadcast, if_neg (ne_true_of_eq_false h), remember_eq]
  dsimp only [learn]
  split
  · rfl
  · split
    · rfl
    · rfl

/-- A new message counts the batch by which it is passed on, and changes nothing else of a node that
has learned it. -/
theorem node_receive (hup : node.isDown = false) (hnew : node.hasSeen message.id = false)
    (protocol : π) (linked : Bool) (now : Nat) (sender : NodeId) :
    (node.receive protocol linked now message sender).node =
      (node.accept message (Policy.forwards protocol message now).1).countBatch
        (node.receive protocol linked now message sender).sends := by
  rw [receive, if_neg (ne_true_of_eq_false hup), if_neg (ne_true_of_eq_false hnew)]
  dsimp only
  cases (Policy.forwards protocol message now).1 with
  | false =>
    simp only [Bool.false_eq_true, if_false, accept, List.append_nil]
    rfl
  | true =>
    simp only [if_true, remember_eq]
    rfl

end Node

end Epidemic
