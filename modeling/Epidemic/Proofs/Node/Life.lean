import Epidemic.Proofs.Node.Effects

/-!
# The life of a node

What is done to a single node, one thing after the other, each at a reading of the wall clock: it
gets peers, makes broadcasts, is given messages, has rumor rounds, is shut down, or loses its
network. Its protocol may be any policy.
-/

namespace Epidemic

/-- Something that is done to a node. -/
inductive Deed where
  /-- It gets a peer. -/
  | addPeer (peer : NodeId)
  /-- It makes a broadcast. -/
  | broadcast (id : MessageId) (kind : String) (payload : Payload)
  /-- It is given a message by a neighbour. -/
  | receive (message : Message) (sender : NodeId)
  /-- It has a rumor round. -/
  | gossipRound
  /-- It is shut down. -/
  | shutdown
  /-- It cannot reach the network any more. -/
  | unlink

/-- A node with its protocol, and whether it can reach the network. -/
structure Life (π : Type) where
  /-- The node. -/
  node : Node
  /-- Its protocol. -/
  protocol : π
  /-- Whether the node can reach the network. -/
  linked : Bool

namespace Deed

/-- Whether the node is shut down. -/
def isShutdown : Deed → Bool
  | .shutdown => true
  | _ => false

/-- The message that a node of the given name is offered, by itself or by a neighbour. -/
def message? (origin : NodeId) (now : Nat) : Deed → Option Message
  | .broadcast id kind payload => some { id, kind, origin, payload, timestamp := now }
  | .receive message _ => some message
  | _ => none

/-- The id of the message that a node is offered. -/
def messageId? : Deed → Option MessageId
  | .broadcast id _ _ => some id
  | .receive message _ => some message.id
  | _ => none

/-- The id that is generated for a broadcast. -/
def generated? : Deed → Option MessageId
  | .broadcast id _ _ => some id
  | _ => none

/-- The id is that of the message. -/
theorem map_id_message? (deed : Deed) (origin : NodeId) (now : Nat) :
    (deed.message? origin now).map (·.id) = deed.messageId? := by
  cases deed <;> rfl

end Deed

namespace Life

variable {π : Type}

/-- A new node in reach of the network. -/
def new (id : NodeId) (rumorRounds : Nat) (protocol : π) : Life π where
  node := Node.new id rumorRounds
  protocol := protocol
  linked := true

/-- What an operation leaves of node and protocol, and the sends it makes. -/
def follow {α : Type} (life : Life π) (turn : Turn π α) : Life π × List Envelope :=
  ({ life with node := turn.node, protocol := turn.protocol }, turn.sends)

variable [Policy π]

/-- What is done to a node at a reading of the wall clock, and the sends that the node makes. -/
def step (life : Life π) (now : Nat) : Deed → Life π × List Envelope
  | .addPeer peer => ({ life with node := (life.node.addPeer peer).2 }, [])
  | .broadcast id kind payload =>
    life.follow (life.node.broadcast life.protocol life.linked now id kind payload)
  | .receive message sender =>
    life.follow (life.node.receive life.protocol life.linked now message sender)
  | .gossipRound => life.follow (life.node.gossipRound life.protocol life.linked)
  | .shutdown => ({ life with node := life.node.shutdown }, [])
  | .unlink => ({ life with linked := false }, [])

/-- What is done to a node one after the other, each time at a reading of the wall clock. -/
def run (life : Life π) (deeds : List (Nat × Deed)) : Life π :=
  deeds.foldl (fun life entry => (life.step entry.1 entry.2).1) life

/-- Whether every broadcast gets an id that the node has not seen at that time. -/
def GeneratesFresh : Life π → List (Nat × Deed) → Prop
  | _, [] => True
  | life, (now, deed) :: rest =>
    (∀ id ∈ deed.generated?, life.node.hasSeen id = false) ∧
      (life.step now deed).1.GeneratesFresh rest

instance decidableGeneratesFresh : (life : Life π) → (entries : List (Nat × Deed)) →
    Decidable (life.GeneratesFresh entries)
  | _, [] => inferInstanceAs (Decidable True)
  | life, (now, deed) :: rest =>
    have := decidableGeneratesFresh (life.step now deed).1 rest
    inferInstanceAs (Decidable ((∀ id ∈ deed.generated?, life.node.hasSeen id = false) ∧
      (life.step now deed).1.GeneratesFresh rest))

/-- What can come of something that is done to a node: the life afterwards and the sends made. -/
inductive Course (life : Life π) (now : Nat) (deed : Deed) : Life π → List Envelope → Prop where
  /-- The node learns nothing and sends nothing. It is down, or it is neither offered a new message
  nor given a rumor round. -/
  | still {after : Life π}
    (hreason : life.node.isDown = true ∨ deed ≠ .gossipRound ∧
      ∀ message, deed.message? life.node.id now = some message →
        (∃ sender, deed = .receive message sender) ∧ life.node.hasSeen message.id = true)
    (hnode : ∃ peers isDown duplicates, after.node =
      { life.node with peers, isDown, stats := { life.node.stats with duplicates } })
    (hdown : after.node.isDown = (life.node.isDown || deed.isShutdown))
    (hprotocol : after.protocol = life.protocol) :
    Course life now deed after []
  /-- The node makes a broadcast. -/
  | originate {after : Life π} {id : MessageId} {kind : String} {payload : Payload} {forwards : Nat}
    (hdeed : deed = .broadcast id kind payload) (hup : life.node.isDown = false)
    (hnode : after.node =
      (life.node.originate (life.node.compose now id kind payload)).withForwards forwards)
    (hleads : Policy.LeadsTo life.protocol after.protocol) :
    Course life now deed after
      (if life.linked && !life.node.peers.isEmpty then
        life.node.batch (life.node.compose now id kind payload)
          (Policy.select life.protocol life.node.peers none).1
      else [])
  /-- The node accepts a new message. -/
  | accept {after : Life π} {message : Message} {sender : NodeId} {forwards : Nat}
    (hdeed : deed = .receive message sender) (hup : life.node.isDown = false)
    (hnew : life.node.hasSeen message.id = false)
    (hnode : after.node =
      (life.node.accept message (Policy.forwards life.protocol message now).1).withForwards forwards)
    (hleads : Policy.LeadsTo life.protocol after.protocol) :
    Course life now deed after
      (if (Policy.forwards life.protocol message now).1 && life.linked then
        life.node.batch message
          (Policy.select (Policy.forwards life.protocol message now).2 life.node.peers
            (some sender)).1
      else [])
  /-- The node has a rumor round. -/
  | round {after : Life π} {forwards : Nat}
    (hdeed : deed = .gossipRound) (hup : life.node.isDown = false)
    (hnode : after.node =
      ({ life.node with rumors := Node.ageRumors life.node.rumors } : Node).withForwards forwards)
    (hleads : Policy.LeadsTo life.protocol after.protocol) :
    Course life now deed after
      (({ life.node with rumors := Node.ageRumors life.node.rumors } : Node).pushAll life.protocol
        life.linked (life.node.rumors.map (·.message))).sends

variable (life : Life π) (now : Nat)

/-- Nothing comes of what offers no message and is no rumor round, if it leaves the rest of the node
alone. -/
theorem course_of_no_offer {life after : Life π} {now : Nat} {deed : Deed}
    (hround : deed ≠ .gossipRound) (hnone : deed.message? life.node.id now = none)
    (hnode : ∃ peers isDown duplicates, after.node =
      { life.node with peers, isDown, stats := { life.node.stats with duplicates } })
    (hdown : after.node.isDown = (life.node.isDown || deed.isShutdown))
    (hprotocol : after.protocol = life.protocol) : Course life now deed after [] := by
  refine .still (.inr ⟨hround, fun message hmessage => ?_⟩) hnode hdown hprotocol
  rw [hnone] at hmessage
  cases hmessage

/-- What comes of a new peer. -/
theorem course_addPeer (peer : NodeId) :
    Course life now (.addPeer peer) (life.step now (.addPeer peer)).1
      (life.step now (.addPeer peer)).2 := by
  refine course_of_no_offer Deed.noConfusion rfl ?_ ?_ rfl
  · simp only [step, Node.addPeer]
    split
    · exact ⟨_, _, _, rfl⟩
    · exact ⟨_, _, _, rfl⟩
  · simp only [step, Node.addPeer]
    split <;> exact (Bool.or_false _).symm

/-- What comes of a broadcast. -/
theorem course_broadcast (id : MessageId) (kind : String) (payload : Payload) :
    Course life now (.broadcast id kind payload) (life.step now (.broadcast id kind payload)).1
      (life.step now (.broadcast id kind payload)).2 := by
  cases hdown : life.node.isDown with
  | true =>
    simp only [step, follow, Node.broadcast_of_isDown hdown]
    exact .still (.inl hdown) ⟨_, _, _, rfl⟩ (Bool.or_false _).symm rfl
  | false =>
    obtain ⟨⟨forwards, hnode⟩, hleads, hsends⟩ := Node.broadcast_of_isUp hdown
      life.protocol life.linked now id kind payload
    simp only [step, follow, hsends]
    exact .originate rfl hdown hnode hleads

/-- What comes of a message received. -/
theorem course_receive (message : Message) (sender : NodeId) :
    Course life now (.receive message sender) (life.step now (.receive message sender)).1
      (life.step now (.receive message sender)).2 := by
  cases hdown : life.node.isDown with
  | true =>
    simp only [step, follow, Node.receive_of_isDown hdown]
    exact .still (.inl hdown) ⟨_, _, _, rfl⟩ (Bool.or_false _).symm rfl
  | false =>
    cases hseen : life.node.hasSeen message.id with
    | true =>
      simp only [step, follow, Node.receive_of_hasSeen hdown hseen]
      refine .still (.inr ⟨Deed.noConfusion, fun other h => ?_⟩) ⟨_, _, _, rfl⟩
        (Bool.or_false _).symm rfl
      cases h
      exact ⟨⟨sender, rfl⟩, hseen⟩
    | false =>
      obtain ⟨-, ⟨forwards, hnode⟩, hleads, hsends⟩ := Node.receive_of_isNew hdown
        hseen life.protocol life.linked now sender
      simp only [step, follow, hsends]
      exact .accept rfl hdown hseen hnode hleads

/-- What comes of a rumor round. -/
theorem course_gossipRound :
    Course life now .gossipRound (life.step now .gossipRound).1
      (life.step now .gossipRound).2 := by
  cases hdown : life.node.isDown with
  | true =>
    simp only [step, follow, Node.gossipRound_of_isDown hdown]
    exact .still (.inl hdown) ⟨_, _, _, rfl⟩ (Bool.or_false _).symm rfl
  | false =>
    obtain ⟨⟨forwards, hnode⟩, hleads, hsends⟩ :=
      Node.gossipRound_of_isUp hdown life.protocol life.linked
    simp only [step, follow, hsends]
    exact .round rfl hdown hnode hleads

/-- Whatever is done to a node, one of these comes of it. -/
theorem course_step (deed : Deed) :
    Course life now deed (life.step now deed).1 (life.step now deed).2 := by
  cases deed with
  | addPeer peer => exact life.course_addPeer now peer
  | broadcast id kind payload => exact life.course_broadcast now id kind payload
  | receive message sender => exact life.course_receive now message sender
  | gossipRound => exact life.course_gossipRound now
  | shutdown =>
    exact course_of_no_offer Deed.noConfusion rfl ⟨_, _, _, rfl⟩ (Bool.or_true _).symm rfl
  | unlink =>
    exact course_of_no_offer Deed.noConfusion rfl ⟨_, _, _, rfl⟩ (Bool.or_false _).symm rfl

/-- Whatever comes of it, the node keeps its name and its number of rumor rounds, and its protocol is
one that comes of the protocol before. -/
theorem Course.keeps {life after : Life π} {now : Nat} {deed : Deed} {sends : List Envelope}
    (h : Course life now deed after sends) :
    after.node.id = life.node.id ∧ after.node.rumorRounds = life.node.rumorRounds ∧
      Policy.LeadsTo life.protocol after.protocol := by
  cases h with
  | still _ hnode _ hprotocol =>
    obtain ⟨peers, isDown, duplicates, hnode⟩ := hnode
    rw [hnode, hprotocol]
    exact ⟨rfl, rfl, .refl⟩
  | originate _ _ hnode hleads =>
    rw [hnode]
    exact ⟨rfl, rfl, hleads⟩
  | accept _ _ _ hnode hleads =>
    rw [hnode]
    exact ⟨rfl, rfl, hleads⟩
  | round _ _ hnode hleads =>
    rw [hnode]
    exact ⟨rfl, rfl, hleads⟩

/-- The same for everything that is done to a node. -/
theorem run_keeps (life : Life π) (entries : List (Nat × Deed)) :
    (life.run entries).node.id = life.node.id ∧
      (life.run entries).node.rumorRounds = life.node.rumorRounds ∧
      Policy.LeadsTo life.protocol (life.run entries).protocol := by
  induction entries generalizing life with
  | nil => exact ⟨rfl, rfl, .refl⟩
  | cons entry rest ih =>
    obtain ⟨hid, hrounds, hleads⟩ := (course_step life entry.1 entry.2).keeps
    obtain ⟨hid', hrounds', hleads'⟩ := ih (life.step entry.1 entry.2).1
    exact ⟨hid'.trans hid, hrounds'.trans hrounds, hleads.trans hleads'⟩

/-- Whatever comes of it, the node has seen at most one message more, the one that it was offered. -/
theorem Course.seen_eq {life after : Life π} {now : Nat} {deed : Deed} {sends : List Envelope}
    (h : Course life now deed after sends) :
    after.node.seen = life.node.seen ∨
      ∃ id, deed.messageId? = some id ∧ after.node.seen = id :: life.node.seen := by
  cases h with
  | still _ hnode _ _ =>
    obtain ⟨peers, isDown, duplicates, hnode⟩ := hnode
    rw [hnode]
    exact Or.inl rfl
  | originate hdeed _ hnode _ =>
    rw [hdeed, hnode]
    exact Or.inr ⟨_, rfl, rfl⟩
  | accept hdeed _ _ hnode _ =>
    rw [hdeed, hnode]
    exact Or.inr ⟨_, rfl, rfl⟩
  | round _ _ hnode _ =>
    rw [hnode]
    exact Or.inl rfl

/-- What a node has learned is the message that it was offered. -/
theorem Course.messageId?_of_learned {life after : Life π} {now : Nat} {deed : Deed}
    {sends : List Envelope} (h : Course life now deed after sends) {id : MessageId}
    (hseen : id ∈ after.node.seen) (hunseen : id ∉ life.node.seen) :
    deed.messageId? = some id := by
  rcases h.seen_eq with hsame | ⟨other, hoffered, hone⟩
  · rw [hsame] at hseen
    exact absurd hseen hunseen
  · rw [hone] at hseen
    rw [hoffered, (List.mem_cons.mp hseen).resolve_right hunseen]

end Life

end Epidemic
