import Epidemic.Proofs.Node.Life
import Epidemic.Proofs.Selection
import Mathlib.Logic.Function.Basic

/-!
# Nodes that are blind to content

What a message says is taken from it: its label, its values and its time are blanked, and its id is
replaced by another one. A node that has dealt with blank messages only looks as a node would look that
has dealt with the messages themselves, when all content is taken from it afterwards. So content has no
part in what nodes do, as long as different ids are replaced by different ones and no protocol looks at
the age of a message.
-/

namespace Epidemic

section Blank

variable (rename : MessageId → MessageId)

/-- A message under another id, without its content. -/
def Message.blank (message : Message) : Message where
  id := rename message.id
  kind := ""
  origin := message.origin
  payload := []
  timestamp := 0

/-- A message that is kept, without its content. -/
def Rumor.blank (rumor : Rumor) : Rumor := ⟨rumor.message.blank rename, rumor.roundsLeft⟩

/-- A send without the content of its message. -/
def Envelope.blank (envelope : Envelope) : Envelope :=
  ⟨envelope.sender, envelope.target, envelope.message.blank rename⟩

/-- A node without the values that it has learned, and without the content of what it keeps. -/
def Node.blank (node : Node) : Node :=
  { node with
    seen := node.seen.map rename
    state := []
    rumors := node.rumors.map (Rumor.blank rename) }

/-- What an operation comes to, without content. -/
def Turn.blank {π α : Type} (turn : Turn π α) : Turn π α :=
  { turn with node := turn.node.blank rename, sends := turn.sends.map (Envelope.blank rename) }

/-- A life without content. -/
def Life.blank {π : Type} (life : Life π) : Life π := { life with node := life.node.blank rename }

/-- Something that is done to a node, without content. -/
def Deed.blank : Deed → Deed
  | .addPeer peer => .addPeer peer
  | .broadcast id _ _ => .broadcast (rename id) "" []
  | .receive message sender => .receive (message.blank rename) sender
  | .gossipRound => .gossipRound
  | .shutdown => .shutdown
  | .unlink => .unlink

end Blank

namespace Node

variable {σ : Type} {rename : MessageId → MessageId}

/-- Peers have nothing to do with content. -/
theorem blank_addPeer (node : Node) (peer : NodeId) :
    (node.blank rename).addPeer peer = ((node.addPeer peer).1, (node.addPeer peer).2.blank rename) := by
  by_cases h : (peer == node.id || node.peers.contains peer) = true
  · rw [addPeer, addPeer, if_pos h]
    exact if_pos h
  · rw [addPeer, addPeer, if_neg h]
    exact if_neg h

/-- A blank message has been seen if the message has been. -/
theorem hasSeen_blank (hrename : Function.Injective rename) (node : Node) (id : MessageId) :
    (node.blank rename).hasSeen (rename id) = node.hasSeen id := by
  rw [Bool.eq_iff_iff]
  simp [hasSeen, blank, hrename.eq_iff]

/-- A message is kept without its content. -/
theorem blank_keepsakes (node : Node) (message : Message) :
    (node.blank rename).keepsakes (message.blank rename) =
      (node.keepsakes message).map (Rumor.blank rename) := by
  unfold keepsakes
  rw [show (node.blank rename).rumorRounds = node.rumorRounds from rfl]
  split <;> rfl

/-- The message of a broadcast is learned without its content. -/
theorem blank_originate (node : Node) (message : Message) :
    (node.blank rename).originate (message.blank rename) =
      (node.originate message).blank rename := by
  rw [originate, blank_keepsakes]
  simp [originate, blank, Message.blank, Json.Members.merge]

/-- A message that is received is learned without its content. -/
theorem blank_accept (node : Node) (message : Message) (isKept : Bool) :
    (node.blank rename).accept (message.blank rename) isKept =
      (node.accept message isKept).blank rename := by
  rw [accept, blank_keepsakes]
  cases isKept <;> simp [accept, blank, Message.blank, Json.Members.merge]

/-- The sends of a batch without their content. -/
theorem blank_batch (node : Node) (message : Message) (targets : List NodeId) :
    (node.blank rename).batch (message.blank rename) targets =
      (node.batch message targets).map (Envelope.blank rename) := by
  simp [batch, blank, Envelope.blank]

/-- Batches are counted whatever they say. -/
theorem blank_countBatch (node : Node) (batch : List Envelope) :
    (node.blank rename).countBatch (batch.map (Envelope.blank rename)) =
      (node.countBatch batch).blank rename := by
  cases batch <;> simp [countBatch, blank]

/-- Rumors age whatever they say. -/
theorem blank_ageRumors (rumors : List Rumor) :
    ageRumors (rumors.map (Rumor.blank rename)) = (ageRumors rumors).map (Rumor.blank rename) := by
  simp [ageRumors, List.filter_map, Function.comp_def, Rumor.blank]

variable [Random.Chooser σ]

/-- A message is pushed whatever it says. -/
theorem blank_push (node : Node) (protocol : Protocol σ) (linked : Bool) (message : Message)
    (excluded : Option NodeId) :
    (node.blank rename).push protocol linked (message.blank rename) excluded =
      (node.push protocol linked message excluded).blank rename := by
  have hsends : (if linked then (node.blank rename).batch (message.blank rename)
        (Policy.select protocol node.peers excluded).1 else []) =
      (if linked then node.batch message (Policy.select protocol node.peers excluded).1
        else []).map (Envelope.blank rename) := by
    cases linked <;> simp [blank_batch]
  rw [push]
  dsimp only
  rw [show (node.blank rename).peers = node.peers from rfl, hsends, blank_countBatch]
  rfl

/-- Messages are pushed one after the other whatever they say. -/
theorem blank_pushAll (node : Node) (protocol : Protocol σ) (linked : Bool)
    (messages : List Message) :
    (node.blank rename).pushAll protocol linked (messages.map (Message.blank rename)) =
      (node.pushAll protocol linked messages).blank rename := by
  induction messages generalizing node protocol with
  | nil => rfl
  | cons message rest ih =>
    rw [List.map_cons, pushAll, pushAll, blank_push]
    dsimp only [Turn.blank]
    rw [ih, List.map_append]
    rfl

/-- A broadcast is made whatever it says. -/
theorem blank_broadcast (node : Node) (protocol : Protocol σ) (linked : Bool) (now : Nat)
    (id : MessageId) (kind : String) (payload : Payload) :
    (node.blank rename).broadcast protocol linked 0 (rename id) "" [] =
      let turn := (node.broadcast protocol linked now id kind payload).blank rename
      { turn with result := turn.result.map rename } := by
  cases hdown : node.isDown with
  | true =>
    have hblank : (node.blank rename).isDown = true := hdown
    rw [broadcast_of_isDown hdown, broadcast_of_isDown hblank]
    rfl
  | false =>
    have hblank : (node.blank rename).isDown = false := hdown
    have hmessage : (node.blank rename).compose 0 (rename id) "" [] =
        (node.compose now id kind payload).blank rename := rfl
    have hpeers : (node.blank rename).peers = node.peers := rfl
    rw [broadcast_eq hdown, broadcast_eq hblank, hmessage, blank_originate, hpeers, blank_push]
    split
    · rfl
    · split <;> rfl

/-- A message is taken in whatever it says, if the protocol does not look at its age. -/
theorem blank_receive (hrename : Function.Injective rename) (node : Node) {protocol : Protocol σ}
    (hage : protocol.maxAge = none) (linked : Bool) (now : Nat) (message : Message)
    (sender : NodeId) :
    (node.blank rename).receive protocol linked 0 (message.blank rename) sender =
      (node.receive protocol linked now message sender).blank rename := by
  have hseen : (node.blank rename).hasSeen (message.blank rename).id = node.hasSeen message.id :=
    hasSeen_blank hrename node message.id
  cases hdown : node.isDown with
  | true =>
    have hblank : (node.blank rename).isDown = true := hdown
    rw [receive_of_isDown hdown, receive_of_isDown hblank]
    rfl
  | false =>
    have hblank : (node.blank rename).isDown = false := hdown
    cases hknown : node.hasSeen message.id with
    | true =>
      rw [receive_of_hasSeen hdown hknown, receive_of_hasSeen hblank (hseen.trans hknown)]
      rfl
    | false =>
      have hforwards : ∀ (other : Message) (time : Nat),
          Policy.forwards protocol other time = (true, protocol) := by
        intro other time
        rw [Protocol.policy_forwards, Protocol.forwards, hage]
      rw [receive_eq hdown hknown, receive_eq hblank (hseen.trans hknown), hforwards, hforwards,
        blank_accept, blank_push]
      rfl

/-- A rumor round is held whatever the messages say. -/
theorem blank_gossipRound (node : Node) (protocol : Protocol σ) (linked : Bool) :
    (node.blank rename).gossipRound protocol linked =
      (node.gossipRound protocol linked).blank rename := by
  cases hdown : node.isDown with
  | true =>
    have hblank : (node.blank rename).isDown = true := hdown
    rw [gossipRound_of_isDown hdown, gossipRound_of_isDown hblank]
    rfl
  | false =>
    have hblank : (node.blank rename).isDown = false := hdown
    have haged : ({ node.blank rename with rumors := ageRumors (node.blank rename).rumors } : Node) =
        ({ node with rumors := ageRumors node.rumors } : Node).blank rename := by
      simp [blank, blank_ageRumors]
    have hdue : (node.blank rename).rumors.map (·.message) =
        (node.rumors.map (·.message)).map (Message.blank rename) := by
      simp [blank, Rumor.blank]
    rw [gossipRound, if_neg (ne_true_of_eq_false hblank), gossipRound,
      if_neg (ne_true_of_eq_false hdown), haged, hdue]
    dsimp only
    rw [blank_pushAll, List.length_map]
    rfl

end Node

namespace Life

variable {σ : Type} [Random.Chooser σ] {rename : MessageId → MessageId}

/-- Whatever is done to a node, its content has no part in it, if the protocol does not look at the age
of messages. -/
theorem blank_step (hrename : Function.Injective rename) (life : Life (Protocol σ))
    (hage : life.protocol.maxAge = none) (now : Nat) (deed : Deed) :
    (life.blank rename).step 0 (deed.blank rename) =
      ((life.step now deed).1.blank rename, (life.step now deed).2.map (Envelope.blank rename)) := by
  cases deed with
  | addPeer peer =>
    simp only [Deed.blank, step, blank, Node.blank_addPeer]
    rfl
  | broadcast id kind payload =>
    simp only [Deed.blank, step, blank, follow, Node.blank_broadcast life.node life.protocol
      life.linked now id kind payload]
    rfl
  | receive message sender =>
    simp only [Deed.blank, step, blank, follow, Node.blank_receive hrename life.node hage life.linked
      now message sender]
    rfl
  | gossipRound =>
    simp only [Deed.blank, step, blank, follow, Node.blank_gossipRound]
    rfl
  | shutdown | unlink => rfl

end Life

end Epidemic
