import Epidemic.Proofs.World.Counters
import Epidemic.Proofs.World.Reliable

/-!
# When nothing can arrive

A network that loses every send puts no message in transit, and neither does a network without a
clock, which finds every send undeliverable unless it loses it. All traffic goes on in either of them:
nodes draw peers, hand over sends and repeat them in their rumor rounds, and all of it is counted. But
no message ever arrives, and so no node learns anything but what it has broadcast itself.
-/

namespace Epidemic

/-- What keeps every message from arriving. -/
inductive Obstacle where
  /-- Every send is lost. -/
  | loss
  /-- There is no clock by which a message could be delivered. -/
  | noClock

namespace Obstacle

variable {σ : Type} {k : Nat}

/-- Whether a network has the obstacle. -/
def Blocks (obstacle : Obstacle) (network : Network σ) : Prop :=
  match obstacle with
  | .loss => network.config.dropRate = Binary64.one
  | .noClock => network.hasClock = false

/-- Whether a move leaves the obstacle in its place. -/
def Withstands : Obstacle → Move k → Prop
  | .loss, .setDropRate rate => rate = Binary64.one ∨ rate.isProbability = false
  | .noClock, .setClock hasClock => hasClock = false
  | _, _ => True

end Obstacle

/-- The messages of a list that come from the node of a name. -/
def Message.madeBy (name : NodeId) (messages : List Message) : List Message :=
  messages.filter fun message => message.origin == name

/-- Whether a network with an obstacle has delivered nothing. -/
structure Network.Blocked {σ : Type} (obstacle : Obstacle) (network : Network σ) : Prop where
  /-- The obstacle is there. -/
  blocks : obstacle.Blocks network
  /-- Nothing was delivered. -/
  delivered : network.stats.delivered = 0
  /-- If every send is lost, none was undeliverable. -/
  undeliverable : obstacle = .loss → network.stats.undeliverable = 0

namespace Network

variable {σ : Type} {obstacle : Obstacle} {network : Network σ}

/-- What leaves the obstacle in its place and counts nothing lets nothing through. -/
theorem Blocked.congr (h : network.Blocked obstacle) {other : Network σ}
    (hblocks : obstacle.Blocks other) (hstats : other.stats = network.stats) :
    other.Blocked obstacle where
  blocks := hblocks
  delivered := by rw [hstats, h.delivered]
  undeliverable hloss := by rw [hstats, h.undeliverable hloss]

variable [Random.Source σ]

/-- If the loss rate is one, a send is lost, and nothing is drawn for it. -/
theorem roll_of_one {config : NetworkConfig} (h : config.dropRate = Binary64.one) (generator : σ) :
    roll config generator = (none, generator) := by
  have hpositive : Binary64.one.isPositive = true := by decide
  simp [roll, h, hpositive, Random.chance]

/-- A send is lost, or it is undeliverable because there is no clock. -/
theorem Blocked.fate (h : network.Blocked obstacle) :
    network.dispatch.1 = .dropped ∨ obstacle = .noClock ∧ network.dispatch.1 = .unscheduled := by
  have hblocks := h.blocks
  cases obstacle with
  | loss =>
    rw [dispatch, roll_of_one hblocks]
    exact Or.inl rfl
  | noClock =>
    have hclock : network.hasClock = false := hblocks
    rw [dispatch]
    cases hroll : roll network.config network.generator with
    | mk delay generator =>
      cases delay with
      | none => exact Or.inl rfl
      | some delay =>
        refine Or.inr ⟨rfl, ?_⟩
        dsimp only
        rw [if_neg (ne_true_of_eq_false hclock)]

/-- No send is let through. -/
theorem Blocked.dispatch (h : network.Blocked obstacle) : network.dispatch.2.Blocked obstacle := by
  obtain ⟨generator, stats, hkeeps⟩ := network.dispatch_keeps
  obtain ⟨-, hcount⟩ := network.stats_dispatch
  have hblocks := h.blocks
  refine ⟨?_, ?_, fun hloss => ?_⟩
  · rw [hkeeps]
    cases obstacle <;> exact hblocks
  · have hdelivered := hcount .delivered
    rcases h.fate with hfate | ⟨-, hfate⟩ <;> rw [hfate] at hdelivered <;>
      exact hdelivered.trans h.delivered
  · have hundeliverable := hcount .undeliverable
    rcases h.fate with hfate | ⟨hclock, -⟩
    · rw [hfate] at hundeliverable
      exact hundeliverable.trans (h.undeliverable hloss)
    · rw [hclock] at hloss
      cases hloss

/-- No send is put in transit. -/
theorem Blocked.inTransit_eq_nil (h : network.Blocked obstacle) (parcel : Parcel) :
    network.dispatch.1.inTransit parcel = [] := by
  rcases h.fate with hfate | ⟨-, hfate⟩ <;> rw [hfate] <;> rfl

end Network

namespace World

variable {σ : Type} {k : Nat}

/-- Whether no message is in transit in a world whose network has an obstacle, and none ever was
delivered. -/
structure Blocked (obstacle : Obstacle) (world : World σ k) : Prop where
  /-- The network lets nothing through. -/
  network : world.network.Blocked obstacle
  /-- No message is in transit. -/
  pending : world.pending = []

variable {obstacle : Obstacle} {world after : World σ k}

/-- What happens besides the network and the messages in transit lets nothing through. -/
theorem Blocked.still (h : world.Blocked obstacle) (hnetwork : after.network = world.network)
    (hpending : after.pending.Perm world.pending) : after.Blocked obstacle := by
  refine ⟨?_, ?_⟩
  · rw [hnetwork]
    exact h.network
  · rw [h.pending] at hpending
    exact hpending.eq_nil

/-- What happens to the network lets nothing through if it leaves the obstacle in its place and counts
nothing. -/
theorem Blocked.withNetwork (h : world.Blocked obstacle) {network : Network σ}
    (hblocks : obstacle.Blocks network) (hstats : network.stats = world.network.stats) :
    (world.withNetwork network).Blocked obstacle :=
  ⟨h.network.congr hblocks hstats, h.pending⟩

variable [Random.Source σ]

/-- Nothing is let through when sends are handed over. -/
theorem Blocked.sendAll (h : world.Blocked obstacle) (envelopes : List Envelope) :
    (world.sendAll envelopes).Blocked obstacle := by
  induction envelopes generalizing world with
  | nil => exact h
  | cons envelope rest ih =>
    obtain ⟨agenda, heq, hpending⟩ := world.send_eq envelope
    rw [h.network.inTransit_eq_nil, h.pending] at hpending
    have hsend : (world.send envelope).Blocked obstacle := by
      rw [heq]
      exact ⟨h.network.dispatch, hpending.eq_nil⟩
    exact ih hsend

/-- Nothing is let through when something is done to a node. -/
theorem Blocked.acted (h : world.Blocked obstacle) (index : Nat) (deed : Deed) :
    (world.acted index deed).Blocked obstacle := by
  cases hat : world.members[index]? with
  | none =>
    rw [acted_of_none hat]
    exact h
  | some member =>
    have hreplaced : (world.replace index
        { member with node := ((world.lifeOf member).step world.wall deed).1.node }
        ((world.lifeOf member).step world.wall deed).1.protocol).Blocked obstacle :=
      h.still rfl (List.Perm.refl _)
    rw [acted_of_some hat]
    exact hreplaced.sendAll _

/-- Nothing is let through in rumor rounds. -/
theorem Blocked.roundOf (h : world.Blocked obstacle) (indexes : List Nat) :
    (world.roundOf indexes).Blocked obstacle := by
  induction indexes generalizing world with
  | nil => exact h
  | cons index rest ih =>
    rcases world.roundOf_cons index rest with ⟨-, heq⟩ | ⟨member, -, heq⟩
    · rw [heq]
      exact ih h
    · rw [heq]
      exact ih ((h.acted index .gossipRound).still rfl (List.Perm.refl _))

/-- Nothing is let through when a task has its turn: it can only be a rumor round. -/
theorem Blocked.takeTurn (h : world.Blocked obstacle) (position : Nat) :
    (world.takeTurn position).Blocked obstacle := by
  cases hat : world.agenda.ready[position]? with
  | none =>
    simp only [World.takeTurn, hat]
    exact h
  | some task =>
    have hpending := perm_pending_withReady hat
    rw [h.pending] at hpending
    simp only [World.takeTurn, hat]
    cases task with
    | parcel delay parcel => cases hpending.nil_eq
    | rounds interval =>
      have hready : (world.withReady (world.agenda.ready.eraseIdx position)).Blocked obstacle :=
        ⟨h.network, hpending.symm.eq_nil⟩
      rw [perform, roundOfAll]
      split
      · exact hready
      · exact (hready.roundOf _).still rfl (perm_pending_schedule _ interval (.rounds interval))

/-- No internal move that leaves the obstacle in its place lets anything through. -/
theorem Blocked.step (h : world.Blocked obstacle) {move : Move k} (hinternal : move.isInternal = true)
    (hwithstands : obstacle.Withstands move) : (world.step move).Blocked obstacle := by
  have hblocks := h.network.blocks
  cases move with
  | broadcast index id kind payload =>
    rw [World.step, afterwards_broadcast]
    exact h.acted index _
  | gossipRound index =>
    rw [World.step, afterwards_gossipRound]
    exact h.acted index _
  | addPeer index peer =>
    rw [World.step, world.modifyNode_eq_acted index _ (.addPeer peer) fun _ _ => rfl]
    exact h.acted index _
  | shutdown index =>
    rw [World.step, world.modifyNode_eq_acted index _ .shutdown fun _ _ => rfl]
    exact h.acted index _
  | unregister _ | setLatency _ | setJitter _ | close =>
    refine h.withNetwork ?_ rfl
    cases obstacle <;> exact hblocks
  | setClock hasClock =>
    refine h.withNetwork ?_ rfl
    cases obstacle with
    | loss => exact hblocks
    | noClock => exact hwithstands
  | setDropRate rate =>
    simp only [World.step, Network.setDropRate, NetworkConfig.checkDropRate]
    split
    · rename_i hvalid
      refine h.withNetwork ?_ rfl
      cases obstacle with
      | loss => exact hwithstands.resolve_right (ne_false_of_eq_true hvalid)
      | noClock => exact hblocks
    · exact h
  | startRounds interval => exact h.still rfl (perm_pending_schedule world interval _)
  | stopRounds => exact h.still rfl (List.Perm.of_eq (pending_stopRounds world))
  | turn position => exact h.takeTurn position
  | fire => exact h.still rfl (List.Perm.of_eq (pending_fire world))
  | pass _ | setWall _ => exact h.still rfl (List.Perm.refl _)
  | send | receive | join | register => cases hinternal

/-- Nor do such moves one after the other. -/
theorem Blocked.run (h : world.Blocked obstacle) {moves : List (Move k)}
    (hinternal : ∀ move ∈ moves, move.isInternal = true)
    (hwithstands : ∀ move ∈ moves, obstacle.Withstands move) : (world.run moves).Blocked obstacle :=
  run_preserves (fun _ move hmem h => h.step (hinternal move hmem) (hwithstands move hmem)) h

end World

/-- Whether a node knows the broadcasts that it has made, and nothing else: it has received no message
at all. -/
structure Node.Secluded (made : List Message) (node : Node) : Prop where
  /-- It has seen its own broadcasts. -/
  seen : node.seen = ((Message.madeBy node.id made).map (·.id)).reverse
  /-- It has learned their values. -/
  state : node.state = Message.mergeAll [] (Message.madeBy node.id made)
  /-- It has received nothing for the first time. -/
  received : node.stats.received = 0
  /-- It has received nothing again. -/
  duplicates : node.stats.duplicates = 0

namespace Node

variable {made more : List Message} {node : Node}

/-- What others broadcast does not matter to a node that knows nothing but its own broadcasts. -/
theorem Secluded.append (h : node.Secluded made) (hothers : ∀ message ∈ more, message.origin ≠ node.id) :
    node.Secluded (made ++ more) := by
  have hnone : Message.madeBy node.id more = [] :=
    List.filter_eq_nil_iff.mpr fun message hmem heq => hothers message hmem (beq_iff_eq.mp heq)
  have hmade : Message.madeBy node.id (made ++ more) = Message.madeBy node.id made := by
    rw [Message.madeBy, List.filter_append, ← Message.madeBy, ← Message.madeBy, hnone, List.append_nil]
  refine ⟨?_, ?_, h.received, h.duplicates⟩
  · rw [hmade, h.seen]
  · rw [hmade, h.state]

end Node

namespace Life

variable {π : Type}

/-- A broadcast comes from the node that makes it. -/
theorem origin_of_originated {life : Life π} {now : Nat} {deed : Deed} {message : Message}
    (h : life.originated? now deed = some message) : message.origin = life.node.id := by
  cases deed with
  | broadcast id kind payload =>
    rw [originated?] at h
    split at h
    · cases h
    · cases h
      rfl
  | addPeer | receive | gossipRound | shutdown | unlink => cases h

variable [Policy π]

/-- If it is given no message, a node learns at most the message of a broadcast that it makes. -/
theorem learned_originated (life : Life π) (now : Nat) {deed : Deed}
    (hown : ∀ message sender, deed ≠ .receive message sender) :
    life.node.Learned (life.originated? now deed).toList (life.step now deed).1.node := by
  cases deed with
  | addPeer peer =>
    obtain ⟨peers, hnode, -⟩ := life.node.addPeer_eq peer
    simp only [step, hnode]
    exact ⟨rfl, rfl, rfl⟩
  | broadcast id kind payload =>
    cases hdown : life.node.isDown with
    | true =>
      simp only [step, follow, Node.broadcast_of_isDown hdown, originated?, hdown]
      exact ⟨rfl, rfl, rfl⟩
    | false =>
      obtain ⟨⟨forwards, hnode⟩, -⟩ :=
        Node.broadcast_of_isUp hdown life.protocol life.linked now id kind payload
      simp only [step, follow, hnode, originated?, hdown]
      exact ⟨rfl, rfl, Nat.add_right_comm _ 1 _⟩
  | receive message sender => exact absurd rfl (hown message sender)
  | gossipRound =>
    cases hdown : life.node.isDown with
    | true =>
      simp only [step, follow, Node.gossipRound_of_isDown hdown]
      exact ⟨rfl, rfl, rfl⟩
    | false =>
      obtain ⟨⟨forwards, hnode⟩, -⟩ := Node.gossipRound_of_isUp hdown life.protocol life.linked
      simp only [step, follow, hnode]
      exact ⟨rfl, rfl, rfl⟩
  | shutdown | unlink => exact ⟨rfl, rfl, rfl⟩

/-- A node that is given no message knows its own broadcasts still, and nothing else. -/
theorem secluded_step (life : Life π) {made : List Message} (h : life.node.Secluded made) (now : Nat)
    {deed : Deed} (hown : ∀ message sender, deed ≠ .receive message sender) :
    (life.step now deed).1.node.Secluded (made ++ (life.originated? now deed).toList) := by
  have hid := (course_step life now deed).keeps.1
  have hlearned := life.learned_originated now hown
  have hnone : life.reception? now deed = none := by
    cases deed with
    | receive message sender => exact absurd rfl (hown message sender)
    | _ => rfl
  obtain ⟨hreceived, hduplicates, -⟩ := life.counters_step now deed
  have hmade : Message.madeBy life.node.id (made ++ (life.originated? now deed).toList) =
      Message.madeBy life.node.id made ++ (life.originated? now deed).toList := by
    rw [Message.madeBy, List.filter_append, ← Message.madeBy]
    refine congrArg _ (List.filter_eq_self.mpr fun message hmem => beq_iff_eq.mpr ?_)
    exact origin_of_originated (Option.mem_toList.mp hmem)
  rw [hnone] at hreceived hduplicates
  refine ⟨?_, ?_, hreceived.trans h.received, hduplicates.trans h.duplicates⟩
  · rw [hid, hmade, hlearned.seen, h.seen, List.map_append, List.reverse_append]
  · rw [hid, hmade, hlearned.state, h.state, Message.mergeAll, Message.mergeAll, Message.mergeAll,
      List.foldl_append]

end Life

namespace World

variable {σ : Type} {k : Nat}

/-- Whether the nodes of a world have different names, and each of them knows its own broadcasts and
nothing else. -/
structure Secluded (made : List Message) (world : World σ k) : Prop where
  /-- No two nodes have one name. -/
  names : (world.nodes.map (·.id)).Nodup
  /-- Every node knows nothing but what it has broadcast. -/
  nodes : ∀ node ∈ world.nodes, node.Secluded made

variable [Random.Source σ] {made more : List Message} {batches : List Batch}
  {world after : World σ k}

/-- Deliveries are never taken back. -/
theorem Change.delivered_eq_zero (h : world.Change more batches after)
    (hnone : after.network.stats.delivered = 0) : world.network.stats.delivered = 0 := by
  cases h with
  | still _ hbooks | deed _ _ _ hbooks | unheard _ _ _ hbooks =>
    have hdelivered := hbooks.delivered
    omega

/-- If nothing has been delivered, no change lets a node know more than its own broadcasts. -/
theorem Secluded.change (h : world.Secluded made) (hchange : world.Change more batches after)
    (hnone : after.network.stats.delivered = 0) : after.Secluded (made ++ more) := by
  have hstill : after.members = world.members → after.Secluded (made ++ []) := by
    intro hmembers
    have hnodes : after.nodes = world.nodes := congrArg (List.map Member.node) hmembers
    rw [List.append_nil]
    refine ⟨?_, ?_⟩ <;> rw [hnodes]
    · exact h.names
    · exact h.nodes
  cases hchange with
  | still hmembers _ => exact hstill hmembers
  | unheard _ _ hmembers _ => exact hstill hmembers
  | @deed _ index member deed hat hoffered hmembers hbooks =>
    have hown : ∀ message sender, deed ≠ .receive message sender := by
      rintro message sender rfl
      have hdelivered := hbooks.delivered
      rw [hnone] at hdelivered
      cases hdelivered
    refine ⟨by rw [names_set hat hmembers]; exact h.names, fun node hnode => ?_⟩
    obtain ⟨other, hother, rfl⟩ := List.mem_map.mp hnode
    rw [hmembers] at hother
    rcases mem_members_set hother with rfl | ⟨place, hne, hplace⟩
    · have hmember : member.node ∈ world.nodes := List.mem_map_of_mem (List.mem_of_getElem? hat)
      exact Life.secluded_step (world.lifeOf member) (h.nodes member.node hmember) world.wall hown
    · have hmember : other.node ∈ world.nodes := List.mem_map_of_mem (List.mem_of_getElem? hplace)
      refine (h.nodes other.node hmember).append fun message hmem heq => hne ?_
      -- Nodes with one name have one place.
      have horigin := Life.origin_of_originated (Option.mem_toList.mp hmem)
      have hsame : (world.nodes.map (·.id))[place]? = (world.nodes.map (·.id))[index]? := by
        rw [World.nodes, List.map_map, List.getElem?_map, List.getElem?_map, hat, hplace]
        exact congrArg some (heq.symm.trans horigin)
      obtain ⟨hlt, -⟩ := List.getElem?_eq_some_iff.mp hplace
      have hlt : place < (world.nodes.map (·.id)).length := by simpa [World.nodes] using hlt
      exact (List.getElem?_inj hlt h.names).mp hsame

/-- So no passage does at whose end nothing has been delivered. -/
theorem Secluded.passage (h : world.Secluded made) (hpassage : world.Passage more batches after)
    (hnone : after.network.stats.delivered = 0) : after.Secluded (made ++ more) := by
  induction hpassage with
  | refl =>
    rw [List.append_nil]
    exact h
  | step _ hchange ih =>
    have hbefore := hchange.delivered_eq_zero hnone
    rw [← List.append_assoc]
    exact (ih hbefore).change hchange hnone

end World

end Epidemic
