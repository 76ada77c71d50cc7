import Epidemic.Proofs.Node.Spread
import Epidemic.Proofs.World.Reliable

/-!
# Messages flood a reliable network

If nothing is lost, every node has a fanout for all of its peers and nobody goes down, then a
message that a node has seen is held by each of its peers or is on its way there. Every move keeps
this. So as soon as nothing is in transit, the nodes that hold a message are closed under peers.

The invariant is stated with a list of envelopes in hand: a message that has left the agenda and
that its target has not taken in yet.
-/

namespace Epidemic

/-- The nodes of a network by name, each with the names of its peers. -/
abbrev Wiring := List (NodeId × List NodeId)

/-- Whether all peers are nodes of the network. -/
def Wiring.Closed (wiring : Wiring) : Prop :=
  ∀ entry ∈ wiring, ∀ peer ∈ entry.2, ∃ other ∈ wiring, other.1 = peer

namespace World

variable {σ : Type} {k : Nat}

/-- The nodes of a world with their peers. -/
def wiring (world : World σ k) : Wiring :=
  world.members.map fun member => (member.node.id, member.node.peers)

/-- Whether a node of a name has seen a message. -/
def Holds (world : World σ k) (name : NodeId) (id : MessageId) : Prop :=
  ∃ member ∈ world.members, member.node.id = name ∧ id ∈ member.node.seen

/-- Whether messages flood a world: those made, some of which are in hand. -/
structure Flood (wiring : Wiring) (made : List Message) (hand : List Envelope)
    (world : World σ k) : Prop where
  /-- Nothing is lost. -/
  reliable : world.network.Reliable
  /-- The nodes and their peers stay the same. -/
  nodes : world.wiring = wiring
  /-- All peers are nodes. -/
  closed : wiring.Closed
  /-- Every node is registered. -/
  registry : ∀ index entry, wiring[index]? = some entry →
    world.network.endpoint? entry.1 = some (.node index)
  /-- No node has more peers than its fanout, and no age bound. -/
  rules : ∀ member ∈ world.members, (world.protocolOf member).maxAge = none ∧
    member.node.peers.length ≤ (world.protocolOf member).fanout
  /-- Every node is live, and knows messages that were made. -/
  informed : ∀ member ∈ world.members, member.node.Informed made
  /-- Every message is held by the node that made it, if by no other. -/
  origin : ∀ message ∈ made, ∃ name, world.Holds name message.id
  /-- Every message in hand or in transit was made, is held by its sender, and goes to a node. -/
  carried : ∀ envelope ∈ hand ++ world.transit, envelope.message ∈ made ∧
    world.Holds envelope.sender envelope.message.id ∧ ∃ entry ∈ wiring, entry.1 = envelope.target
  /-- Every peer of a node that has seen a message holds it or will be given it. -/
  spread : ∀ member ∈ world.members, ∀ id ∈ member.node.seen, ∀ peer ∈ member.node.peers,
    world.Holds peer id ∨
      ∃ envelope ∈ hand ++ world.transit, envelope.target = peer ∧ envelope.message.id = id

variable {wiring : Wiring} {made made' : List Message} {hand hand' : List Envelope}
  {world other : World σ k}

/-- Who holds what depends on the members alone. -/
theorem holds_congr (hmembers : other.members = world.members) {name : NodeId} {id : MessageId} :
    other.Holds name id ↔ world.Holds name id := by
  unfold Holds
  rw [hmembers]

/-- What does not touch the nodes and the messages on their way keeps the flood. -/
theorem Flood.congr (h : world.Flood wiring made hand) (hmembers : other.members = world.members)
    (hprotocols : other.protocols = world.protocols) (hreliable : other.network.Reliable)
    (hregistry : other.network.registry = world.network.registry)
    (htransit : (hand' ++ other.transit).Perm (hand ++ world.transit)) :
    other.Flood wiring made hand' where
  reliable := hreliable
  nodes := by
    rw [World.wiring, hmembers]
    exact h.nodes
  closed := h.closed
  registry index entry hat := by
    rw [Network.endpoint?, hregistry]
    exact h.registry index entry hat
  rules member hmem := by
    rw [protocolOf, hprotocols]
    rw [hmembers] at hmem
    exact h.rules member hmem
  informed member hmem := h.informed member (hmembers ▸ hmem)
  origin message hmem := by
    obtain ⟨name, hname⟩ := h.origin message hmem
    exact ⟨name, (holds_congr hmembers).mpr hname⟩
  carried envelope hmem := by
    rw [holds_congr hmembers]
    exact h.carried envelope (htransit.mem_iff.mp hmem)
  spread member hmem id hid peer hpeer := by
    rw [hmembers] at hmem
    rw [holds_congr hmembers]
    refine (h.spread member hmem id hid peer hpeer).imp_right ?_
    rintro ⟨envelope, henvelope, hcarries⟩
    exact ⟨envelope, htransit.mem_iff.mpr henvelope, hcarries⟩

/-! ## A node acts -/

section Act

variable {index : Nat} {member : Member k} {node : Node} {protocol : Protocol σ}

/-- A node that acts keeps its place in the wiring. -/
theorem wiring_replace (hat : world.members[index]? = some member) (hid : node.id = member.node.id)
    (hpeers : node.peers = member.node.peers) (protocol : Protocol σ) :
    (world.replace index { member with node } protocol).wiring = world.wiring := by
  obtain ⟨hlt, hget⟩ := List.getElem?_eq_some_iff.mp hat
  have hlt : index < world.wiring.length := by rwa [World.wiring, List.length_map]
  have hentry : (node.id, node.peers) = world.wiring[index] := by
    simp only [World.wiring, List.getElem_map, hget, hid, hpeers]
  rw [World.wiring, replace, List.map_set]
  dsimp only
  rw [hentry]
  exact List.set_getElem_self hlt

/-- A node that acts holds what it has seen then. -/
theorem holds_replace_self (hat : world.members[index]? = some member) (protocol : Protocol σ)
    {id : MessageId} (hid : id ∈ node.seen) :
    (world.replace index { member with node } protocol).Holds node.id id := by
  obtain ⟨hlt, -⟩ := List.getElem?_eq_some_iff.mp hat
  exact ⟨{ member with node }, List.mem_set hlt _, rfl, hid⟩

/-- What was held before a node acts is held afterwards. -/
theorem Holds.replace {name : NodeId} {id : MessageId} (h : world.Holds name id)
    (hat : world.members[index]? = some member) (hid : node.id = member.node.id)
    (hseen : ∀ id ∈ member.node.seen, id ∈ node.seen) (protocol : Protocol σ) :
    (world.replace index { member with node } protocol).Holds name id := by
  obtain ⟨holder, hholder, rfl, hheld⟩ := h
  obtain ⟨place, hplace⟩ := List.mem_iff_getElem?.mp hholder
  by_cases heq : place = index
  · rw [heq, hat] at hplace
    cases hplace
    rw [← hid]
    exact holds_replace_self hat protocol (hseen id hheld)
  · refine ⟨holder, List.mem_of_getElem? (i := place) ?_, rfl, hheld⟩
    rw [World.replace, List.getElem?_set_ne fun h => heq h.symm]
    exact hplace

/-- Whoever acts, every node follows the same rules afterwards. -/
theorem protocolOf_replace (hrules : (world.protocolOf member).SameRules protocol)
    (other : Member k) :
    (world.protocolOf other).SameRules
      ((world.replace index { member with node } protocol).protocolOf other) := by
  have hafter : (world.replace index { member with node } protocol).protocolOf other =
      if member.protocol.val = other.protocol.val then protocol else world.protocolOf other :=
    Vector.getElem_set member.protocol.isLt other.protocol.isLt
  rw [hafter]
  split
  · rename_i heq
    rw [protocolOf, ← Fin.ext heq]
    exact hrules
  · exact ⟨rfl, rfl⟩

section Carried

variable {sends : List Envelope} {after : World σ k}
  (hat : world.members[index]? = some member)
  (hspreads : member.node.Spreads made' world.Holds node sends)
  (hcarries : (world.replace index { member with node } protocol).Carries sends after)

include hcarries

/-- When the sends of a node that has acted are handed over, its node is the only one that is not as
it was. -/
theorem mem_members_act {other : Member k} (hother : other ∈ after.members) :
    other = { member with node } ∨ other ∈ world.members := by
  rw [hcarries.members] at hother
  exact (List.mem_or_eq_of_mem_set hother).symm

include hat hspreads

/-- When its sends are handed over too, a node that has acted holds what it has seen. -/
theorem holds_act_self {id : MessageId} (hid : id ∈ node.seen) :
    after.Holds member.node.id id := by
  rw [holds_congr hcarries.members, ← hspreads.id]
  exact holds_replace_self hat protocol hid

/-- What was held before a node acts is held when its sends are handed over. -/
theorem Holds.act {name : NodeId} {id : MessageId} (h : world.Holds name id) :
    after.Holds name id := by
  rw [holds_congr hcarries.members]
  exact h.replace hat hspreads.id hspreads.seen protocol

/-- After a node has acted, messages in hand and in transit were made, are held by their senders and
go to nodes. -/
theorem Flood.carried_act (h : world.Flood wiring made hand)
    (hmade : ∀ message ∈ made, message ∈ made') (hkept : ∀ envelope ∈ hand', envelope ∈ hand)
    {envelope : Envelope} (henvelope : envelope ∈ hand' ++ after.transit) :
    envelope.message ∈ made' ∧ after.Holds envelope.sender envelope.message.id ∧
      ∃ entry ∈ wiring, entry.1 = envelope.target := by
  have hold (hbefore : envelope ∈ hand ++ world.transit) : envelope.message ∈ made' ∧
      after.Holds envelope.sender envelope.message.id ∧
        ∃ entry ∈ wiring, entry.1 = envelope.target := by
    obtain ⟨hmessage, hsender, htarget⟩ := h.carried envelope hbefore
    exact ⟨hmade _ hmessage, hsender.act hat hspreads hcarries, htarget⟩
  rcases List.mem_append.mp henvelope with hinhand | htransit
  · exact hold (List.mem_append_left _ (hkept envelope hinhand))
  · rcases List.mem_append.mp (hcarries.transit.mem_iff.mp htransit) with hsent | hbefore
    · obtain ⟨hsender, htarget, hmessage, hseen⟩ := hspreads.sent envelope hsent
      have hentry : (member.node.id, member.node.peers) ∈ wiring := by
        rw [← h.nodes]
        exact List.mem_map_of_mem (List.mem_of_getElem? hat)
      rw [hsender]
      exact ⟨hmessage, holds_act_self hat hspreads hcarries hseen, h.closed _ hentry _ htarget⟩
    · exact hold (List.mem_append_right _ hbefore)

/-- After a node has acted, what a node had seen before is held by its peers or will be given to
them: the messages in hand still are in hand, or have been taken in by the node. -/
theorem Flood.spread_act_of_seen (h : world.Flood wiring made hand)
    (htaken : ∀ envelope ∈ hand, envelope ∈ hand' ∨
      envelope.target = member.node.id ∧ envelope.message.id ∈ node.seen)
    {before : Member k} (hbefore : before ∈ world.members) {id : MessageId}
    (hid : id ∈ before.node.seen) {peer : NodeId} (hpeer : peer ∈ before.node.peers) :
    after.Holds peer id ∨
      ∃ envelope ∈ hand' ++ after.transit, envelope.target = peer ∧ envelope.message.id = id := by
  rcases h.spread before hbefore id hid peer hpeer with hheld | ⟨envelope, henvelope, rfl, rfl⟩
  · exact Or.inl (hheld.act hat hspreads hcarries)
  · rcases List.mem_append.mp henvelope with hinhand | htransit
    · rcases htaken envelope hinhand with hstill | ⟨htarget, hseen⟩
      · exact Or.inr ⟨envelope, List.mem_append_left _ hstill, rfl, rfl⟩
      · rw [htarget]
        exact Or.inl (holds_act_self hat hspreads hcarries hseen)
    · refine Or.inr ⟨envelope, List.mem_append_right _ ?_, rfl, rfl⟩
      exact hcarries.transit.mem_iff.mpr (List.mem_append_right _ htransit)

/-- After a node has acted, what it has seen is held by its peers or will be given to them. -/
theorem Flood.spread_act_self (h : world.Flood wiring made hand)
    (htaken : ∀ envelope ∈ hand, envelope ∈ hand' ∨
      envelope.target = member.node.id ∧ envelope.message.id ∈ node.seen)
    {id : MessageId} (hid : id ∈ node.seen) {peer : NodeId} (hpeer : peer ∈ node.peers) :
    after.Holds peer id ∨
      ∃ envelope ∈ hand' ++ after.transit, envelope.target = peer ∧ envelope.message.id = id := by
  rw [hspreads.peers] at hpeer
  by_cases hknown : id ∈ member.node.seen
  · exact h.spread_act_of_seen hat hspreads hcarries htaken (List.mem_of_getElem? hat) hknown hpeer
  · rcases hspreads.covers id hid hknown peer hpeer with hheld | ⟨envelope, hsent, hcarry⟩
    · exact Or.inl (hheld.act hat hspreads hcarries)
    · refine Or.inr ⟨envelope, List.mem_append_right _ ?_, hcarry⟩
      exact hcarries.transit.mem_iff.mpr (List.mem_append_left _ hsent)

end Carried

variable [Random.Source σ]

/-- If a node spreads what it learns, and takes in what it is given, the flood goes on. -/
theorem Flood.act {sends : List Envelope} (h : world.Flood wiring made hand)
    (hat : world.members[index]? = some member)
    (hspreads : member.node.Spreads made' world.Holds node sends)
    (hrules : (world.protocolOf member).SameRules protocol)
    (hmade : ∀ message ∈ made, message ∈ made')
    (horigin : ∀ message ∈ made', message ∈ made ∨ message.id ∈ node.seen)
    (hkept : ∀ envelope ∈ hand', envelope ∈ hand)
    (htaken : ∀ envelope ∈ hand, envelope ∈ hand' ∨
      envelope.target = member.node.id ∧ envelope.message.id ∈ node.seen) :
    ((world.replace index { member with node } protocol).sendAll sends).Flood
      wiring made' hand' := by
  have hcarries := carries_sendAll (world.replace index { member with node } protocol)
    h.reliable sends
  generalize (world.replace index { member with node } protocol).sendAll sends = after at hcarries
  refine ⟨hcarries.reliable h.reliable, ?_, h.closed, ?_, ?_, ?_, ?_, ?_, ?_⟩
  · rw [World.wiring, hcarries.members]
    exact (wiring_replace hat hspreads.id hspreads.peers protocol).trans h.nodes
  · intro place entry hplace
    obtain ⟨generator, stats, hnetwork⟩ := hcarries.network
    rw [hnetwork]
    exact h.registry place entry hplace
  · intro other hother
    have hsame : (world.protocolOf other).SameRules (after.protocolOf other) := by
      unfold protocolOf
      rw [hcarries.protocols]
      exact protocolOf_replace hrules other
    obtain ⟨hfanout, hage⟩ := hsame
    rw [hfanout, hage]
    rcases mem_members_act hcarries hother with rfl | hold
    · rw [hspreads.peers]
      exact h.rules member (List.mem_of_getElem? hat)
    · exact h.rules other hold
  · intro other hother
    rcases mem_members_act hcarries hother with rfl | hold
    · exact hspreads.informed
    · exact (h.informed other hold).mono hmade
  · intro message hmessage
    rcases horigin message hmessage with hold | hnew
    · obtain ⟨name, hname⟩ := h.origin message hold
      exact ⟨name, hname.act hat hspreads hcarries⟩
    · exact ⟨member.node.id, holds_act_self hat hspreads hcarries hnew⟩
  · exact fun envelope => h.carried_act hat hspreads hcarries hmade hkept
  · intro other hother id hid peer hpeer
    rcases mem_members_act hcarries hother with rfl | hold
    · exact h.spread_act_self hat hspreads hcarries htaken hid hpeer
    · exact h.spread_act_of_seen hat hspreads hcarries htaken hold hid hpeer

end Act

/-! ## Moves -/

/-- An entry of the journal does not matter. -/
theorem Flood.record (h : world.Flood wiring made hand) (event : Event) :
    (world.record event).Flood wiring made hand :=
  h.congr rfl rfl h.reliable rfl (List.Perm.refl _)

/-- The node of an entry of the wiring. -/
theorem Flood.exists_member (h : world.Flood wiring made hand) {index : Nat}
    {entry : NodeId × List NodeId} (hat : wiring[index]? = some entry) :
    ∃ member, world.members[index]? = some member ∧ member.node.id = entry.1 := by
  rw [← h.nodes, World.wiring, List.getElem?_map, Option.map_eq_some_iff] at hat
  obtain ⟨member, hmember, rfl⟩ := hat
  exact ⟨member, hmember, rfl⟩

variable [Random.Source σ]

/-- A broadcast adds its message to those made. -/
theorem Flood.broadcast (h : world.Flood wiring made []) {index : Nat} {member : Member k}
    (hat : world.members[index]? = some member) (id : MessageId) (kind : String)
    (payload : Payload) :
    (world.afterwards (world.broadcast index id kind payload)).Flood wiring
      (made ++ [member.node.compose world.wall id kind payload]) [] := by
  have hmember := List.mem_of_getElem? hat
  obtain ⟨-, hfanout⟩ := h.rules member hmember
  obtain ⟨hspreads, hseen, hrules⟩ := Node.spreads_broadcast
    (world.protocolOf member) world.Holds (h.informed member hmember) hfanout world.wall id kind
      payload
  rw [World.broadcast, h.reliable.isOpen, act_of_getElem? hat]
  refine h.act hat hspreads hrules (fun _ hmem => List.mem_append_left _ hmem)
    (fun message hmem => ?_) (fun _ hmem => hmem) fun _ hmem => absurd hmem List.not_mem_nil
  refine (List.mem_append.mp hmem).imp_right fun hnew => ?_
  rw [List.mem_singleton.mp hnew]
  exact hseen

/-- In a rumor round of a node the flood goes on. -/
theorem Flood.gossipRound (h : world.Flood wiring made []) (index : Nat) :
    (world.afterwards (world.gossipRound index)).Flood wiring made [] := by
  rw [gossipRound_eq_act, h.reliable.isOpen]
  cases hat : world.members[index]? with
  | none =>
    rw [World.act, hat]
    exact h
  | some member =>
    have hmember := List.mem_of_getElem? hat
    obtain ⟨hspreads, hrules⟩ := Node.spreads_gossipRound
      (world.protocolOf member) world.Holds (h.informed member hmember)
    rw [act_of_getElem? hat]
    exact h.act hat hspreads hrules (fun _ hmem => hmem) (fun _ hmem => Or.inl hmem)
      (fun _ hmem => hmem) fun _ hmem => absurd hmem List.not_mem_nil

/-- A message in hand is taken in by its target. -/
theorem Flood.receive {envelope : Envelope} (h : world.Flood wiring made [envelope]) {index : Nat}
    {member : Member k} (hat : world.members[index]? = some member)
    (hname : member.node.id = envelope.target) :
    ∃ reception after, world.receive index envelope.message envelope.sender =
      some (reception, after) ∧ after.Flood wiring made [] := by
  have hmember := List.mem_of_getElem? hat
  obtain ⟨hmessage, hsender, -⟩ := h.carried envelope List.mem_cons_self
  obtain ⟨hage, hfanout⟩ := h.rules member hmember
  obtain ⟨hspreads, hseen, hrules⟩ := Node.spreads_receive (world.protocolOf member) world.Holds
    (h.informed member hmember) hfanout hage world.wall hmessage hsender
  rw [World.receive, h.reliable.isOpen, act_of_getElem? hat]
  refine ⟨_, _, rfl, h.act hat hspreads hrules (fun _ hmem => hmem) (fun _ hmem => Or.inl hmem)
    (fun _ hmem => absurd hmem List.not_mem_nil) fun other hmem => ?_⟩
  rw [List.mem_singleton.mp hmem]
  exact Or.inr ⟨hname.symm, hseen⟩

/-- A message in hand is delivered to its target. -/
theorem Flood.deliver {parcel : Parcel} (h : world.Flood wiring made [parcel.envelope]) :
    (world.deliver parcel).Flood wiring made [] := by
  obtain ⟨-, -, entry, hentry, htarget⟩ := h.carried parcel.envelope List.mem_cons_self
  obtain ⟨index, hindex⟩ := List.mem_iff_getElem?.mp hentry
  obtain ⟨member, hat, hname⟩ := h.exists_member hindex
  have hendpoint : world.network.endpoint? parcel.envelope.target = some (.node index) := by
    rw [← htarget]
    exact h.registry index entry hindex
  have hcounted : ({ world with network := world.network.countDelivered } : World σ k).Flood wiring
      made [parcel.envelope] :=
    h.congr rfl rfl ⟨h.reliable.hasClock, h.reliable.isOpen, h.reliable.dropRate⟩ rfl
      (List.Perm.refl _)
  obtain ⟨reception, after, hreceive, hafter⟩ := hcounted.receive hat (hname.trans htarget)
  rw [World.deliver]
  simp only [hendpoint, hreceive]
  exact hafter.record _

/-- In a rumor round of several nodes the flood goes on. -/
theorem Flood.roundOf (h : world.Flood wiring made []) (indexes : List Nat) :
    (world.roundOf indexes).Flood wiring made [] := by
  induction indexes generalizing world with
  | nil => exact h
  | cons index rest ih =>
    have hround := h.gossipRound index
    rw [World.roundOf]
    split
    · rename_i after hafter
      rw [hafter] at hround
      exact ih (hround.record _)
    · exact ih h

/-- In the turn of a task the flood goes on. -/
theorem Flood.takeTurn (h : world.Flood wiring made []) (position : Nat) :
    (world.takeTurn position).Flood wiring made [] := by
  rw [World.takeTurn]
  split
  · exact h
  · rename_i task htask
    have htransit := perm_transit_withReady htask
    cases task with
    | parcel delay parcel =>
      cases delay with
      | zero => exact Flood.deliver (h.congr rfl rfl h.reliable rfl htransit.symm)
      | succ delay =>
        have hscheduled := perm_transit_schedule
          (world.withReady (world.agenda.ready.eraseIdx position)) (delay + 1) (.parcel 0 parcel)
        exact h.congr rfl rfl h.reliable rfl (hscheduled.trans htransit.symm)
    | rounds interval =>
      have hrest : (world.withReady (world.agenda.ready.eraseIdx position)).Flood wiring made [] :=
        h.congr rfl rfl h.reliable rfl htransit.symm
      rw [perform, roundOfAll]
      split
      · exact hrest
      · have hround := hrest.roundOf (List.range
          (world.withReady (world.agenda.ready.eraseIdx position)).members.length)
        exact hround.congr rfl rfl hround.reliable rfl
          (perm_transit_schedule _ interval (.rounds interval))

end World

namespace Move

variable {σ : Type} {k : Nat}

/-- Whether a move leaves the nodes, their peers and the losses of the network alone. -/
def isPeaceful : Move k → Bool
  | .broadcast _ _ _ _ | .gossipRound _ | .setLatency _ | .setJitter _ | .startRounds _
  | .stopRounds | .turn _ | .fire | .pass _ | .setWall _ => true
  | _ => false

/-- The message that a move makes in a world. -/
def message? (world : World σ k) : Move k → Option Message
  | .broadcast index id kind payload =>
    world.members[index]?.map fun member => member.node.compose world.wall id kind payload
  | _ => none

/-- Time passes in peace, and makes no messages. -/
theorem isPeaceful_of_isTick {move : Move k} (h : move.isTick = true) :
    move.isPeaceful = true ∧ ∀ world : World σ k, move.message? world = none := by
  cases move with
  | turn _ | fire | pass _ => exact ⟨rfl, fun _ => rfl⟩
  | _ => cases h

end Move

namespace World

variable {σ : Type} {k : Nat} [Random.Source σ] {wiring : Wiring} {made : List Message}
  {world : World σ k}

/-- With every peaceful move the flood goes on. -/
theorem Flood.step (h : world.Flood wiring made []) {move : Move k}
    (hmove : move.isPeaceful = true) :
    (world.step move).Flood wiring (made ++ (move.message? world).toList) [] := by
  have hnone : move.message? world = none → (world.step move).Flood wiring made [] →
      (world.step move).Flood wiring (made ++ (move.message? world).toList) [] := by
    intro hnone hafter
    rw [hnone, Option.toList_none, List.append_nil]
    exact hafter
  cases move with
  | broadcast index id kind payload =>
    cases hat : world.members[index]? with
    | none =>
      refine hnone (by rw [Move.message?, hat]; rfl) ?_
      rw [World.step, World.broadcast, World.act, hat]
      exact h
    | some member =>
      rw [Move.message?, hat]
      exact h.broadcast hat id kind payload
  | gossipRound index => exact hnone rfl (h.gossipRound index)
  | turn position => exact hnone rfl (h.takeTurn position)
  | fire =>
    exact hnone rfl (h.congr rfl rfl h.reliable rfl (List.Perm.of_eq (transit_fire world)))
  | startRounds interval =>
    exact hnone rfl (h.congr rfl rfl h.reliable rfl
      (perm_transit_schedule world interval (.rounds interval)))
  | stopRounds =>
    exact hnone rfl (h.congr rfl rfl h.reliable rfl (List.Perm.of_eq (transit_stopRounds world)))
  | setLatency _ | setJitter _ =>
    exact hnone rfl (h.congr rfl rfl ⟨h.reliable.hasClock, h.reliable.isOpen, h.reliable.dropRate⟩
      rfl (List.Perm.refl _))
  | pass _ | setWall _ => exact hnone rfl (h.congr rfl rfl h.reliable rfl (List.Perm.refl _))
  | send | receive | addPeer | shutdown | join | register | unregister | setDropRate | setClock
  | close => cases hmove

end World

end Epidemic
