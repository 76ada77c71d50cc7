import Epidemic.Proofs.Node.Memory
import Epidemic.Proofs.Selection
import Mathlib.Data.List.Nodup

/-!
# How a node spreads what it learns

If a node has a fanout for all of its peers and no age bound, then whatever it does, every peer of
it is sent what the node has learned by this, unless the peer holds it already: the only peer that
is left out is the one from which the message came.
-/

namespace Epidemic

/-- Whether a node is live and knows and keeps nothing but messages of a list. -/
structure Node.Informed (made : List Message) (node : Node) : Prop where
  /-- It is not shut down. -/
  up : node.isDown = false
  /-- It knows what it has learned from some of the messages. -/
  learned : ∃ messages, (∀ message ∈ messages, message ∈ made) ∧
    (Node.new node.id node.rumorRounds).Learned messages node
  /-- What it keeps for rumor rounds are messages that it has seen. -/
  kept : ∀ rumor ∈ node.rumors, rumor.message ∈ made ∧ rumor.message.id ∈ node.seen

/-- What an operation of a node does to spread messages, when it is known who holds what. -/
structure Node.Spreads (made : List Message) (holds : NodeId → MessageId → Prop)
    (before after : Node) (sends : List Envelope) : Prop where
  /-- The node keeps its name. -/
  id : after.id = before.id
  /-- It keeps its peers. -/
  peers : after.peers = before.peers
  /-- It knows messages of the list. -/
  informed : after.Informed made
  /-- It forgets nothing. -/
  seen : ∀ id ∈ before.seen, id ∈ after.seen
  /-- It sends to its peers what it has seen. -/
  sent : ∀ envelope ∈ sends, envelope.sender = before.id ∧ envelope.target ∈ before.peers ∧
    envelope.message ∈ made ∧ envelope.message.id ∈ after.seen
  /-- What it learns it sends to every peer that does not hold it. -/
  covers : ∀ id ∈ after.seen, id ∉ before.seen → ∀ peer ∈ before.peers,
    holds peer id ∨ ∃ envelope ∈ sends, envelope.target = peer ∧ envelope.message.id = id

namespace Node

variable {σ : Type} {made more : List Message} {node : Node} {message : Message}

/-- More messages may be known of. -/
theorem Informed.mono (h : node.Informed made) (hmore : ∀ message ∈ made, message ∈ more) :
    node.Informed more where
  up := h.up
  learned := by
    obtain ⟨messages, hmessages, hlearned⟩ := h.learned
    exact ⟨messages, fun message hmem => hmore message (hmessages message hmem), hlearned⟩
  kept rumor hrumor := ⟨hmore _ (h.kept rumor hrumor).1, (h.kept rumor hrumor).2⟩

/-- If only one of the messages sets a key, a node that has seen it holds the value that it sets. -/
theorem Informed.get?_eq (h : node.Informed made) (hnodup : (made.map (·.id)).Nodup)
    (hmessage : message ∈ made) (hseen : message.id ∈ node.seen) {key : String}
    (hothers : ∀ other ∈ made, other = message ∨ Json.Members.last? key other.payload = none) :
    node.get? key = Json.Members.last? key message.payload := by
  obtain ⟨messages, hmessages, hlearned⟩ := h.learned
  have hids : node.seen = (messages.map (·.id)).reverse := by
    rw [hlearned.seen]
    exact List.append_nil _
  rw [hids, List.mem_reverse, List.mem_map] at hseen
  obtain ⟨other, hother, hid⟩ := hseen
  have heq : other = message :=
    List.inj_on_of_nodup_map hnodup (hmessages other hother) hmessage hid
  rw [heq] at hother
  rw [Node.get?, hlearned.state, Message.get?_mergeAll,
    Message.last?_flatMap hother fun other hmem => hothers other (hmessages other hmem)]
  exact Option.or_none

/-- A node that has learned some more of the messages, and keeps nothing that it has not seen. -/
theorem Informed.advance {after : Node} {messages : List Message} (h : node.Informed made)
    (hup : after.isDown = false) (hid : after.id = node.id)
    (hrounds : after.rumorRounds = node.rumorRounds) (hlearned : node.Learned messages after)
    (hmessages : ∀ message ∈ messages, message ∈ made)
    (hkept : ∀ rumor ∈ after.rumors,
      (∃ earlier ∈ node.rumors, earlier.message = rumor.message) ∨ rumor.message ∈ messages) :
    after.Informed made where
  up := hup
  learned := by
    obtain ⟨before, hbefore, hlearned'⟩ := h.learned
    rw [hid, hrounds]
    refine ⟨before ++ messages, fun other hmem => ?_, hlearned'.append hlearned⟩
    exact (List.mem_append.mp hmem).elim (hbefore other) (hmessages other)
  kept rumor hrumor := by
    rw [hlearned.seen]
    rcases hkept rumor hrumor with ⟨earlier, hold, heq⟩ | hnew
    · rw [← heq]
      exact ⟨(h.kept earlier hold).1, List.mem_append_right _ (h.kept earlier hold).2⟩
    · refine ⟨hmessages _ hnew, List.mem_append_left _ ?_⟩
      exact List.mem_reverse.mpr (List.mem_map_of_mem hnew)

section Operations

variable [Random.Chooser σ] (protocol : Protocol σ) (holds : NodeId → MessageId → Prop)

/-- A message that is learned and sent to the peers drawn goes to every peer that does not hold it,
if the one that is left out does. -/
theorem spreads_of_learn (h : node.Informed made) (hfanout : node.peers.length ≤ protocol.fanout)
    (hmessage : message ∈ made) {excluded : Option NodeId}
    (hexcluded : ∀ peer, excluded = some peer → holds peer message.id) {after : Node}
    {stats : NodeStats}
    (hafter : after = { node with
      seen := message.id :: node.seen
      state := node.state.merge message.payload
      rumors := node.rumors ++ node.keepsakes message
      stats })
    (hcounted : stats.originated + stats.received =
      node.stats.originated + node.stats.received + 1) :
    node.Spreads made holds after
      (node.batch message (protocol.select node.peers excluded).1) ∧ message.id ∈ after.seen := by
  have hseen : after.seen = message.id :: node.seen := by rw [hafter]
  refine ⟨⟨by rw [hafter], by rw [hafter], ?_, ?_, ?_, ?_⟩, ?_⟩
  · have hlearned : node.Learned [message] after := by
      rw [hafter]
      exact ⟨rfl, rfl, hcounted⟩
    refine h.advance (by rw [hafter]; exact h.up) (by rw [hafter]) (by rw [hafter]) hlearned ?_ ?_
    · intro other hother
      rw [List.mem_singleton.mp hother]
      exact hmessage
    · intro rumor hrumor
      rw [hafter] at hrumor
      rcases List.mem_append.mp hrumor with hold | hnew
      · exact Or.inl ⟨rumor, hold, rfl⟩
      · rw [(mem_keepsakes.mp hnew).2]
        exact Or.inr (List.mem_singleton.mpr rfl)
  · intro other hother
    rw [hseen]
    exact List.mem_cons_of_mem _ hother
  · intro envelope hsent
    obtain ⟨target, htarget, rfl⟩ := mem_batch.mp hsent
    rw [hseen]
    exact ⟨rfl, (Protocol.mem_of_mem_select htarget).1, hmessage, List.mem_cons_self⟩
  · intro other hother hnew peer hpeer
    rw [hseen] at hother
    rw [(List.mem_cons.mp hother).resolve_right hnew]
    by_cases heq : excluded = some peer
    · exact Or.inl (hexcluded peer heq)
    · have hdrawn := (Protocol.mem_select_iff hfanout).mpr ⟨hpeer, heq⟩
      exact Or.inr ⟨_, mem_batch.mpr ⟨peer, hdrawn, rfl⟩, rfl, rfl⟩
  · rw [hseen]
    exact List.mem_cons_self

/-- A broadcast is sent to all peers. -/
theorem spreads_broadcast (h : node.Informed made)
    (hfanout : node.peers.length ≤ protocol.fanout) (now : Nat) (id : MessageId) (kind : String)
    (payload : Payload) :
    let turn := node.broadcast protocol true now id kind payload
    node.Spreads (made ++ [node.compose now id kind payload]) holds turn.node turn.sends ∧
      id ∈ turn.node.seen ∧ protocol.SameRules turn.protocol := by
  intro turn
  obtain ⟨⟨forwards, hnode⟩, hleads, hsends⟩ :=
    broadcast_of_isUp h.up protocol true now id kind payload
  have hrules : protocol.SameRules turn.protocol := Protocol.sameRules_of_leadsTo hleads
  have hsends : turn.sends = node.batch (node.compose now id kind payload)
      (protocol.select node.peers none).1 := by
    refine hsends.trans ?_
    cases hpeers : node.peers with
    | nil =>
      rw [Protocol.select_nil]
      rfl
    | cons => rfl
  have hmore : node.Informed (made ++ [node.compose now id kind payload]) :=
    h.mono fun message hmem => List.mem_append_left _ hmem
  have hmade : node.compose now id kind payload ∈ made ++ [node.compose now id kind payload] :=
    List.mem_append_right _ (List.mem_singleton.mpr rfl)
  obtain ⟨hspreads, hseen⟩ := spreads_of_learn protocol holds hmore hfanout hmade
    (fun peer heq => absurd heq.symm (Option.some_ne_none peer)) hnode (Nat.add_right_comm _ 1 _)
  rw [hsends]
  exact ⟨hspreads, hseen, hrules⟩

/-- A message received is sent to all peers, but for its sender, which holds it. -/
theorem spreads_receive (h : node.Informed made) (hfanout : node.peers.length ≤ protocol.fanout)
    (hage : protocol.maxAge = none) (now : Nat) (hmessage : message ∈ made) {sender : NodeId}
    (hsender : holds sender message.id) :
    let turn := node.receive protocol true now message sender
    node.Spreads made holds turn.node turn.sends ∧ message.id ∈ turn.node.seen ∧
      protocol.SameRules turn.protocol := by
  intro turn
  cases hknown : node.hasSeen message.id with
  | true =>
    have hturn : turn =
        { result := .repeated, node := node.noteRepetition, protocol, sends := [] } :=
      receive_of_hasSeen h.up hknown
    rw [hturn]
    refine ⟨⟨rfl, rfl, ?_, fun _ hid => hid, fun _ hsent => absurd hsent List.not_mem_nil, ?_⟩,
      List.contains_iff_mem.mp hknown, rfl, rfl⟩
    · exact h.advance h.up rfl rfl ⟨rfl, rfl, rfl⟩ (fun _ hmem => absurd hmem List.not_mem_nil)
        fun rumor hrumor => Or.inl ⟨rumor, hrumor, rfl⟩
    · exact fun id hid hnew => absurd hid hnew
  | false =>
    obtain ⟨-, ⟨forwards, hnode⟩, hleads, hsends⟩ :=
      receive_of_isNew h.up hknown protocol true now sender
    have hrules : protocol.SameRules turn.protocol := Protocol.sameRules_of_leadsTo hleads
    have hforwards : Policy.forwards protocol message now = (true, protocol) := by
      rw [Protocol.policy_forwards, Protocol.forwards, hage]
    rw [hforwards] at hnode hsends
    have hsends : turn.sends = node.batch message (protocol.select node.peers (some sender)).1 :=
      hsends
    have hexcluded : ∀ peer, some sender = some peer → holds peer message.id := fun peer heq =>
      Option.some.inj heq ▸ hsender
    obtain ⟨hspreads, hseen⟩ :=
      spreads_of_learn protocol holds h hfanout hmessage hexcluded hnode rfl
    rw [hsends]
    exact ⟨hspreads, hseen, hrules⟩

/-- In a rumor round nothing is learned, and what is sent was seen. -/
theorem spreads_gossipRound (h : node.Informed made) :
    let turn := node.gossipRound protocol true
    node.Spreads made holds turn.node turn.sends ∧ protocol.SameRules turn.protocol := by
  intro turn
  obtain ⟨⟨forwards, hnode⟩, hleads, hsends⟩ := gossipRound_of_isUp h.up protocol true
  have hnode : turn.node =
      ({ node with rumors := ageRumors node.rumors } : Node).withForwards forwards := hnode
  refine ⟨⟨?_, ?_, ?_, ?_, ?_, ?_⟩, Protocol.sameRules_of_leadsTo hleads⟩
  · rw [hnode]
    rfl
  · rw [hnode]
    rfl
  · rw [hnode]
    exact h.advance h.up rfl rfl ⟨rfl, rfl, rfl⟩ (fun _ hmem => absurd hmem List.not_mem_nil)
      fun rumor hrumor => Or.inl (mem_ageRumors hrumor)
  · intro id hid
    rw [hnode]
    exact hid
  · intro envelope hsent
    have hsent : envelope ∈ (({ node with rumors := ageRumors node.rumors } : Node).pushAll protocol
        true (node.rumors.map (·.message))).sends := hsends ▸ hsent
    obtain ⟨-, -, hmessage, hsender, htarget⟩ := of_mem_pushAll hsent
    obtain ⟨rumor, hrumor, heq⟩ := List.mem_map.mp hmessage
    rw [← heq, hnode]
    exact ⟨hsender, htarget, h.kept rumor hrumor⟩
  · intro id hid hnew
    rw [hnode] at hid
    exact absurd hid hnew

end Operations

end Node

end Epidemic
