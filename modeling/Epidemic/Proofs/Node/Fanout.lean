import Epidemic.Proofs.Node.Attempts
import Epidemic.Proofs.Node.Rumors
import Epidemic.Random.Script

/-!
# How many peers a message is pushed to

No node is ever a peer of its own, and none is a peer twice. So whatever is drawn at random, a message
is pushed to as many peers as the fanout allows for and as there are, but the one that has sent it.
-/

namespace Epidemic

/-- Whether an attempt is what it should be: the message is for distinct peers of the node, none of
them the node itself or the excluded one, as many as the fanout allows for and as there are. -/
structure Attempt.IsExact (node : Node) (fanout : Nat) (push : Push) (attempt : Attempt) : Prop where
  /-- The message is the one that is to be pushed. -/
  message : attempt.message = push.message
  /-- No target is one twice. -/
  nodup : attempt.targets.Nodup
  /-- Every target is a peer, and neither the node nor the excluded one. -/
  targets : ∀ target ∈ attempt.targets,
    target ∈ node.peers ∧ target ≠ node.id ∧ push.excluded ≠ some target
  /-- There are as many targets as possible. -/
  length : attempt.targets.length = min fanout (push.audience node.peers).length

/-- Whether the peers of a node are distinct, and it is not one of them. -/
structure Node.WellPeered (node : Node) : Prop where
  /-- None is a peer twice. -/
  nodup : node.peers.Nodup
  /-- The node is no peer of its own. -/
  self : node.id ∉ node.peers

namespace Life

variable {σ : Type}

/-- The life of a node whose protocol draws from another state of its generator, as it comes about when
others have drawn from it too. -/
def drawingFrom (life : Life (Protocol σ)) (generator : σ) : Life (Protocol σ) :=
  { life with protocol := { life.protocol with generator } }

variable [Random.Chooser σ]

/-- Whether a node that can reach the network, on something that is done to it, sends some messages in
turn, each to as many peers as it should, and counts those that it sends to somebody. -/
def SendsExactly (life : Life (Protocol σ)) (now : Nat) (deed : Deed) (pushes : List Push) : Prop :=
  ∃ attempts, List.Forall₂ (Attempt.IsExact life.node life.protocol.fanout) pushes attempts ∧
    (life.step now deed).2 = attempts.flatMap (·.sends life.node.id true) ∧
    (life.step now deed).1.node.stats.forwards =
      life.node.stats.forwards + attempts.countP fun attempt => !attempt.targets.isEmpty

/-- The peers stay distinct from each other and from the node, whatever is done to it. -/
theorem wellPeered_step (life : Life (Protocol σ)) (now : Nat) (deed : Deed) (h : life.node.WellPeered) :
    (life.step now deed).1.node.WellPeered := by
  have hid := (course_step life now deed).keeps.1
  cases deed with
  | addPeer peer =>
    obtain ⟨peers, hnode, hmem, hnodup⟩ := life.node.addPeer_eq peer
    have hself : life.node.id ∉ peers := fun hin => by
      rcases (hmem life.node.id).mp hin with hold | ⟨heq, hne⟩
      · exact h.self hold
      · exact hne heq.symm
    simp only [step, hnode]
    exact ⟨hnodup h.nodup, hself⟩
  | _ =>
    refine ⟨?_, ?_⟩
    · rw [life.peers_step now fun _ heq => Deed.noConfusion heq]
      exact h.nodup
    · rw [hid, life.peers_step now fun _ heq => Deed.noConfusion heq]
      exact h.self

/-- The same for everything that is done to a node. -/
theorem wellPeered_run (life : Life (Protocol σ)) (entries : List (Nat × Deed))
    (h : life.node.WellPeered) : (life.run entries).node.WellPeered := by
  induction entries generalizing life with
  | nil => exact h
  | cons entry rest ih => exact ih _ (life.wellPeered_step entry.1 entry.2 h)

/-- The peers that are drawn for a message are what they should be. -/
theorem isExact_select {node : Node} (h : node.WellPeered) (protocol : Protocol σ) (push : Push) :
    Attempt.IsExact node protocol.fanout push
      ⟨push.message, (protocol.select node.peers push.excluded).1⟩ where
  message := rfl
  nodup := protocol.nodup_select node.peers push.excluded
  targets target hmem := by
    obtain ⟨hpeer, hexcluded⟩ := Protocol.mem_of_mem_select hmem
    exact ⟨hpeer, fun heq => h.self (heq ▸ hpeer), hexcluded⟩
  length := by
    have hcandidates := (Protocol.perm_candidates h.nodup push.excluded).length_eq
    rw [protocol.length_select, hcandidates, push.filter_eq_audience]

/-- All attempts of a node are what they should be. -/
theorem isExact_attempts (life : Life (Protocol σ)) (now : Nat) (deed : Deed)
    (h : life.node.WellPeered) :
    List.Forall₂ (Attempt.IsExact life.node life.protocol.fanout) (life.due now deed)
      (life.attempts now deed) := by
  refine (Policy.exists_select_of_draws life.protocol life.node.peers (life.due now deed)).imp ?_
  rintro push attempt ⟨drawn, hleads, rfl⟩
  have hfanout : drawn.fanout = life.protocol.fanout := hleads.fanout_eq
  rw [← hfanout]
  exact isExact_select h drawn push

/-- A node that can reach the network sends exactly what it has to push. -/
theorem sendsExactly_due (life : Life (Protocol σ)) (now : Nat) (deed : Deed) (h : life.node.WellPeered)
    (hlinked : life.linked = true) : life.SendsExactly now deed (life.due now deed) := by
  refine ⟨life.attempts now deed, life.isExact_attempts now deed h, ?_, ?_⟩
  · rw [life.sends_eq_attempts, hlinked]
  · rw [life.forwards_eq_attempts, hlinked]
    simp only [Attempt.isEmpty_sends]

/-- A node that cannot reach the network sends nothing, and counts nothing as sent. -/
theorem nothing_sent_of_unlinked (life : Life (Protocol σ)) (now : Nat) (deed : Deed)
    (hlinked : life.linked = false) :
    (life.step now deed).2 = [] ∧
      (life.step now deed).1.node.stats.forwards = life.node.stats.forwards := by
  rw [life.sends_eq_attempts, life.forwards_eq_attempts, hlinked]
  simp [Attempt.sends_of_unlinked]

/-- Whatever was done to a node, and from whatever state its peers are drawn: every batch is for
distinct peers, none of which is the node itself. A broadcast and the messages of a rumor round go to
as many peers as the fanout allows for and as there are, a new message to as many as there are but its
sender. Each of these that goes to somebody is counted. Without a network nothing is sent or counted. -/
theorem sends_exactly (id : NodeId) (rumorRounds : Nat) (protocol : Protocol σ)
    (entries : List (Nat × Deed)) (generator : σ) (now : Nat) :
    let life := ((new id rumorRounds protocol).run entries).drawingFrom generator
    life.node.id = id ∧ life.node.WellPeered ∧ life.protocol.fanout = protocol.fanout ∧
    (life.linked = true → ∀ deed, ∃ pushes, life.SendsExactly now deed pushes) ∧
    (life.linked = true → life.node.isDown = false →
      (∀ name kind payload, life.SendsExactly now (.broadcast name kind payload)
        [⟨life.node.compose now name kind payload, none⟩]) ∧
      (∀ message sender, life.node.hasSeen message.id = false →
        life.protocol.forwards message now = true →
        life.SendsExactly now (.receive message sender) [⟨message, some sender⟩]) ∧
      life.SendsExactly now .gossipRound (life.node.rumors.map fun rumor => ⟨rumor.message, none⟩)) ∧
    (life.linked = false → ∀ deed, (life.step now deed).2 = [] ∧
      (life.step now deed).1.node.stats.forwards = life.node.stats.forwards) := by
  intro life
  obtain ⟨hid, -, hleads⟩ := run_keeps (new id rumorRounds protocol) entries
  have hfanout : life.protocol.fanout = protocol.fanout := hleads.fanout_eq
  have hpeered : life.node.WellPeered :=
    wellPeered_run (new id rumorRounds protocol) entries ⟨List.nodup_nil, List.not_mem_nil⟩
  refine ⟨hid, hpeered, hfanout, fun hlinked deed => ?_, fun hlinked hup => ⟨?_, ?_, ?_⟩,
    fun hlinked deed => life.nothing_sent_of_unlinked now deed hlinked⟩
  · exact ⟨_, life.sendsExactly_due now deed hpeered hlinked⟩
  · intro name kind payload
    have hdue : life.due now (.broadcast name kind payload) =
        [⟨life.node.compose now name kind payload, none⟩] := by simp [due, hup, hlinked]
    rw [← hdue]
    exact life.sendsExactly_due now _ hpeered hlinked
  · intro message sender hnew hforwards
    have hdue : life.due now (.receive message sender) = [⟨message, some sender⟩] := by
      simp [due, hup, hnew, hforwards]
    rw [← hdue]
    exact life.sendsExactly_due now _ hpeered hlinked
  · have hdue : life.due now .gossipRound =
        life.node.rumors.map fun rumor => ⟨rumor.message, none⟩ := by simp [due, hup]
    rw [← hdue]
    exact life.sendsExactly_due now _ hpeered hlinked

/-- A node that is offered itself as a peer, and one of its peers twice, and keeps one message. -/
def befriended : List (Nat × Deed) :=
  [(0, .addPeer "b"), (0, .addPeer "a"), (0, .addPeer "c"), (0, .addPeer "b"),
    (1, .broadcast "first" "update" [])]

/-- With a fanout of two it passes a message that comes from one of its two peers on to the other
one. -/
theorem sends_exactly_befriended :
    let life := ((new "a" 1 (⟨2, none, ⟨[]⟩⟩ : Protocol Random.Script)).run befriended).drawingFrom
      ⟨[1, 2]⟩
    life.linked = true ∧ life.node.isDown = false ∧ life.node.hasSeen "second" = false ∧
      life.node.peers = ["b", "c"] ∧
      life.SendsExactly 2 (.receive ⟨"second", "update", "b", [], 1⟩ "b")
        [⟨⟨"second", "update", "b", [], 1⟩, some "b"⟩] := by
  intro life
  have hlinked : life.linked = true := rfl
  have hup : life.node.isDown = false := by decide +kernel
  have hnew : life.node.hasSeen "second" = false := by decide +kernel
  have hexactly := sends_exactly "a" 1 (⟨2, none, ⟨[]⟩⟩ : Protocol Random.Script) befriended
    ⟨[1, 2]⟩ 2
  have hpassed := (hexactly.2.2.2.2.1 hlinked hup).2.1 ⟨"second", "update", "b", [], 1⟩ "b"
  exact ⟨hlinked, hup, hnew, by decide +kernel, hpassed hnew rfl⟩

end Life

end Epidemic
