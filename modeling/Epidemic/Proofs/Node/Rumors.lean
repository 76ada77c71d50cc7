import Epidemic.Proofs.Node.Budget
import Mathlib.Data.List.Nodup

/-!
# What a node keeps and whom it addresses

A node keeps for rumor rounds nothing but messages that it has seen, and each of them once. Whatever
it sends it has seen, and it sends to its peers only. These change by nothing but a new peer.
-/

namespace Epidemic

/-- Whether a node keeps for rumor rounds only messages that it has seen, each of them once. -/
structure Node.KeepsSeen (node : Node) : Prop where
  /-- No two of the messages kept have the same id. -/
  nodup : (node.rumors.map (·.message.id)).Nodup
  /-- All of them were seen. -/
  seen : ∀ rumor ∈ node.rumors, rumor.message.id ∈ node.seen

namespace Node

/-- What is kept after a rumor round was kept before, in the same order. -/
theorem sublist_ageRumors (rumors : List Rumor) :
    ((ageRumors rumors).map (·.message.id)).Sublist (rumors.map (·.message.id)) := by
  have hsublist : (ageRumors rumors).Sublist
      (rumors.map fun rumor => { rumor with roundsLeft := rumor.roundsLeft - 1 }) :=
    List.filter_sublist
  have hids := hsublist.map (·.message.id)
  rwa [List.map_map] at hids

/-- A message that was not seen before may be kept. -/
theorem KeepsSeen.learn {node after : Node} (h : node.KeepsSeen) {message : Message}
    {kept : List Rumor} (hnew : message.id ∉ node.seen) (hseen : after.seen = message.id :: node.seen)
    (hrumors : after.rumors = node.rumors ++ kept)
    (hkept : kept = [] ∨ ∃ roundsLeft, kept = [⟨message, roundsLeft⟩]) : after.KeepsSeen := by
  have hold : ∀ rumor ∈ node.rumors, rumor.message.id ∈ after.seen := fun rumor hmem => by
    rw [hseen]
    exact List.mem_cons_of_mem _ (h.seen rumor hmem)
  rcases hkept with rfl | ⟨roundsLeft, rfl⟩
  · rw [List.append_nil] at hrumors
    refine ⟨?_, ?_⟩
    · rw [hrumors]
      exact h.nodup
    · rw [hrumors]
      exact hold
  · refine ⟨?_, fun rumor hmem => ?_⟩
    · rw [hrumors, List.map_append]
      refine List.Nodup.append h.nodup (List.nodup_singleton _) fun id hmem hone => ?_
      obtain ⟨rumor, hrumor, heq⟩ := List.mem_map.mp hmem
      have hsame : id = message.id := List.mem_singleton.mp hone
      rw [← hsame, ← heq] at hnew
      exact hnew (h.seen rumor hrumor)
    · rw [hrumors] at hmem
      rcases List.mem_append.mp hmem with hbefore | hone
      · exact hold rumor hbefore
      · rw [List.mem_singleton.mp hone, hseen]
        exact List.mem_cons_self

/-- What is kept of a message is nothing, or the message once. -/
theorem keepsakes_eq (node : Node) (message : Message) :
    node.keepsakes message = [] ∨ ∃ roundsLeft, node.keepsakes message = [⟨message, roundsLeft⟩] := by
  unfold keepsakes
  split
  · exact Or.inr ⟨_, rfl⟩
  · exact Or.inl rfl

end Node

namespace Life

variable {π : Type} [Policy π]

/-- Whatever is done to a node, it keeps only what it has seen, if it makes no broadcast under an id
that it has seen. -/
theorem keepsSeen_step (life : Life π) {now : Nat} {deed : Deed} (h : life.node.KeepsSeen)
    (hfresh : ∀ message ∈ life.originated? now deed, message.id ∉ life.node.seen) :
    (life.step now deed).1.node.KeepsSeen := by
  have hcourse := course_step life now deed
  generalize (life.step now deed).1 = after at hcourse ⊢
  generalize (life.step now deed).2 = sends at hcourse
  cases hcourse with
  | still _ hnode _ _ =>
    obtain ⟨peers, isDown, duplicates, hnode⟩ := hnode
    rw [hnode]
    exact ⟨h.nodup, h.seen⟩
  | @originate id kind payload _ hdeed hup hnode _ =>
    subst hdeed
    have hnew := hfresh (life.node.compose now id kind payload) (if_neg (ne_true_of_eq_false hup))
    rw [hnode]
    exact h.learn hnew rfl rfl (Node.keepsakes_eq _ _)
  | @accept message sender _ _ _ hnew hnode _ =>
    have hnew : message.id ∉ life.node.seen := fun hmem =>
      ne_true_of_eq_false hnew (List.contains_iff_mem.mpr hmem)
    rw [hnode]
    refine h.learn hnew rfl rfl ?_
    split
    · exact Node.keepsakes_eq _ _
    · exact Or.inl rfl
  | round _ _ hnode _ =>
    rw [hnode]
    refine ⟨h.nodup.sublist (Node.sublist_ageRumors _), fun rumor hmem => ?_⟩
    obtain ⟨earlier, hearlier, heq⟩ := Node.mem_ageRumors hmem
    rw [← heq]
    exact h.seen earlier hearlier

/-- A node sends in its own name, to its peers, and what it has seen then. -/
theorem addressed_step [LawfulPolicy π] (life : Life π) {now : Nat} {deed : Deed}
    (h : life.node.KeepsSeen) {envelope : Envelope} (hsent : envelope ∈ (life.step now deed).2) :
    envelope.sender = life.node.id ∧ envelope.target ∈ life.node.peers ∧
      envelope.message.id ∈ (life.step now deed).1.node.seen := by
  have hcourse := course_step life now deed
  generalize (life.step now deed).1 = after at hcourse ⊢
  generalize (life.step now deed).2 = sends at hcourse hsent
  cases hcourse with
  | still => cases hsent
  | originate _ _ hnode _ =>
    split at hsent
    · obtain ⟨target, htarget, rfl⟩ := Node.mem_batch.mp hsent
      rw [hnode]
      exact ⟨rfl, (LawfulPolicy.mem_select _ _ _ target htarget).1, List.mem_cons_self⟩
    · cases hsent
  | accept _ _ _ hnode _ =>
    split at hsent
    · obtain ⟨target, htarget, rfl⟩ := Node.mem_batch.mp hsent
      rw [hnode]
      exact ⟨rfl, (LawfulPolicy.mem_select _ _ _ target htarget).1, List.mem_cons_self⟩
    · cases hsent
  | round _ _ hnode _ =>
    obtain ⟨-, -, hmessage, hsender, htarget⟩ := Node.of_mem_pushAll hsent
    obtain ⟨rumor, hrumor, heq⟩ := List.mem_map.mp hmessage
    rw [hnode, ← heq]
    exact ⟨hsender, htarget, h.seen rumor hrumor⟩

/-- Nothing but a new peer changes the peers of a node. -/
theorem peers_step (life : Life π) (now : Nat) {deed : Deed} (h : ∀ peer, deed ≠ .addPeer peer) :
    (life.step now deed).1.node.peers = life.node.peers := by
  cases deed with
  | addPeer peer => exact absurd rfl (h peer)
  | broadcast id kind payload =>
    cases hdown : life.node.isDown with
    | true => simp only [step, follow, Node.broadcast_of_isDown hdown]
    | false =>
      obtain ⟨⟨forwards, hnode⟩, -, -⟩ := Node.broadcast_of_isUp hdown
        life.protocol life.linked now id kind payload
      simp only [step, follow, hnode]
      rfl
  | receive message sender =>
    cases hnew : (life.node.receive life.protocol life.linked now message sender).result.isNew with
    | false =>
      simp only [step, follow, Node.receive_of_not_isNew hnew]
      split <;> rfl
    | true =>
      obtain ⟨hup, hunseen⟩ := Node.isNew_receive.mp hnew
      obtain ⟨-, ⟨forwards, hnode⟩, -, -⟩ := Node.receive_of_isNew hup hunseen
        life.protocol life.linked now sender
      simp only [step, follow, hnode]
      rfl
  | gossipRound =>
    cases hdown : life.node.isDown with
    | true => simp only [step, follow, Node.gossipRound_of_isDown hdown]
    | false =>
      obtain ⟨⟨forwards, hnode⟩, -, -⟩ :=
        Node.gossipRound_of_isUp hdown life.protocol life.linked
      simp only [step, follow, hnode]
      rfl
  | shutdown | unlink => rfl

/-- No peer of a node is ever lost. -/
theorem mem_peers_step (life : Life π) (now : Nat) (deed : Deed) {peer : NodeId}
    (h : peer ∈ life.node.peers) : peer ∈ (life.step now deed).1.node.peers := by
  cases deed with
  | addPeer added =>
    simp only [step, Node.addPeer]
    split
    · exact h
    · exact Ordered.mem_insert_of_mem h
  | _ =>
    rw [life.peers_step now fun _ heq => Deed.noConfusion heq]
    exact h

end Life

end Epidemic
