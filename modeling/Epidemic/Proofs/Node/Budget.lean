import Epidemic.Proofs.Node.Batches

/-!
# Budgets

A message that a node learns is pushed once, and then once more in each of the rumor rounds for
which it is kept. So a node has a budget of batches for every message, which is granted when it
learns the message and never again; every batch takes its part of it, and every rumor round takes
away what it does not use. Whatever is done to the node, as long as its broadcasts have fresh ids,
the budget is kept.
-/

namespace Epidemic

namespace Node

/-- For how many rounds the messages of an id are still kept, all in all. -/
def roundsLeft (id : MessageId) : List Rumor → Nat
  | [] => 0
  | rumor :: rest => (if rumor.message.id = id then rumor.roundsLeft else 0) + roundsLeft id rest

/-- The rounds for which two lists of rumors are kept. -/
theorem roundsLeft_append (id : MessageId) (earlier later : List Rumor) :
    roundsLeft id (earlier ++ later) = roundsLeft id earlier + roundsLeft id later := by
  induction earlier with
  | nil => simp only [List.nil_append, roundsLeft, Nat.zero_add]
  | cons rumor rest ih => simp only [List.cons_append, roundsLeft, ih, Nat.add_assoc]

/-- A message that is newly kept is kept for as many rounds as the node has. -/
theorem roundsLeft_keepsakes (id : MessageId) (node : Node) (message : Message) :
    roundsLeft id (node.keepsakes message) =
      if message.id = id then node.rumorRounds else 0 := by
  unfold keepsakes
  split
  · rfl
  · rename_i hnone
    have hzero : node.rumorRounds = 0 := by omega
    simp only [roundsLeft, hzero, ite_self]

/-- What is kept is kept for one more round at least, also after a round. -/
theorem roundsLeft_pos_of_mem_ageRumors {rumors : List Rumor} {rumor : Rumor}
    (h : rumor ∈ ageRumors rumors) : 0 < rumor.roundsLeft := by
  rw [ageRumors, List.mem_filter] at h
  exact of_decide_eq_true h.2

/-- A round takes one round from every rumor. -/
theorem roundsLeft_ageRumors (id : MessageId) {rumors : List Rumor}
    (h : ∀ rumor ∈ rumors, 0 < rumor.roundsLeft) :
    roundsLeft id (ageRumors rumors) + (rumors.map (·.message)).countP (·.id == id) =
      roundsLeft id rumors := by
  induction rumors with
  | nil => rfl
  | cons rumor rest ih =>
    have hpositive := h rumor List.mem_cons_self
    have hrest := ih fun other hmem => h other (List.mem_cons_of_mem rumor hmem)
    have hcons : ageRumors (rumor :: rest) =
        (if 1 < rumor.roundsLeft then [⟨rumor.message, rumor.roundsLeft - 1⟩] else []) ++
          ageRumors rest := by
      rw [← ageRumors_singleton]
      exact ageRumors_append [rumor] rest
    have hfirst : roundsLeft id
        (if 1 < rumor.roundsLeft then [⟨rumor.message, rumor.roundsLeft - 1⟩] else []) =
          if rumor.message.id = id then rumor.roundsLeft - 1 else 0 := by
      split
      · simp only [roundsLeft, Nat.add_zero]
      · have hzero : rumor.roundsLeft - 1 = 0 := by omega
        simp only [roundsLeft, hzero, ite_self]
    rw [hcons, roundsLeft_append, hfirst, List.map_cons, List.countP_cons, roundsLeft]
    by_cases heq : rumor.message.id = id
    · simp only [heq, if_true, beq_self_eq_true]
      omega
    · simp only [heq, if_false, beq_iff_eq]
      omega

end Node

namespace Life

variable {π : Type}

/-- The message of a broadcast that a live node makes. -/
def originated? (life : Life π) (now : Nat) : Deed → Option Message
  | .broadcast id kind payload =>
    if life.node.isDown then none else some (life.node.compose now id kind payload)
  | _ => none

variable [Policy π]

/-- The batches that a node hands over when something is done to it. A rumor round pushes every
message that is kept; anything else pushes one message at most. -/
def batches (life : Life π) (now : Nat) : Deed → List Batch
  | .gossipRound =>
    if life.node.isDown then []
    else
      ({ life.node with rumors := Node.ageRumors life.node.rumors } : Node).batchesOfAll
        life.protocol life.linked (life.node.rumors.map (·.message))
  | deed => Batch.ofSends (life.step now deed).2

variable {life after : Life π} {now : Nat} {deed : Deed} {sends : List Envelope}

/-- A node that is down hands over nothing in a rumor round. -/
theorem batches_gossipRound_of_isDown (h : life.node.isDown = true) (now : Nat) :
    life.batches now .gossipRound = [] := if_pos h

/-- A node that is live pushes all that it keeps in a rumor round. -/
theorem batches_gossipRound_of_isUp (h : life.node.isDown = false) (now : Nat) :
    life.batches now .gossipRound =
      ({ life.node with rumors := Node.ageRumors life.node.rumors } : Node).batchesOfAll
        life.protocol life.linked (life.node.rumors.map (·.message)) :=
  if_neg (ne_true_of_eq_false h)

/-- The batches hold the sends that the node makes. -/
theorem flatten_batches (life : Life π) (now : Nat) (deed : Deed) :
    (life.batches now deed).flatten = (life.step now deed).2 := by
  cases deed with
  | gossipRound =>
    cases hdown : life.node.isDown with
    | true =>
      rw [batches_gossipRound_of_isDown hdown, step, follow, Node.gossipRound_of_isDown hdown]
      rfl
    | false =>
      rw [batches_gossipRound_of_isUp hdown, Node.flatten_batchesOfAll, step, follow]
      exact (Node.gossipRound_of_isUp hdown life.protocol life.linked).2.2.symm
  | addPeer | broadcast | receive | shutdown | unlink => exact Batch.flatten_ofSends _

/-- Every batch is a push of the message of a broadcast, of a message that the node is given, or of
one that it keeps. -/
theorem exists_isPush_of_mem_batches [LawfulPolicy π] {batch : Batch}
    (h : batch ∈ life.batches now deed) :
    ∃ message, batch.IsPush life.node.id message (Policy.fanout life.protocol) ∧
      (life.originated? now deed = some message ∨ (∃ sender, deed = .receive message sender) ∨
        ∃ rumor ∈ life.node.rumors, rumor.message = message) := by
  cases deed with
  | broadcast id kind payload =>
    have hbatch : batch ∈ Batch.ofSends
        (life.node.broadcast life.protocol life.linked now id kind payload).sends := h
    cases hdown : life.node.isDown with
    | true =>
      rw [Node.broadcast_of_isDown hdown] at hbatch
      cases hbatch
    | false =>
      rw [(Node.broadcast_of_isUp hdown _ _ _ _ _ _).2.2] at hbatch
      exact ⟨life.node.compose now id kind payload, Node.isPush_of_mem_ofSends hbatch,
        Or.inl (if_neg (ne_true_of_eq_false hdown))⟩
  | receive message sender =>
    have hbatch : batch ∈ Batch.ofSends
        (life.node.receive life.protocol life.linked now message sender).sends := h
    have hfresh := Node.isDown_or_hasSeen_of_receive (Batch.mem_ofSends.mp hbatch).2
    obtain ⟨hup, hnew⟩ := Bool.or_eq_false_iff.mp hfresh
    rw [(Node.receive_of_isNew hup hnew _ _ _ _).2.2.2] at hbatch
    have hpush := Node.isPush_of_mem_ofSends hbatch
    rw [LawfulPolicy.fanout_forwards] at hpush
    exact ⟨message, hpush, Or.inr (Or.inl ⟨sender, rfl⟩)⟩
  | gossipRound =>
    cases hdown : life.node.isDown with
    | true =>
      rw [batches_gossipRound_of_isDown hdown] at h
      cases h
    | false =>
      rw [batches_gossipRound_of_isUp hdown] at h
      obtain ⟨message, hmessage, hpush⟩ := Node.exists_isPush_of_mem_batchesOfAll h
      obtain ⟨rumor, hrumor, heq⟩ := List.mem_map.mp hmessage
      exact ⟨message, hpush, Or.inr (Or.inr ⟨rumor, hrumor, heq⟩)⟩
  | addPeer | shutdown | unlink => cases h

/-- Without sends there are no batches. -/
theorem batches_eq_nil [LawfulPolicy π] (h : (life.step now deed).2 = []) :
    life.batches now deed = [] := by
  rw [← life.flatten_batches now deed, List.flatten_eq_nil_iff] at h
  refine List.eq_nil_iff_forall_not_mem.mpr fun batch hmem => ?_
  obtain ⟨message, hpush, -⟩ := exists_isPush_of_mem_batches hmem
  exact hpush.ne_nil (h batch hmem)

/-- A node counts the batches that it hands over. -/
theorem forwards_step (life : Life π) (now : Nat) (deed : Deed) :
    (life.step now deed).1.node.stats.forwards =
      life.node.stats.forwards + (life.batches now deed).length := by
  cases deed with
  | addPeer peer =>
    simp only [step, Node.addPeer]
    split <;> rfl
  | broadcast id kind payload =>
    have hbatches : life.batches now (.broadcast id kind payload) = Batch.ofSends
        (life.node.broadcast life.protocol life.linked now id kind payload).sends := rfl
    cases hdown : life.node.isDown with
    | true =>
      rw [hbatches, step, follow, Node.broadcast_of_isDown hdown]
      rfl
    | false =>
      rw [hbatches, step, follow, Node.node_broadcast hdown, Node.forwards_countBatch]
      rfl
  | receive message sender =>
    have hbatches : life.batches now (.receive message sender) = Batch.ofSends
        (life.node.receive life.protocol life.linked now message sender).sends := rfl
    cases hdown : life.node.isDown with
    | true =>
      rw [hbatches, step, follow, Node.receive_of_isDown hdown]
      rfl
    | false =>
      cases hseen : life.node.hasSeen message.id with
      | true =>
        rw [hbatches, step, follow, Node.receive_of_hasSeen hdown hseen]
        rfl
      | false =>
        rw [hbatches, step, follow, Node.node_receive hdown hseen, Node.forwards_countBatch]
        rfl
  | gossipRound =>
    cases hdown : life.node.isDown with
    | true =>
      rw [batches_gossipRound_of_isDown hdown, step, follow, Node.gossipRound_of_isDown hdown]
      rfl
    | false =>
      rw [batches_gossipRound_of_isUp hdown, step, follow, Node.gossipRound,
        if_neg (ne_true_of_eq_false hdown)]
      exact Node.forwards_pushAll _ _ _ _
  | shutdown | unlink => rfl

end Life

/-- Whether a node has kept within its budget when it has handed over some batches: for a message
that it has seen, these and the rounds to come are as many as the rounds that it has and one more;
for others there are none. -/
structure Node.Thrifty (batches : List Batch) (node : Node) : Prop where
  /-- What is kept is kept for one more round at least. -/
  positive : ∀ rumor ∈ node.rumors, 0 < rumor.roundsLeft
  /-- No message takes more than its part. -/
  within : ∀ id, Batch.handed id batches + Node.roundsLeft id node.rumors ≤
    if id ∈ node.seen then 1 + node.rumorRounds else 0

namespace Life

variable {π : Type} {life after : Life π} {sends : List Envelope} {batches : List Batch}

/-- A message that is new to a node grants the budget from which its batch and its rounds are
taken. -/
theorem thrifty_of_learn (h : life.node.Thrifty batches) {message : Message} {fanout : Nat}
    (hnew : message.id ∉ life.node.seen) (hseen : after.node.seen = message.id :: life.node.seen)
    (hrounds : after.node.rumorRounds = life.node.rumorRounds) {kept : List Rumor}
    (hkept : kept = life.node.keepsakes message ∨ kept = [])
    (hrumors : after.node.rumors = life.node.rumors ++ kept)
    (hpush : ∀ batch ∈ Batch.ofSends sends, batch.IsPush life.node.id message fanout) :
    after.node.Thrifty (batches ++ Batch.ofSends sends) where
  positive rumor hrumor := by
    rw [hrumors] at hrumor
    rcases List.mem_append.mp hrumor with hold | hnew
    · exact h.positive rumor hold
    · rcases hkept with rfl | rfl
      · obtain ⟨hpositive, rfl⟩ := Node.mem_keepsakes.mp hnew
        exact hpositive
      · cases hnew
  within id := by
    have hbefore := h.within id
    have hbatch := Batch.handed_ofSends_le id hpush
    have hrest : Node.roundsLeft id kept ≤
        if message.id = id then life.node.rumorRounds else 0 := by
      rcases hkept with rfl | rfl
      · exact Nat.le_of_eq (Node.roundsLeft_keepsakes id life.node message)
      · exact Nat.zero_le _
    rw [hrumors, Node.roundsLeft_append, Batch.handed_append, hseen, hrounds]
    by_cases heq : message.id = id
    · subst heq
      rw [if_neg hnew] at hbefore
      rw [if_pos rfl] at hbatch hrest
      rw [if_pos List.mem_cons_self]
      omega
    · have hmem : id ∈ message.id :: life.node.seen ↔ id ∈ life.node.seen := by
        rw [List.mem_cons]
        exact or_iff_right fun h => heq h.symm
      rw [if_neg heq] at hbatch hrest
      simp only [hmem]
      omega

variable [Policy π]

/-- Whatever is done to a node, it keeps within its budget, if a broadcast has an id that the node
has not seen. -/
theorem thrifty_step [LawfulPolicy π] (life : Life π) (h : life.node.Thrifty batches) (now : Nat)
    (deed : Deed) (hfresh : ∀ message ∈ life.originated? now deed, message.id ∉ life.node.seen) :
    (life.step now deed).1.node.Thrifty (batches ++ life.batches now deed) := by
  have hcourse := course_step life now deed
  generalize hnext : (life.step now deed).1 = after at hcourse ⊢
  generalize hsends : (life.step now deed).2 = sends at hcourse
  cases hcourse with
  | still _ hnode _ _ =>
    obtain ⟨peers, isDown, duplicates, hnode⟩ := hnode
    rw [batches_eq_nil hsends, List.append_nil, hnode]
    exact ⟨h.positive, h.within⟩
  | @originate id kind payload _ hdeed hup hnode _ =>
    subst hdeed
    have hnew : id ∉ life.node.seen :=
      hfresh (life.node.compose now id kind payload) (if_neg (ne_true_of_eq_false hup))
    have hbatches : life.batches now (.broadcast id kind payload) =
        Batch.ofSends (life.step now (.broadcast id kind payload)).2 := rfl
    rw [hbatches, hsends]
    exact thrifty_of_learn h hnew (by rw [hnode]; rfl) (by rw [hnode]; rfl) (Or.inl rfl)
      (by rw [hnode]; rfl) fun batch hbatch => Node.isPush_of_mem_ofSends hbatch
  | @accept message sender _ hdeed _ hnew hnode _ =>
    subst hdeed
    have hbatches : life.batches now (.receive message sender) =
        Batch.ofSends (life.step now (.receive message sender)).2 := rfl
    have hkept : (if (Policy.forwards life.protocol message now).1 then life.node.keepsakes message
        else []) = life.node.keepsakes message ∨
          (if (Policy.forwards life.protocol message now).1 then life.node.keepsakes message
            else []) = [] := by
      split
      · exact Or.inl rfl
      · exact Or.inr rfl
    rw [hbatches, hsends]
    refine thrifty_of_learn h (fun hmem => ?_) (by rw [hnode]; rfl) (by rw [hnode]; rfl) hkept
      (by rw [hnode]; rfl) fun batch hbatch => Node.isPush_of_mem_ofSends hbatch
    exact ne_true_of_eq_false hnew (List.contains_iff_mem.mpr hmem)
  | round hdeed hup hnode _ =>
    subst hdeed
    rw [batches_gossipRound_of_isUp hup, hnode]
    refine ⟨fun rumor hrumor => Node.roundsLeft_pos_of_mem_ageRumors hrumor, fun id => ?_⟩
    have hbefore := h.within id
    have hbatches := Node.handed_batchesOfAll_le id
      ({ life.node with rumors := Node.ageRumors life.node.rumors } : Node) life.protocol life.linked
      (life.node.rumors.map (·.message))
    have hrounds := Node.roundsLeft_ageRumors id h.positive
    rw [Batch.handed_append]
    refine Nat.le_trans ?_ hbefore
    dsimp only [Node.withForwards] at hbatches ⊢
    omega

end Life

end Epidemic
