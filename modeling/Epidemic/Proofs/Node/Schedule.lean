import Epidemic.Proofs.Node.Attempts
import Epidemic.Random.Script
import Mathlib.Data.List.Induction

/-!
# The schedule of rumor rounds

Two kinds of things that happen to a node make its schedule: it learns a message, and it has a rumor
round. What it keeps at any time can be told from these alone. A message that it keeps is pushed again
in each of the rounds after it, until there were as many of them as the node has rumor rounds, and in
none after that; the messages of one round are pushed in the order in which they were learned.
-/

namespace Epidemic

/-- Something that happens to a live node and makes its schedule. -/
inductive Milestone where
  /-- It learns a message, and may keep it to push it on. -/
  | learned (message : Message) (isKept : Bool)
  /-- It has a rumor round. -/
  | round

namespace Milestone

/-- How many rumor rounds there are. -/
def rounds : List Milestone → Nat
  | [] => 0
  | .learned _ _ :: rest => rounds rest
  | .round :: rest => rounds rest + 1

/-- The ids of the messages that are learned. -/
def ids : List Milestone → List MessageId
  | [] => []
  | .learned message _ :: rest => message.id :: ids rest
  | .round :: rest => ids rest

/-- What is left of a message that is kept, after what has happened since: it is still pushed in as
many rounds as there are to come, if there are any. -/
def leftOf (rumorRounds : Nat) (message : Message) (since : List Milestone) : List Rumor :=
  if rounds since < rumorRounds then [⟨message, rumorRounds - rounds since⟩] else []

/-- What is left of all messages that were kept, in the order in which they were learned. -/
def pending (rumorRounds : Nat) : List Milestone → List Rumor
  | [] => []
  | .learned message isKept :: rest =>
    (if isKept then leftOf rumorRounds message rest else []) ++ pending rumorRounds rest
  | .round :: rest => pending rumorRounds rest

variable {rumorRounds : Nat} {message : Message} {isKept : Bool}

/-- The rounds of two histories. -/
theorem rounds_append (earlier later : List Milestone) :
    rounds (earlier ++ later) = rounds earlier + rounds later := by
  induction earlier with
  | nil => rw [List.nil_append, rounds, Nat.zero_add]
  | cons milestone rest ih =>
    cases milestone with
    | learned => simpa only [List.cons_append, rounds] using ih
    | round =>
      rw [List.cons_append, rounds, rounds, ih]
      omega

/-- The ids of two histories. -/
theorem ids_append (earlier later : List Milestone) :
    ids (earlier ++ later) = ids earlier ++ ids later := by
  induction earlier with
  | nil => rfl
  | cons milestone rest ih => cases milestone <;> simp only [List.cons_append, ids, ih]

/-- What is left of a message is the message, in as many rounds as are to come. -/
theorem mem_leftOf {since : List Milestone} {rumor : Rumor} :
    rumor ∈ leftOf rumorRounds message since ↔
      rounds since < rumorRounds ∧ rumor = ⟨message, rumorRounds - rounds since⟩ := by
  unfold leftOf
  split
  · rename_i hdue
    rw [List.mem_singleton]
    exact ⟨fun heq => ⟨hdue, heq⟩, And.right⟩
  · rename_i hover
    exact ⟨fun hmem => absurd hmem List.not_mem_nil, fun h => absurd h.1 hover⟩

/-- After one more round there is one round less to come. -/
theorem leftOf_concat_round (since : List Milestone) :
    leftOf rumorRounds message (since ++ [.round]) =
      Node.ageRumors (leftOf rumorRounds message since) := by
  have hrounds : rounds (since ++ [.round]) = rounds since + 1 := rounds_append since [.round]
  have hdue : 1 < rumorRounds - rounds since ↔ rounds since + 1 < rumorRounds := by omega
  unfold leftOf
  rw [hrounds]
  split
  · rename_i hlt
    rw [if_pos (by omega), Node.ageRumors_singleton, if_pos (hdue.mpr hlt), Nat.sub_sub]
  · rename_i hnone
    split
    · rw [Node.ageRumors_singleton, if_neg fun h => hnone (hdue.mp h)]
    · rfl

/-- Another message that is learned changes nothing for a message that is kept. -/
theorem leftOf_concat_learned (since : List Milestone) (other : Message) :
    leftOf rumorRounds message (since ++ [.learned other isKept]) =
      leftOf rumorRounds message since := by
  have hrounds : rounds (since ++ [.learned other isKept]) = rounds since :=
    rounds_append since [.learned other isKept]
  rw [leftOf, leftOf, hrounds]

/-- One more round lets all that is left age. -/
theorem pending_concat_round (history : List Milestone) :
    pending rumorRounds (history ++ [.round]) = Node.ageRumors (pending rumorRounds history) := by
  induction history with
  | nil => rfl
  | cons milestone rest ih =>
    cases milestone with
    | learned message isKept =>
      rw [List.cons_append, pending, pending, ih, Node.ageRumors_append, leftOf_concat_round]
      cases isKept <;> rfl
    | round => exact ih

/-- One more message that is learned adds what is kept of it. -/
theorem pending_concat_learned (history : List Milestone) :
    pending rumorRounds (history ++ [.learned message isKept]) =
      pending rumorRounds history ++ if isKept then leftOf rumorRounds message [] else [] := by
  induction history with
  | nil => exact List.append_nil _
  | cons milestone rest ih =>
    cases milestone with
    | learned other isKept =>
      rw [List.cons_append, pending, pending, ih, leftOf_concat_learned, List.append_assoc]
    | round => exact ih

/-- All that is left was learned, and is still pushed in one round at least and in as many as there
are at most. -/
theorem of_mem_pending {history : List Milestone} {rumor : Rumor}
    (h : rumor ∈ pending rumorRounds history) :
    rumor.message.id ∈ ids history ∧ 1 ≤ rumor.roundsLeft ∧ rumor.roundsLeft ≤ rumorRounds := by
  induction history with
  | nil => cases h
  | cons milestone rest ih =>
    cases milestone with
    | learned message isKept =>
      rcases List.mem_append.mp h with hhere | hlater
      · cases isKept with
        | false => cases hhere
        | true =>
          obtain ⟨hlt, rfl⟩ := mem_leftOf.mp hhere
          refine ⟨List.mem_cons_self, ?_, ?_⟩ <;> dsimp only <;> omega
      · obtain ⟨hid, hbounds⟩ := ih hlater
        exact ⟨List.mem_cons_of_mem _ hid, hbounds⟩
    | round => exact ih h

/-- Nothing is left of a message that is not learned. -/
theorem filter_pending_eq_nil {history : List Milestone} {id : MessageId} (h : id ∉ ids history) :
    (pending rumorRounds history).filter (fun rumor => rumor.message.id == id) = [] := by
  refine List.filter_eq_nil_iff.mpr fun rumor hmem heq => h ?_
  rw [← beq_iff_eq.mp heq]
  exact (of_mem_pending hmem).1

/-- If every message is learned once, what is left of one of them can be told from what has happened
since it was learned. -/
theorem filter_pending {earlier since : List Milestone}
    (h : (ids (earlier ++ .learned message isKept :: since)).Nodup) :
    (pending rumorRounds (earlier ++ .learned message isKept :: since)).filter
        (fun rumor => rumor.message.id == message.id) =
      if isKept then leftOf rumorRounds message since else [] := by
  induction earlier with
  | nil =>
    have hlater : (pending rumorRounds since).filter (fun rumor => rumor.message.id == message.id) =
        [] := filter_pending_eq_nil (List.nodup_cons.mp h).1
    rw [List.nil_append, pending, List.filter_append, hlater, List.append_nil]
    refine List.filter_eq_self.mpr fun rumor hmem => ?_
    cases isKept with
    | false => cases hmem
    | true =>
      obtain ⟨-, rfl⟩ := mem_leftOf.mp hmem
      exact beq_self_eq_true message.id
  | cons milestone rest ih =>
    cases milestone with
    | learned other isOtherKept =>
      obtain ⟨hother, hrest⟩ := List.nodup_cons.mp h
      have hmem : message.id ∈ ids (rest ++ .learned message isKept :: since) := by
        rw [ids_append]
        exact List.mem_append_right _ List.mem_cons_self
      rw [List.cons_append, pending, List.filter_append, ih hrest]
      have hnone : (if isOtherKept then leftOf rumorRounds other
          (rest ++ .learned message isKept :: since) else []).filter
            (fun rumor => rumor.message.id == message.id) = [] := by
        refine List.filter_eq_nil_iff.mpr fun rumor hin heq => ?_
        cases isOtherKept with
        | false => cases hin
        | true =>
          obtain ⟨-, rfl⟩ := mem_leftOf.mp hin
          exact hother (beq_iff_eq.mp heq ▸ hmem)
      rw [hnone, List.nil_append]
    | round => exact ih h

end Milestone

namespace Life

variable {π : Type} [Policy π]

/-- What happens to a node, if it makes the schedule: a live node learns the message of a broadcast and
a new message that it is given, which it keeps if the protocol says so, and it has its rounds. -/
def milestone? (life : Life π) (now : Nat) : Deed → Option Milestone
  | .broadcast id kind payload =>
    if life.node.isDown then none
    else some (.learned (life.node.compose now id kind payload) true)
  | .receive message _ =>
    if life.node.isDown || life.node.hasSeen message.id then none
    else some (.learned message (Policy.forwards life.protocol message now).1)
  | .gossipRound => if life.node.isDown then none else some .round
  | _ => none

/-- Nothing that makes the schedule happens to a node that is down, or that is neither offered a new
message nor given a rumor round. -/
theorem milestone?_eq_none {life : Life π} {now : Nat} {deed : Deed}
    (h : life.node.isDown = true ∨ deed ≠ .gossipRound ∧
      ∀ message, deed.message? life.node.id now = some message →
        (∃ sender, deed = .receive message sender) ∧ life.node.hasSeen message.id = true) :
    life.milestone? now deed = none := by
  cases deed with
  | addPeer | shutdown | unlink => rfl
  | broadcast id kind payload =>
    rcases h with hdown | ⟨-, hoffered⟩
    · exact if_pos hdown
    · obtain ⟨⟨sender, hdeed⟩, -⟩ := hoffered _ rfl
      cases hdeed
  | receive message sender =>
    rcases h with hdown | ⟨-, hoffered⟩
    · simp [milestone?, hdown]
    · simp [milestone?, (hoffered message rfl).2]
  | gossipRound =>
    rcases h with hdown | ⟨hround, -⟩
    · exact if_pos hdown
    · exact absurd rfl hround

/-- What a node learns it has not seen, if it makes no broadcast under an id that it has seen. -/
theorem not_mem_seen_of_learned {life : Life π} {now : Nat} {deed : Deed} {message : Message}
    {isKept : Bool} (h : life.milestone? now deed = some (.learned message isKept))
    (hfresh : ∀ id ∈ deed.generated?, life.node.hasSeen id = false) :
    message.id ∉ life.node.seen := by
  intro hmem
  have hseen : life.node.hasSeen message.id = true := List.contains_iff_mem.mpr hmem
  cases deed with
  | addPeer | shutdown | unlink => cases h
  | broadcast id kind payload =>
    rw [milestone?] at h
    split at h
    · cases h
    · cases h
      exact ne_true_of_eq_false (hfresh id rfl) hseen
  | receive received sender =>
    rw [milestone?] at h
    split at h
    · cases h
    · rename_i hnew
      cases h
      rw [hseen, Bool.or_true] at hnew
      exact hnew rfl
  | gossipRound =>
    rw [milestone?] at h
    split at h <;> cases h

/-- What happens to a node, one thing after the other. -/
def milestones : Life π → List (Nat × Deed) → List Milestone
  | _, [] => []
  | life, (now, deed) :: rest =>
    (life.milestone? now deed).toList ++ (life.step now deed).1.milestones rest

/-- What happens to a node at first, and what happens to it then. -/
theorem milestones_append (life : Life π) (earlier later : List (Nat × Deed)) :
    life.milestones (earlier ++ later) =
      life.milestones earlier ++ (life.run earlier).milestones later := by
  induction earlier generalizing life with
  | nil => rfl
  | cons entry rest ih =>
    rw [List.cons_append, milestones, milestones, ih, List.append_assoc]
    rfl

/-- What is kept and what is seen after something was done to a node can be told from what has
happened to it. -/
theorem step_milestone (life : Life π) (now : Nat) (deed : Deed) :
    match life.milestone? now deed with
    | none =>
      (life.step now deed).1.node.rumors = life.node.rumors ∧
        (life.step now deed).1.node.seen = life.node.seen
    | some (.learned message isKept) =>
      (life.step now deed).1.node.rumors =
          life.node.rumors ++ (if isKept then life.node.keepsakes message else []) ∧
        (life.step now deed).1.node.seen = message.id :: life.node.seen
    | some .round =>
      (life.step now deed).1.node.rumors = Node.ageRumors life.node.rumors ∧
        (life.step now deed).1.node.seen = life.node.seen := by
  have hcourse := course_step life now deed
  generalize (life.step now deed).1 = after at hcourse ⊢
  generalize (life.step now deed).2 = sends at hcourse
  cases hcourse with
  | still hreason hnode _ _ =>
    obtain ⟨peers, isDown, duplicates, hnode⟩ := hnode
    rw [milestone?_eq_none hreason, hnode]
    exact ⟨rfl, rfl⟩
  | @originate id kind payload _ hdeed hup hnode _ =>
    subst hdeed
    rw [milestone?, if_neg (ne_true_of_eq_false hup), hnode]
    exact ⟨rfl, rfl⟩
  | @accept message sender _ hdeed hup hnew hnode _ =>
    subst hdeed
    rw [milestone?, hup, hnew, hnode]
    exact ⟨rfl, rfl⟩
  | round hdeed hup hnode _ =>
    subst hdeed
    rw [milestone?, if_neg (ne_true_of_eq_false hup), hnode]
    exact ⟨rfl, rfl⟩

/-- What a new node keeps is what is left of all that it has learned and kept. -/
theorem rumors_run (id : NodeId) (rumorRounds : Nat) (protocol : π)
    (entries : List (Nat × Deed)) :
    ((new id rumorRounds protocol).run entries).node.rumors =
      Milestone.pending rumorRounds ((new id rumorRounds protocol).milestones entries) := by
  -- From the end: what is done last changes what is left of everything that was done before.
  induction entries using List.reverseRecOn with
  | nil => rfl
  | append_singleton entries entry ih =>
    have hrun : (new id rumorRounds protocol).run (entries ++ [entry]) =
        (((new id rumorRounds protocol).run entries).step entry.1 entry.2).1 := List.foldl_concat ..
    have hrounds := (run_keeps (new id rumorRounds protocol) entries).2.1
    have hstep := step_milestone ((new id rumorRounds protocol).run entries) entry.1 entry.2
    rw [hrun, milestones_append, milestones, milestones, List.append_nil]
    generalize ((new id rumorRounds protocol).run entries).milestone? entry.1 entry.2 = milestone
      at hstep ⊢
    match milestone with
    | none =>
      rw [hstep.1, ih]
      exact (congrArg _ (List.append_nil _)).symm
    | some (.learned message isKept) =>
      rw [hstep.1, ih, Option.toList_some, Milestone.pending_concat_learned, Node.keepsakes, hrounds]
      rfl
    | some .round =>
      rw [hstep.1, ih, Option.toList_some, Milestone.pending_concat_round]

/-- A node learns each message once, and none that it has seen before. -/
theorem nodup_ids_milestones (life : Life π) (entries : List (Nat × Deed))
    (hfresh : life.GeneratesFresh entries) :
    (Milestone.ids (life.milestones entries)).Nodup ∧
      ∀ id ∈ Milestone.ids (life.milestones entries), id ∉ life.node.seen := by
  induction entries generalizing life with
  | nil => exact ⟨List.nodup_nil, fun id hmem => absurd hmem List.not_mem_nil⟩
  | cons entry rest ih =>
    obtain ⟨hnodup, hunseen⟩ := ih (life.step entry.1 entry.2).1 hfresh.2
    have hstep := step_milestone life entry.1 entry.2
    rw [milestones]
    cases hmilestone : life.milestone? entry.1 entry.2 with
    | none =>
      rw [hmilestone] at hstep
      rw [hstep.2] at hunseen
      exact ⟨hnodup, hunseen⟩
    | some milestone =>
      rw [hmilestone] at hstep
      cases milestone with
      | learned message isKept =>
        have hnew := not_mem_seen_of_learned hmilestone hfresh.1
        rw [hstep.2] at hunseen
        refine ⟨List.nodup_cons.mpr ⟨fun hmem => hunseen _ hmem List.mem_cons_self, hnodup⟩, ?_⟩
        intro id hmem
        rcases List.mem_cons.mp hmem with rfl | hlater
        · exact hnew
        · exact fun hseen => hunseen id hlater (List.mem_cons_of_mem _ hseen)
      | round =>
        rw [hstep.2] at hunseen
        exact ⟨hnodup, hunseen⟩

/-- What is left of a message after its node has learned it, and after what was done to it since. -/
theorem filter_rumors_run (id : NodeId) (rumorRounds : Nat) (protocol : π)
    {before since : List (Nat × Deed)} {now : Nat} {deed : Deed}
    (hfresh : (new id rumorRounds protocol).GeneratesFresh (before ++ (now, deed) :: since))
    {message : Message} {isKept : Bool}
    (h : ((new id rumorRounds protocol).run before).milestone? now deed =
      some (.learned message isKept)) :
    ((new id rumorRounds protocol).run (before ++ (now, deed) :: since)).node.rumors.filter
        (fun rumor => rumor.message.id == message.id) =
      if isKept then
        Milestone.leftOf rumorRounds message
          ((((new id rumorRounds protocol).run before).step now deed).1.milestones since)
      else [] := by
  have hnodup := (nodup_ids_milestones _ _ hfresh).1
  have hhistory : (new id rumorRounds protocol).milestones (before ++ (now, deed) :: since) =
      (new id rumorRounds protocol).milestones before ++ .learned message isKept ::
        (((new id rumorRounds protocol).run before).step now deed).1.milestones since := by
    rw [milestones_append, milestones, h]
    rfl
  rw [hhistory] at hnodup
  rw [rumors_run, hhistory]
  exact Milestone.filter_pending hnodup

/-- A rumor round of a live node pushes what it keeps to peers that are drawn for each message anew,
and its result is the number of these messages. -/
theorem gossipRound_eq_draws (life : Life π) (hup : life.node.isDown = false) :
    (life.node.gossipRound life.protocol life.linked).result = life.node.rumors.length ∧
      (life.node.gossipRound life.protocol life.linked).sends =
        (Policy.draws life.protocol life.node.peers
          (life.node.rumors.map fun rumor => ⟨rumor.message, none⟩)).1.flatMap
            (·.sends life.node.id life.linked) ∧
      (life.node.gossipRound life.protocol life.linked).protocol =
        (Policy.draws life.protocol life.node.peers
          (life.node.rumors.map fun rumor => ⟨rumor.message, none⟩)).2 := by
  obtain ⟨hbatches, hprotocol⟩ := Node.pushAll_eq_draws
    ({ life.node with rumors := Node.ageRumors life.node.rumors } : Node) life.protocol life.linked
    (life.node.rumors.map (·.message))
  rw [List.map_map] at hbatches hprotocol
  have hsends := Node.flatten_batchesOfAll
    ({ life.node with rumors := Node.ageRumors life.node.rumors } : Node) life.protocol life.linked
    (life.node.rumors.map (·.message))
  rw [hbatches, Attempt.flatten_batches] at hsends
  rw [Node.gossipRound, if_neg (ne_true_of_eq_false hup)]
  exact ⟨List.length_map _, hsends.symm, hprotocol⟩

/-- A rumor round changes nothing of a node but what it keeps and the count of its batches. -/
theorem gossipRound_keeps (life : Life π) :
    ∃ rumors forwards, (life.node.gossipRound life.protocol life.linked).node =
      ({ life.node with rumors } : Node).withForwards forwards := by
  cases hdown : life.node.isDown with
  | true => exact ⟨life.node.rumors, life.node.stats.forwards, by
      rw [Node.gossipRound_of_isDown hdown]; rfl⟩
  | false =>
    obtain ⟨forwards, hnode⟩ := (Node.gossipRound_of_isUp hdown life.protocol life.linked).1
    exact ⟨_, forwards, hnode⟩

/-- Whatever its policy, what a node keeps is what it has learned, and was to pass on, since fewer rumor
rounds than it has for a message, in the order in which it has learned it; what it was not to pass on is
never kept. A round of a live node pushes exactly this, once each, to peers that are drawn anew and none
of which is left out; its result is the number of these messages. Each is kept for one round at least
and for no more than there are. No round changes anything of a node but this and the count of batches. -/
theorem repushed_on_schedule (id : NodeId) (rumorRounds : Nat) (protocol : π)
    (entries : List (Nat × Deed)) (hfresh : (new id rumorRounds protocol).GeneratesFresh entries) :
    let life := (new id rumorRounds protocol).run entries
    let round := life.node.gossipRound life.protocol life.linked
    let drawn := Policy.draws life.protocol life.node.peers
      (life.node.rumors.map fun rumor => ⟨rumor.message, none⟩)
    life.node.rumors =
      Milestone.pending rumorRounds ((new id rumorRounds protocol).milestones entries) ∧
    (∀ before now deed since message isKept, entries = before ++ (now, deed) :: since →
      ((new id rumorRounds protocol).run before).milestone? now deed =
        some (.learned message isKept) →
      life.node.rumors.filter (fun rumor => rumor.message.id == message.id) =
        if isKept then
          Milestone.leftOf rumorRounds message
            ((((new id rumorRounds protocol).run before).step now deed).1.milestones since)
        else []) ∧
    (∀ rumor ∈ life.node.rumors, 1 ≤ rumor.roundsLeft ∧ rumor.roundsLeft ≤ rumorRounds) ∧
    drawn.1.map (·.message) = life.node.rumors.map (·.message) ∧
    (life.node.isDown = false → round.result = life.node.rumors.length ∧
      round.sends = drawn.1.flatMap (·.sends id life.linked) ∧ round.protocol = drawn.2) ∧
    (life.node.isDown = true → round.result = 0 ∧ round.sends = [] ∧ round.node = life.node ∧
      round.protocol = life.protocol) ∧
    (∃ rumors forwards, round.node = ({ life.node with rumors } : Node).withForwards forwards) := by
  intro life round drawn
  have hid : life.node.id = id := (run_keeps (new id rumorRounds protocol) entries).1
  have hrumors := rumors_run id rumorRounds protocol entries
  refine ⟨hrumors, ?_, fun rumor hmem => ?_, ?_, fun hup => ?_, fun hdown => ?_,
    gossipRound_keeps life⟩
  · intro before now deed since message isKept hentries hlearned
    subst hentries
    exact filter_rumors_run id rumorRounds protocol hfresh hlearned
  · rw [hrumors] at hmem
    exact (Milestone.of_mem_pending hmem).2
  · rw [Policy.map_message_draws, List.map_map]
    rfl
  · rw [← hid]
    exact life.gossipRound_eq_draws hup
  · have hround : round = ⟨0, life.node, life.protocol, []⟩ := Node.gossipRound_of_isDown hdown
    exact ⟨congrArg Turn.result hround, congrArg Turn.sends hround, congrArg Turn.node hround,
      congrArg Turn.protocol hround⟩

/-- A node with two rumor rounds that has one after its broadcast, and one more when it has learned
another message. -/
def retold : List (Nat × Deed) :=
  [(0, .addPeer "b"), (1, .broadcast "first" "update" []), (2, .gossipRound),
    (3, .receive ⟨"second", "update", "b", [], 2⟩ "b"), (4, .gossipRound)]

/-- The broadcast has had its rounds, the other message has one left. -/
theorem repushed_on_schedule_retold :
    (new "a" 2 (⟨1, none, ⟨[]⟩⟩ : Protocol Random.Script)).GeneratesFresh retold ∧
      let life := (new "a" 2 (⟨1, none, ⟨[]⟩⟩ : Protocol Random.Script)).run retold
      (life.node.rumors.map fun rumor => (rumor.message.id, rumor.roundsLeft)) = [("second", 1)] ∧
      (life.node.gossipRound life.protocol life.linked).result = 1 := by
  have hfresh : (new "a" 2 (⟨1, none, ⟨[]⟩⟩ : Protocol Random.Script)).GeneratesFresh retold := by
    decide +kernel
  have hschedule := repushed_on_schedule "a" 2 (⟨1, none, ⟨[]⟩⟩ : Protocol Random.Script) retold hfresh
  have hrumors := hschedule.1
  have hresult := (hschedule.2.2.2.2.1 (by decide +kernel)).1
  refine ⟨hfresh, ?_, ?_⟩
  · rw [hrumors]
    decide +kernel
  · rw [hresult, hrumors]
    decide +kernel

end Life

end Epidemic
