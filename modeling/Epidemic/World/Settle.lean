import Epidemic.World.Basic

/-!
# Settling

A world settles by giving every ready task its turn, those included that become ready meanwhile,
while the clock stands still. This ends: a rumor round is not repeated before the clock moves; a
message that a node has not seen makes the number of messages on their way that some node has not
seen smaller; and every other task makes the queue shorter. These three numbers, in this order, are
the measure by which `settle` is defined.
-/

namespace Epidemic.World

variable {σ : Type} {k : Nat}

/-! ## The measure -/

/-- How many distinct ids of a list a node has not seen. -/
def unseenCount (ids : List MessageId) (node : Node) : Nat :=
  (ids.eraseDups.filter fun id => !node.hasSeen id).length

/-- How often a message that is ready to be carried has not been seen by a node. -/
def unseenPairs (ids : List MessageId) : List (Member k) → Nat
  | [] => 0
  | member :: rest => unseenCount ids member.node + unseenPairs ids rest

/-- What becomes smaller with every turn, in lexicographic order. -/
def measure (world : World σ k) : Nat × Nat × Nat :=
  (world.agenda.ready.countP Task.isRounds,
    unseenPairs (world.agenda.ready.filterMap Task.messageId?) world.members,
    world.agenda.ready.length)

/-- The world without its first ready task. -/
def withReady (world : World σ k) (ready : List Task) : World σ k :=
  { world with agenda := { world.agenda with ready } }

/-! ## Lists without repetitions -/

/-- A list has no repetitions after they are erased. -/
theorem nodup_eraseDups (ids : List MessageId) : ids.eraseDups.Nodup := by
  induction h : ids.length using Nat.strongRecOn generalizing ids with
  | ind n ih =>
    cases ids with
    | nil => exact List.nodup_nil
    | cons id rest =>
      rw [List.eraseDups_cons, List.nodup_cons]
      have hl : (rest.filter fun b => !b == id).length < n := by
        have := List.length_filter_le (fun b => !b == id) rest
        simp only [List.length_cons] at h
        omega
      refine ⟨fun hm => ?_, ih _ hl _ rfl⟩
      have := (List.mem_filter.mp (List.mem_eraseDups.mp hm)).2
      simp at this

/-- The ids that are counted for a node. -/
theorem mem_unseen {ids : List MessageId} {node : Node} {id : MessageId} :
    id ∈ (ids.eraseDups.filter fun id => !node.hasSeen id) ↔ id ∈ ids ∧ node.hasSeen id = false := by
  simp only [List.mem_filter, List.mem_eraseDups, Bool.not_eq_true']

/-- Fewer ids and more seen of them leave no more unseen ones. -/
theorem unseenCount_le {ids ids' : List MessageId} {node node' : Node} (hids : ids' ⊆ ids)
    (hseen : ∀ id, node.hasSeen id → node'.hasSeen id) :
    unseenCount ids' node' ≤ unseenCount ids node := by
  refine List.Nodup.length_le_of_subset ((nodup_eraseDups ids').filter _) fun id h => ?_
  rw [mem_unseen] at h ⊢
  refine ⟨hids h.1, ?_⟩
  cases hn : node.hasSeen id with
  | false => rfl
  | true => rw [hseen id hn] at h; exact absurd h.2 (by simp)

/-- One id that is seen from now on leaves fewer unseen ones. -/
theorem unseenCount_lt {ids ids' : List MessageId} {node node' : Node} {id : MessageId}
    (hids : ids' ⊆ ids) (hseen : ∀ id, node.hasSeen id → node'.hasSeen id) (hmem : id ∈ ids)
    (hold : node.hasSeen id = false) (hnew : node'.hasSeen id = true) :
    unseenCount ids' node' < unseenCount ids node := by
  have hnodup : (id :: (ids'.eraseDups.filter fun id => !node'.hasSeen id)).Nodup := by
    rw [List.nodup_cons, mem_unseen]
    exact ⟨fun h => by rw [hnew] at h; exact absurd h.2 (by simp), (nodup_eraseDups ids').filter _⟩
  refine List.Nodup.length_le_of_subset hnodup fun other h => ?_
  rw [mem_unseen]
  rcases List.mem_cons.mp h with rfl | h
  · exact ⟨hmem, hold⟩
  · rw [mem_unseen] at h
    refine ⟨hids h.1, ?_⟩
    cases hn : node.hasSeen other with
    | false => rfl
    | true => rw [hseen other hn] at h; exact absurd h.2 (by simp)

/-- Fewer ids leave no more unseen pairs. -/
theorem unseenPairs_le {ids ids' : List MessageId} (hids : ids' ⊆ ids)
    (members : List (Member k)) : unseenPairs ids' members ≤ unseenPairs ids members := by
  induction members with
  | nil => exact Nat.le_refl _
  | cons member rest ih =>
    have : unseenCount ids' member.node ≤ unseenCount ids member.node :=
      unseenCount_le hids fun _ h => h
    simp only [unseenPairs] at ih ⊢
    omega

/-- Putting a member in place of another leaves no more unseen pairs if it has seen all that the
other has, and fewer if it has seen one id more. -/
theorem unseenPairs_set {ids ids' : List MessageId} (hids : ids' ⊆ ids)
    {members : List (Member k)} {index : Nat} {member member' : Member k}
    (hat : members[index]? = some member)
    (hseen : ∀ id, member.node.hasSeen id → member'.node.hasSeen id) :
    unseenPairs ids' (members.set index member') ≤ unseenPairs ids members ∧
      ∀ id ∈ ids, member.node.hasSeen id = false → member'.node.hasSeen id = true →
        unseenPairs ids' (members.set index member') < unseenPairs ids members := by
  induction members generalizing index with
  | nil => simp at hat
  | cons first rest ih =>
    cases index with
    | zero =>
      simp only [List.getElem?_cons_zero, Option.some.injEq] at hat
      subst hat
      have hrest := unseenPairs_le hids rest
      simp only [unseenPairs, List.set_cons_zero] at hrest ⊢
      refine ⟨?_, fun id hmem hold hnew => ?_⟩
      · have := unseenCount_le hids hseen
        omega
      · have := unseenCount_lt hids hseen hmem hold hnew
        omega
    | succ index =>
      rw [List.getElem?_cons_succ] at hat
      have hfirst : unseenCount ids' first.node ≤ unseenCount ids first.node :=
        unseenCount_le hids fun _ h => h
      obtain ⟨hle, hlt⟩ := ih hat
      simp only [unseenPairs, List.set_cons_succ] at hle hlt ⊢
      refine ⟨by omega, fun id hmem hold hnew => ?_⟩
      have := hlt id hmem hold hnew
      omega

/-! ## What sends add to the queue -/

variable [Random.Source σ]

/-- Hands over one send: the members stay, and the queue grows by its delivery at most. -/
theorem send_spec (world : World σ k) (envelope : Envelope) :
    (world.send envelope).members = world.members ∧
      ∃ tasks, (world.send envelope).agenda.ready = world.agenda.ready ++ tasks ∧
        ∀ task ∈ tasks, task.messageId? = some envelope.message.id := by
  unfold send
  dsimp only
  split
  · refine ⟨rfl, [_], rfl, fun task h => ?_⟩
    rw [List.mem_singleton.mp h]
    rfl
  · exact ⟨rfl, [], (List.append_nil _).symm, fun _ h => absurd h (by simp)⟩

/-- Hands over several sends: the members stay, and the queue grows by their deliveries at most. -/
theorem sendAll_spec (world : World σ k) (envelopes : List Envelope) :
    (world.sendAll envelopes).members = world.members ∧
      ∃ tasks, (world.sendAll envelopes).agenda.ready = world.agenda.ready ++ tasks ∧
        ∀ task ∈ tasks, ∃ envelope ∈ envelopes, task.messageId? = some envelope.message.id := by
  induction envelopes generalizing world with
  | nil => exact ⟨rfl, [], (List.append_nil _).symm, fun _ h => absurd h (by simp)⟩
  | cons envelope rest ih =>
    obtain ⟨hm, tasks, hr, ht⟩ := send_spec world envelope
    obtain ⟨hm', tasks', hr', ht'⟩ := ih (world.send envelope)
    refine ⟨hm'.trans hm, tasks ++ tasks', ?_, fun task h => ?_⟩
    · rw [← List.append_assoc, ← hr]
      exact hr'
    · rcases List.mem_append.mp h with h | h
      · exact ⟨envelope, List.mem_cons_self, ht task h⟩
      · obtain ⟨other, hmem, heq⟩ := ht' task h
        exact ⟨other, List.mem_cons_of_mem _ hmem, heq⟩

/-- A task with a message is no rumor round. -/
theorem isRounds_eq_false {task : Task} {id : MessageId} (h : task.messageId? = some id) :
    task.isRounds = false := by
  cases task with
  | parcel => rfl
  | rounds => cases h

/-- Tasks with messages hold no rumor round. -/
theorem countP_isRounds_eq_zero {tasks : List Task}
    (h : ∀ task ∈ tasks, ∃ id, task.messageId? = some id) : tasks.countP Task.isRounds = 0 := by
  rw [List.countP_eq_zero]
  intro task hmem
  obtain ⟨id, hid⟩ := h task hmem
  simp [isRounds_eq_false hid]

/-- When a node acts its place is taken by what it has become, and the queue grows by the deliveries
of its sends at most. -/
theorem act_spec {α : Type} {world after : World σ k} {index : Nat} {result : α}
    {operation : Node → Protocol σ → Turn (Protocol σ) α}
    (h : world.act index operation = some (result, after)) :
    ∃ member, world.members[index]? = some member ∧
      ∃ turn, turn = operation member.node (world.protocolOf member) ∧
        after.members = world.members.set index { member with node := turn.node } ∧
        ∃ tasks, after.agenda.ready = world.agenda.ready ++ tasks ∧
          ∀ task ∈ tasks, ∃ envelope ∈ turn.sends, task.messageId? = some envelope.message.id := by
  simp only [act, Option.bind_eq_bind, Option.bind_eq_some_iff] at h
  obtain ⟨member, hat, h⟩ := h
  cases h
  obtain ⟨hm, tasks, hr, ht⟩ := sendAll_spec
    (world.replace index
      { member with node := (operation member.node (world.protocolOf member)).node }
      (operation member.node (world.protocolOf member)).protocol)
    (operation member.node (world.protocolOf member)).sends
  exact ⟨member, hat, _, rfl, hm, tasks, hr, ht⟩

/-- The number of ready rumor rounds stays when a node acts. -/
theorem countP_act {α : Type} {world after : World σ k} {index : Nat} {result : α}
    {operation : Node → Protocol σ → Turn (Protocol σ) α}
    (h : world.act index operation = some (result, after)) :
    after.agenda.ready.countP Task.isRounds = world.agenda.ready.countP Task.isRounds := by
  obtain ⟨_, _, _, _, _, tasks, hr, ht⟩ := act_spec h
  rw [hr, List.countP_append, countP_isRounds_eq_zero fun task hmem =>
    (ht task hmem).elim fun _ h => ⟨_, h.2⟩, Nat.add_zero]

/-- The number of ready rumor rounds stays in a rumor round. -/
theorem countP_roundOf (world : World σ k) (indexes : List Nat) :
    (world.roundOf indexes).agenda.ready.countP Task.isRounds =
      world.agenda.ready.countP Task.isRounds := by
  induction indexes generalizing world with
  | nil => rfl
  | cons index rest ih =>
    rw [roundOf]
    split
    · rename_i after h
      rw [gossipRound_eq_act] at h
      have hact : after.agenda.ready.countP Task.isRounds = _ := countP_act h
      exact (ih _).trans hact
    · exact ih world

/-! ## Every turn makes the measure smaller -/

/-- Less ready rumor rounds make the measure smaller. -/
theorem measure_lt_of_rounds {a b : Nat × Nat × Nat} (h : a.1 < b.1) :
    Prod.Lex (· < ·) (Prod.Lex (· < ·) (· < ·)) a b := by
  obtain ⟨a, a'⟩ := a
  obtain ⟨b, b'⟩ := b
  exact Prod.Lex.left a' b' h

/-- With as many rumor rounds, fewer unseen pairs make the measure smaller, and so does a shorter
queue if there are not more of these. -/
theorem measure_lt_of_pairs {a b : Nat × Nat × Nat} (h : a.1 = b.1)
    (h' : a.2.1 < b.2.1 ∨ a.2.1 ≤ b.2.1 ∧ a.2.2 < b.2.2) :
    Prod.Lex (· < ·) (Prod.Lex (· < ·) (· < ·)) a b := by
  obtain ⟨a, a₁, a₂⟩ := a
  obtain ⟨b, b₁, b₂⟩ := b
  dsimp only at h h'
  subst h
  refine Prod.Lex.right a ?_
  rcases Nat.lt_or_ge a₁ b₁ with hlt | hge
  · exact Prod.Lex.left _ _ hlt
  · obtain rfl : a₁ = b₁ := by omega
    exact Prod.Lex.right _ (by omega)

/-- The measure after a delivery, whose task was the first one in the queue. -/
theorem measure_deliver (world : World σ k) (parcel : Parcel) (rest : List Task)
    (h : world.agenda.ready = .parcel 0 parcel :: rest) :
    Prod.Lex (· < ·) (Prod.Lex (· < ·) (· < ·)) ((world.withReady rest).deliver parcel).measure
      world.measure := by
  have hids : rest.filterMap Task.messageId? ⊆ world.agenda.ready.filterMap Task.messageId? := by
    rw [h]
    exact fun _ hm => List.mem_cons_of_mem _ hm
  have hmem : parcel.envelope.message.id ∈ world.agenda.ready.filterMap Task.messageId? := by
    rw [h]
    exact List.mem_cons_self
  have hcount : world.agenda.ready.countP Task.isRounds = rest.countP Task.isRounds := by
    rw [h]
    rfl
  have hlength : world.agenda.ready.length = rest.length + 1 := by
    rw [h]
    rfl
  have hkept : ∀ w : World σ k, w.members = world.members → w.agenda.ready = rest →
      Prod.Lex (· < ·) (Prod.Lex (· < ·) (· < ·)) w.measure world.measure := by
    intro w hm hr
    refine measure_lt_of_pairs ?_ (Or.inr ⟨?_, ?_⟩)
    · simp only [measure, hr, hcount]
    · simp only [measure, hr, hm]
      exact unseenPairs_le hids _
    · simp only [measure, hr, hlength]
      exact Nat.lt_succ_self _
  unfold deliver
  dsimp only
  split
  · exact hkept _ rfl rfl
  · split
    · exact hkept _ rfl rfl
    · split
      · rename_i reception after hact
        have hrounds := (countP_act hact).trans hcount.symm
        refine measure_lt_of_pairs hrounds ?_
        obtain ⟨member, hat, turn, hturn, hm, tasks, hr, ht⟩ := act_spec hact
        have hat : world.members[_]? = some member := hat
        have hr : after.agenda.ready = rest ++ tasks := hr
        have hmono : ∀ id, member.node.hasSeen id → turn.node.hasSeen id := by
          intro id hid
          rw [hturn, Node.hasSeen, Node.seen_receive]
          split
          · exact hid
          · exact List.contains_iff_mem.mpr
              (List.mem_cons_of_mem _ (List.contains_iff_mem.mp hid))
        by_cases hsends : turn.sends = []
        · have htasks : tasks = [] := by
            refine List.eq_nil_iff_forall_not_mem.mpr fun task hmem => ?_
            obtain ⟨_, hno, _⟩ := ht task hmem
            rw [hsends] at hno
            cases hno
          rw [htasks, List.append_nil] at hr
          refine Or.inr ⟨?_, ?_⟩
          · simp only [measure, record, hr, hm]
            exact (unseenPairs_set hids hat hmono).1
          · simp only [measure, record, hr, hlength]
            exact Nat.lt_succ_self _
        · refine Or.inl ?_
          rw [hturn] at hsends
          have hfresh := Node.isDown_or_hasSeen_of_receive hsends
          have hids' : (rest ++ tasks).filterMap Task.messageId? ⊆
              world.agenda.ready.filterMap Task.messageId? := by
            rw [List.filterMap_append]
            refine List.append_subset.mpr ⟨hids, fun id hid => ?_⟩
            obtain ⟨task, htask, hid⟩ := List.mem_filterMap.mp hid
            obtain ⟨envelope, hsent, heq⟩ := ht task htask
            rw [hturn] at hsent
            rw [hid, Node.message_of_mem_receive hsent] at heq
            rw [Option.some.inj heq]
            exact hmem
          simp only [measure, record, hr, hm]
          refine (unseenPairs_set hids' hat hmono).2 _ hmem ?_ ?_
          · exact (Bool.or_eq_false_iff.mp hfresh).2
          · rw [hturn, Node.hasSeen, Node.seen_receive, hfresh]
            simp
      · exact hkept _ rfl rfl

/-- The measure after a rumor round, whose task was the first one in the queue. -/
theorem measure_roundOfAll (world : World σ k) (interval : Nat) (rest : List Task)
    (h : world.agenda.ready = .rounds interval :: rest) :
    Prod.Lex (· < ·) (Prod.Lex (· < ·) (· < ·)) ((world.withReady rest).roundOfAll interval).measure
      world.measure := by
  have hcount : world.agenda.ready.countP Task.isRounds = rest.countP Task.isRounds + 1 := by
    rw [h]
    exact List.countP_cons_of_pos rfl
  refine measure_lt_of_rounds ?_
  simp only [measure, hcount]
  unfold roundOfAll
  split
  · exact Nat.lt_succ_self _
  · exact Nat.lt_succ_of_le (Nat.le_of_eq (countP_roundOf _ _))

/-- The measure after a turn. -/
theorem measure_perform (world : World σ k) (task : Task) (rest : List Task)
    (h : world.agenda.ready = task :: rest) :
    Prod.Lex (· < ·) (Prod.Lex (· < ·) (· < ·)) ((world.withReady rest).perform task).measure
      world.measure := by
  unfold perform
  split
  · exact measure_deliver world _ rest h
  · refine measure_lt_of_pairs ?_ (Or.inr ⟨?_, ?_⟩)
    · simp only [measure, h]
      rfl
    · simp only [measure, h]
      exact unseenPairs_le (fun _ hm => List.mem_cons_of_mem _ hm) _
    · simp only [measure, h]
      exact Nat.lt_succ_self _
  · exact measure_roundOfAll world _ rest h

/-! ## Settling -/

/-- Gives every ready task its turn, until no task is ready. -/
def settle (world : World σ k) : World σ k :=
  match _h : world.agenda.ready with
  | [] => world
  | task :: rest => settle ((world.withReady rest).perform task)
termination_by world.measure
decreasing_by exact measure_perform world task rest _h

/-- A world in which no task is ready has settled. -/
theorem settle_of_ready_eq_nil {world : World σ k} (h : world.agenda.ready = []) :
    world.settle = world := by
  rw [settle]
  split
  · rfl
  · rename_i hready
    rw [h] at hready
    cases hready

end Epidemic.World
