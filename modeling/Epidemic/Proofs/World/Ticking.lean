import Epidemic.Proofs.World.Arrivals
import Epidemic.Proofs.World.Quiescence
import Epidemic.Proofs.World.Rounds

/-!
# Rumor rounds go by the clock

Once rumor rounds have begun, all nodes have one whenever the interval has passed, in their order,
and at no other time. This goes on until a round comes when all nodes are down. As long as one of them
is up, the agenda holds the next rounds and no others: they wait for the next multiple of the interval,
or are about to be held when the clock has reached it.

For this the clock must not pass a task by, and nobody may begin, end or hold rumor rounds otherwise.
Messages, settings of the network and shutdowns do not matter.
-/

namespace Epidemic

/-- When rumor rounds have their turn, and after which time they are repeated. -/
def Task.tick? : Nat × Task → Option (Nat × Nat)
  | (time, .rounds interval) => some (time, interval)
  | (_, .parcel _ _) => none

/-- Whether a move leaves rumor rounds to the agenda, and lets no time pass in which a task is to have
its turn. -/
def Move.isRegular {σ : Type} {k : Nat} (world : World σ k) : Move k → Bool
  | .gossipRound _ | .startRounds _ | .stopRounds => false
  | .pass millis => (Move.pass millis : Move k).isPunctual world
  | move => move.isInternal

/-- A punctual tick is regular. -/
theorem Move.isRegular_of_isTick {σ : Type} {k : Nat} {world : World σ k} {move : Move k}
    (htick : move.isTick = true) (h : move.isPunctual world = true) :
    move.isRegular world = true := by
  cases move with
  | turn _ | fire => rfl
  | pass _ => exact h
  | _ => cases htick

namespace World

variable {σ : Type} {k : Nat}

/-- The rumor rounds of all nodes to come, with their times and intervals. -/
def ticks (world : World σ k) : List (Nat × Nat) := world.agenda.turns.filterMap Task.tick?

/-- The rumor rounds of some nodes at the first multiples of an interval: at each of them one round of
every node, in the order of the nodes. -/
def schedule (count interval held : Nat) : List (Nat × Nat) :=
  (List.range held).flatMap fun tick =>
    (List.range count).map fun index => ((tick + 1) * interval, index)

/-- At one multiple more there is one round more of every node. -/
theorem schedule_succ (count interval held : Nat) :
    schedule count interval (held + 1) =
      schedule count interval held ++
        (List.range count).map fun index => ((held + 1) * interval, index) := by
  rw [schedule, List.range_succ, List.flatMap_append, List.flatMap_singleton]
  rfl

variable {world after : World σ k}

/-- All nodes are down if all members are. -/
theorem isDown_iff : world.IsDown ↔ world.members.all (·.node.isDown) = true := by
  rw [IsDown, nodes, List.forall_mem_map, List.all_eq_true]

/-! ## What is to come -/

/-- The rounds to come depend on the agenda alone. -/
theorem ticks_congr (h : after.agenda = world.agenda) : after.ticks = world.ticks := by
  rw [ticks, h, ticks]

/-- A timer adds its rounds, if its task is such. -/
theorem perm_ticks_schedule (world : World σ k) (delay : Nat) (task : Task) :
    ({ world with agenda := world.agenda.schedule delay task } : World σ k).ticks.Perm
      ((Task.tick? (world.agenda.now + delay, task)).toList ++ world.ticks) := by
  have hticks := (world.agenda.perm_turns_schedule delay task).filterMap Task.tick?
  cases task with
  | parcel _ _ => exact hticks
  | rounds _ => exact hticks

/-- Without its ready task at a position a world lacks the rounds of this task. -/
theorem perm_ticks_withReady {position : Nat} {task : Task}
    (h : world.agenda.ready[position]? = some task) :
    world.ticks.Perm ((Task.tick? (world.agenda.now, task)).toList ++
      (world.withReady (world.agenda.ready.eraseIdx position)).ticks) := by
  have hturns : world.agenda.turns.Perm ((world.agenda.now, task) ::
      (world.withReady (world.agenda.ready.eraseIdx position)).agenda.turns) :=
    ((Agenda.perm_ready_eraseIdx h).map _).append_right _
  have hticks := hturns.filterMap Task.tick?
  cases task with
  | parcel _ _ => exact hticks
  | rounds _ => exact hticks

/-- If no task is ready there is a timer for the rounds to come. -/
theorem mem_timers_of_ticks (hready : world.agenda.ready = []) {time interval : Nat}
    (h : world.ticks = [(time, interval)]) : (time, .rounds interval) ∈ world.agenda.timers := by
  have hmem : (time, interval) ∈ world.ticks := by
    rw [h]
    exact List.mem_singleton_self _
  obtain ⟨⟨_, task⟩, hturn, htick⟩ := List.mem_filterMap.mp hmem
  rw [Agenda.turns_of_ready_eq_nil hready] at hturn
  cases task with
  | parcel _ _ => cases htick
  | rounds _ =>
    cases htick
    exact hturn

/-- When the clock moves on and no task is ready, the rounds to come are those that there were. -/
theorem ticks_pass (h : world.agenda.ready = []) (millis : Nat) :
    (world.pass millis).ticks = world.ticks := by
  have hpass : (world.pass millis).agenda.ready = [] := h
  rw [ticks, ticks, Agenda.turns_of_ready_eq_nil h, Agenda.turns_of_ready_eq_nil hpass]
  rfl

/-- When the rounds end there are none to come. -/
theorem ticks_stopRounds (world : World σ k) : world.stopRounds.ticks = [] := by
  rw [ticks, stopRounds, Agenda.turns_cancel, List.filterMap_eq_nil_iff]
  intro turn hmem
  obtain ⟨-, hmeant⟩ := List.mem_filter.mp hmem
  obtain ⟨time, task⟩ := turn
  cases task with
  | parcel _ _ => rfl
  | rounds _ => cases hmeant

variable [Random.Source σ]

/-- What is done in turns leaves the rounds to come as they are, apart from the timer that is set in
the end. -/
theorem Touches.ticks (h : world.Touches after) : after.ticks = world.ticks := by
  induction h with
  | refl => rfl
  | tail _ htouch ih =>
    refine Eq.trans ?_ ih
    cases htouch with
    | member _ _ _ | delivered | undeliverable | event _ _ => rfl
    | send envelope =>
      unfold World.send
      dsimp only
      split
      · simp only [World.ticks, Agenda.turns, Agenda.enqueue, List.map_append, List.filterMap_append]
        exact congrArg (· ++ _) (List.append_nil _)
      · rfl

/-- If some node is up, the round of all nodes is held now, and the next one is due after the
interval. -/
theorem roundOfAll_of_isUp (hup : ¬world.IsDown) (interval : Nat) :
    (world.roundOfAll interval).rounds =
        world.rounds ++ (List.range world.members.length).map
          (fun index => (world.agenda.now, index)) ∧
      (world.roundOfAll interval).ticks.Perm
        ((world.agenda.now + interval, interval) :: world.ticks) := by
  have htouches := world.touches_roundOf (List.range world.members.length)
  have hindexes : ∀ index ∈ List.range world.members.length, index < world.members.length :=
    fun index hmem => List.mem_range.mp hmem
  have hrounds := world.rounds_roundOf hindexes
  have hticks := perm_ticks_schedule (world.roundOf (List.range world.members.length)) interval
    (.rounds interval)
  rw [htouches.ticks, htouches.keepsTime.now] at hticks
  rw [roundOfAll, if_neg fun hall => hup (isDown_iff.mpr hall)]
  exact ⟨hrounds, hticks⟩

/-! ## Undisturbed rounds -/

/-- Whether rumor rounds stay what they are: none is held, none comes or goes, and the clock stands
still. -/
structure Undisturbed (world after : World σ k) : Prop where
  /-- The clock stands still. -/
  now : after.agenda.now = world.agenda.now
  /-- No round is held. -/
  rounds : after.rounds = world.rounds
  /-- The rounds to come are the same. -/
  ticks : after.ticks.Perm world.ticks
  /-- No timer is overdue. -/
  prompt : world.Prompt → after.Prompt

omit [Random.Source σ] in
/-- Nothing is disturbed if agenda and journal stay as they are. -/
theorem undisturbed_of_eq (hagenda : after.agenda = world.agenda)
    (hjournal : after.journal = world.journal) : world.Undisturbed after where
  now := by rw [hagenda]
  rounds := by rw [rounds, hjournal, rounds]
  ticks := List.Perm.of_eq (ticks_congr hagenda)
  prompt h := ⟨hagenda ▸ h.sorted, hagenda ▸ h.due, hagenda ▸ h.repeats⟩

/-- What is done in turns disturbs nothing, if no round is written down. -/
theorem Touches.undisturbed (h : world.Touches after) (hrounds : after.rounds = world.rounds) :
    world.Undisturbed after :=
  ⟨h.keepsTime.now, hrounds, List.Perm.of_eq h.ticks, fun hprompt => hprompt.keepsTime h.keepsTime⟩

/-- The turn of a task disturbs nothing, unless the task is a round of all nodes. -/
theorem undisturbed_takeTurn (world : World σ k) {position : Nat}
    (h : ∀ interval, world.agenda.ready[position]? ≠ some (.rounds interval)) :
    world.Undisturbed (world.takeTurn position) := by
  cases hat : world.agenda.ready[position]? with
  | none =>
    simp only [takeTurn, hat]
    exact undisturbed_of_eq rfl rfl
  | some task =>
    have hbegun := perm_ticks_withReady hat
    have hturn : world.takeTurn position =
        (world.withReady (world.agenda.ready.eraseIdx position)).perform task := by
      simp only [takeTurn, hat]
    refine ⟨?_, ?_, ?_, fun hprompt => hprompt.keepsTime (hprompt.takeTurn position)⟩
    · rw [hturn, now_perform]
      rfl
    · rw [hturn]
      cases task with
      | parcel delay parcel =>
        cases delay with
        | zero => exact rounds_deliver _ parcel
        | succ delay => rfl
      | rounds interval => exact absurd hat (h interval)
    · rw [hturn]
      cases task with
      | parcel delay parcel =>
        refine List.Perm.trans ?_ hbegun.symm
        cases delay with
        | zero => exact List.Perm.of_eq (touches_deliver _ parcel).ticks
        | succ delay => exact perm_ticks_schedule _ (delay + 1) (.parcel 0 parcel)
      | rounds interval => exact absurd hat (h interval)

/-- A regular move disturbs nothing, unless the clock moves on or a round of all nodes has its
turn. -/
theorem undisturbed_step (hprompt : world.Prompt) {move : Move k}
    (hmove : move.isRegular world = true) :
    world.Undisturbed (world.step move) ∨ (∃ millis, move = .pass millis) ∨
      ∃ position interval, move = .turn position ∧
        world.agenda.ready[position]? = some (.rounds interval) := by
  have hacted (index : Nat) (deed : Deed) : world.Undisturbed (world.acted index deed) :=
    (touches_acted world index deed).undisturbed (rounds_acted world index deed)
  cases move with
  | broadcast index id kind payload =>
    rw [step, afterwards_broadcast]
    exact Or.inl (hacted index _)
  | addPeer index peer =>
    rw [step, world.modifyNode_eq_acted index _ (.addPeer peer) fun _ _ => rfl]
    exact Or.inl (hacted index _)
  | shutdown index =>
    rw [step, world.modifyNode_eq_acted index _ .shutdown fun _ _ => rfl]
    exact Or.inl (hacted index _)
  | setDropRate rate =>
    simp only [step, Network.setDropRate, NetworkConfig.checkDropRate]
    split <;> exact Or.inl (undisturbed_of_eq rfl rfl)
  | unregister _ | setLatency _ | setJitter _ | setClock _ | close | setWall _ =>
    exact Or.inl (undisturbed_of_eq rfl rfl)
  | fire =>
    exact Or.inl ⟨rfl, rfl, List.Perm.of_eq (by
      simp only [step, ticks, Agenda.turns_fire hprompt.due]), fun _ => hprompt.fire.1⟩
  | pass millis => exact Or.inr (Or.inl ⟨millis, rfl⟩)
  | turn position =>
    by_cases hrounds : ∃ interval, world.agenda.ready[position]? = some (.rounds interval)
    · obtain ⟨interval, hat⟩ := hrounds
      exact Or.inr (Or.inr ⟨position, interval, rfl, hat⟩)
    · exact Or.inl (undisturbed_takeTurn world fun interval hat => hrounds ⟨interval, hat⟩)
  | send | receive | gossipRound | join | register | startRounds | stopRounds => cases hmove

/-! ## Ticking worlds -/

/-- Whether the rounds of a number of nodes have gone by the clock: they have been held at the first
multiples of the interval, and go on with the next one, unless all nodes are down and there are no
rounds to come. -/
structure Ticking (count interval held : Nat) (world : World σ k) : Prop where
  /-- No timer is overdue. -/
  prompt : world.Prompt
  /-- These are all nodes. -/
  length : world.members.length = count
  /-- The rounds that have been held. -/
  rounds : world.rounds = schedule count interval held
  /-- They are over. -/
  past : held * interval ≤ world.agenda.now
  /-- The rounds to come. -/
  next : world.ticks = [((held + 1) * interval, interval)] ∧
      world.agenda.now ≤ (held + 1) * interval ∨
    world.ticks = [] ∧ world.IsDown

variable {count interval held : Nat}

omit [Random.Source σ] in
/-- A world goes on ticking if its rounds are not disturbed, and nodes stay down. -/
theorem Ticking.undisturbed (h : world.Ticking count interval held) (h' : world.Undisturbed after)
    (hlength : after.members.length = world.members.length)
    (hdown : world.IsDown → after.IsDown) : after.Ticking count interval held where
  prompt := h'.prompt h.prompt
  length := hlength.trans h.length
  rounds := h'.rounds.trans h.rounds
  past := h'.now ▸ h.past
  next := by
    have hperm := h'.ticks
    rcases h.next with ⟨hticks, hnow⟩ | ⟨hticks, hall⟩
    · rw [hticks] at hperm
      exact Or.inl ⟨List.perm_singleton.mp hperm, h'.now ▸ hnow⟩
    · rw [hticks] at hperm
      exact Or.inr ⟨hperm.eq_nil, hdown hall⟩

omit [Random.Source σ] in
/-- A world goes on ticking when the clock moves on, since it does not pass a round by. -/
theorem Ticking.pass (h : world.Ticking count interval held) {millis : Nat}
    (hmove : (Move.pass millis : Move k).isPunctual world = true) :
    (world.pass millis).Ticking count interval held := by
  obtain ⟨hready, hlater⟩ := Move.of_isPunctual_pass hmove
  have hticks := ticks_pass hready millis
  refine ⟨h.prompt.pass hmove, h.length, h.rounds, Nat.le_trans h.past (Nat.le_add_right _ _), ?_⟩
  rw [hticks]
  refine h.next.imp_left fun ⟨hnext, _⟩ => ⟨hnext, ?_⟩
  exact hlater _ (mem_timers_of_ticks hready hnext)

omit [Random.Source σ] in
/-- As long as some node is up no round is overdue: the next multiple of the interval lies ahead, or
the clock has just reached it and has tasks that are still to have their turn. -/
theorem Ticking.of_isUp (h : world.Ticking count interval held) (hup : ¬world.IsDown) :
    world.agenda.now < (held + 1) * interval ∨
      world.agenda.now = (held + 1) * interval ∧ world.agenda.isCaughtUp = false := by
  obtain ⟨hticks, hnow⟩ := h.next.resolve_right fun hover => hup hover.2
  refine (Nat.lt_or_eq_of_le hnow).imp_right fun heq => ⟨heq, Bool.eq_false_iff.mpr ?_⟩
  intro hcaught
  obtain ⟨hready, hahead⟩ := Agenda.isCaughtUp_iff.mp hcaught
  exact absurd heq (Nat.ne_of_lt (hahead _ (mem_timers_of_ticks hready hticks)))

omit [Random.Source σ] in
/-- A round of all nodes that is ready is the only one to come, and its time is now. -/
theorem Ticking.of_ready (h : world.Ticking count interval held) {position repeats : Nat}
    (hat : world.agenda.ready[position]? = some (.rounds repeats)) :
    world.agenda.now = (held + 1) * interval ∧ repeats = interval ∧
      (world.withReady (world.agenda.ready.eraseIdx position)).ticks = [] := by
  have hperm := perm_ticks_withReady hat
  rcases h.next with ⟨hticks, -⟩ | ⟨hticks, -⟩
  · rw [hticks] at hperm
    have hone := List.perm_singleton.mp hperm.symm
    obtain ⟨hfirst, hrest⟩ := List.cons.inj hone
    obtain ⟨hnow, hrepeats⟩ := Prod.mk.inj hfirst
    exact ⟨hnow, hrepeats, hrest⟩
  · rw [hticks] at hperm
    cases hperm.symm.eq_nil

/-- When the round of all nodes has its turn, it is held at the next multiple of the interval, unless
all nodes are down: then there are no rounds any more. -/
theorem Ticking.rounds_turn (h : world.Ticking count interval held) {position repeats : Nat}
    (hat : world.agenda.ready[position]? = some (.rounds repeats)) :
    world.IsDown ∧ (world.takeTurn position).Ticking count interval held ∨
      ¬world.IsDown ∧ (world.takeTurn position).Ticking count interval (held + 1) := by
  obtain ⟨hnow, rfl, hnone⟩ := h.of_ready hat
  have hprompt := h.prompt.keepsTime (h.prompt.takeTurn position)
  have hjoins : (Move.turn position : Move k).joins = false := rfl
  have hlength : (world.takeTurn position).members.length = count :=
    (length_members_of_names (world.names_step hjoins)).trans h.length
  have hturn : world.takeTurn position =
      (world.withReady (world.agenda.ready.eraseIdx position)).roundOfAll repeats := by
    simp only [takeTurn, hat, perform]
  by_cases hdown : world.IsDown
  · have hover : world.takeTurn position =
        world.withReady (world.agenda.ready.eraseIdx position) := by
      rw [hturn, roundOfAll, if_pos]
      exact isDown_iff.mp hdown
    rw [hover] at hprompt hlength ⊢
    exact Or.inl ⟨hdown, hprompt, hlength, h.rounds, h.past, Or.inr ⟨hnone, hdown⟩⟩
  · have hbegun : ¬(world.withReady (world.agenda.ready.eraseIdx position)).IsDown := hdown
    obtain ⟨hrounds, hticks⟩ := roundOfAll_of_isUp hbegun repeats
    have hafter : (world.takeTurn position).agenda.now = (held + 1) * repeats := by
      rw [hturn, ← perform, now_perform]
      exact hnow
    have hnext : (held + 1) * repeats + repeats = (held + 1 + 1) * repeats :=
      (Nat.succ_mul (held + 1) repeats).symm
    refine Or.inr ⟨hdown, hprompt, hlength, ?_, Nat.le_of_eq hafter.symm, Or.inl ⟨?_, ?_⟩⟩
    · rw [hturn, hrounds, schedule_succ, ← h.rounds, ← h.length, ← hnow]
      rfl
    · rw [hnone] at hticks
      rw [hturn, ← hnext, ← hnow]
      exact List.perm_singleton.mp hticks
    · rw [hafter]
      exact Nat.mul_le_mul_right repeats (Nat.le_succ _)

/-- With every regular move a world goes on ticking; if all nodes are down no further rounds are
held. -/
theorem Ticking.step (h : world.Ticking count interval held) {move : Move k}
    (hmove : move.isRegular world = true) :
    ∃ next, (world.step move).Ticking count interval next ∧ (world.IsDown → next = held) := by
  have hinternal : move.isInternal = true := by
    cases move <;> first | rfl | exact hmove
  have hjoins : move.joins = false := by
    cases move <;> first | rfl | cases hmove
  have hlength := length_members_of_names (world.names_step hjoins)
  rcases undisturbed_step h.prompt hmove with hstill | ⟨millis, rfl⟩ | ⟨position, repeats, rfl, hat⟩
  · refine ⟨held, h.undisturbed hstill hlength fun hdown => ?_, fun _ => rfl⟩
    exact (rests_step hdown hinternal).isDown hdown
  · exact ⟨held, h.pass hmove, fun _ => rfl⟩
  · rcases h.rounds_turn hat with ⟨-, hover⟩ | ⟨hup, hnext⟩
    · exact ⟨held, hover, fun _ => rfl⟩
    · exact ⟨held + 1, hnext, fun hdown => absurd hdown hup⟩

end World

end Epidemic
