import Epidemic.Proofs.World.Turns

/-!
# Punctual runs

A run is punctual if its clock never moves while a task is ready, nor past the time of a timer, and
if the delays stay what they are. So every task has its turn in the millisecond that it was set for,
and the passage of time that the agenda prescribes is punctual once the world has caught up.
-/

namespace Epidemic

namespace Agenda

variable {τ : Type}

/-- Whether every timer comes after those of earlier times. -/
def Sorted (timers : List (Nat × τ)) : Prop :=
  timers.Pairwise fun earlier later => earlier.1 ≤ later.1

/-- One more timer takes its place. -/
theorem sorted_insertTimer {timers : List (Nat × τ)} (h : Sorted timers) (due : Nat) (task : τ) :
    Sorted (insertTimer due task timers) := by
  induction timers with
  | nil => exact List.pairwise_singleton _ _
  | cons timer rest ih =>
    obtain ⟨hfirst, hrest⟩ := List.pairwise_cons.mp h
    rw [insertTimer]
    split
    · rename_i hle
      refine List.pairwise_cons.mpr ⟨fun other hmem => ?_, ih hrest⟩
      rcases List.mem_cons.mp ((perm_insertTimer due task rest).mem_iff.mp hmem) with rfl | hold
      · exact hle
      · exact hfirst other hold
    · rename_i hlater
      refine List.pairwise_cons.mpr ⟨fun other hmem => ?_, h⟩
      rcases List.mem_cons.mp hmem with rfl | hold
      · exact Nat.le_of_not_le hlater
      · exact Nat.le_trans (Nat.le_of_not_le hlater) (hfirst other hold)

/-- Of sorted timers, those that do not fire are set for later. -/
theorem lt_of_mem_dropWhile {timers : List (Nat × τ)} (h : Sorted timers) {now : Nat}
    {timer : Nat × τ} (hmem : timer ∈ timers.dropWhile (·.1 ≤ now)) : now < timer.1 := by
  induction timers with
  | nil => cases hmem
  | cons first rest ih =>
    obtain ⟨hfirst, hrest⟩ := List.pairwise_cons.mp h
    rw [List.dropWhile_cons] at hmem
    split at hmem
    · exact ih hrest hmem
    · rename_i hlater
      rw [decide_eq_true_eq, Nat.not_le] at hlater
      rcases List.mem_cons.mp hmem with rfl | hold
      · exact hlater
      · exact Nat.lt_of_lt_of_le hlater (hfirst timer hold)

/-- Whether no task is ready and all timers are set for later. -/
def isCaughtUp (agenda : Agenda τ) : Bool :=
  agenda.ready.isEmpty && agenda.timers.all fun timer => agenda.now < timer.1

/-- What this says. -/
theorem isCaughtUp_iff {agenda : Agenda τ} :
    agenda.isCaughtUp = true ↔
      agenda.ready = [] ∧ ∀ timer ∈ agenda.timers, agenda.now < timer.1 := by
  rw [isCaughtUp, Bool.and_eq_true, List.isEmpty_iff, List.all_eq_true]
  simp only [decide_eq_true_eq]

end Agenda

namespace Move

variable {σ : Type} {k : Nat}

/-- Whether a move leaves the nodes, their peers, the losses and the delays alone, and lets no time
pass in which a task is to have its turn. Rumor rounds that begin are repeated in later
milliseconds. -/
def isPunctual (world : World σ k) : Move k → Bool
  | .setLatency _ | .setJitter _ => false
  | .startRounds interval => 0 < interval
  | .pass millis =>
    world.agenda.ready.isEmpty &&
      world.agenda.timers.all fun timer => world.agenda.now + millis ≤ timer.1
  | move => move.isPeaceful

/-- A punctual move is peaceful. -/
theorem isPeaceful_of_isPunctual {world : World σ k} {move : Move k}
    (h : move.isPunctual world = true) : move.isPeaceful = true := by
  cases move with
  | setLatency _ | setJitter _ => cases h
  | startRounds _ | pass _ => rfl
  | _ => exact h

/-- When the clock moves, no task is ready, and no timer is set for an earlier time. -/
theorem of_isPunctual_pass {world : World σ k} {millis : Nat}
    (h : (pass millis : Move k).isPunctual world = true) :
    world.agenda.ready = [] ∧ ∀ timer ∈ world.agenda.timers, world.agenda.now + millis ≤ timer.1 := by
  rw [isPunctual, Bool.and_eq_true, List.isEmpty_iff, List.all_eq_true] at h
  exact ⟨h.1, fun timer hmem => of_decide_eq_true (h.2 timer hmem)⟩

end Move

namespace World

variable {σ : Type} {k : Nat}

/-! ## What tasks do in their turns -/

/-- Whether the clock stands still, the delays stay what they are, no rumor round becomes ready, and
timers are set for later milliseconds only. -/
structure KeepsTime (world after : World σ k) : Prop where
  /-- The network has the same delays. -/
  config : after.network.config = world.network.config
  /-- The clock stands still. -/
  now : after.agenda.now = world.agenda.now
  /-- Nothing becomes ready but messages. -/
  ready : ∀ task ∈ after.agenda.ready, task ∈ world.agenda.ready ∨ task.isRounds = false
  /-- New timers are set for later milliseconds. -/
  timers : ∀ timer ∈ after.agenda.timers,
    timer ∈ world.agenda.timers ∨ world.agenda.now < timer.1 ∧ timer.2 ≠ .rounds 0
  /-- Timers stay sorted. -/
  sorted : Agenda.Sorted world.agenda.timers → Agenda.Sorted after.agenda.timers

variable {world middle after : World σ k} {delay : Nat}

/-- Time is kept if agenda and delays stay as they are. -/
theorem keepsTime_of_eq (hagenda : after.agenda = world.agenda)
    (hconfig : after.network.config = world.network.config) : world.KeepsTime after := by
  refine ⟨hconfig, ?_, fun task hmem => Or.inl ?_, fun timer hmem => Or.inl ?_, fun hsorted => ?_⟩
  · rw [hagenda]
  · rwa [← hagenda]
  · rwa [← hagenda]
  · rwa [hagenda]

/-- Time may be kept by one thing after the other. -/
theorem KeepsTime.trans (h : world.KeepsTime middle) (h' : middle.KeepsTime after) :
    world.KeepsTime after where
  config := h'.config.trans h.config
  now := h'.now.trans h.now
  ready task hmem := by
    rcases h'.ready task hmem with hmiddle | hmessage
    · exact h.ready task hmiddle
    · exact Or.inr hmessage
  timers timer hmem := by
    rcases h'.timers timer hmem with hmiddle | hlater
    · exact h.timers timer hmiddle
    · rw [h.now] at hlater
      exact Or.inr hlater
  sorted hsorted := h'.sorted (h.sorted hsorted)

/-- A timer that is set for a later millisecond keeps time. -/
theorem keepsTime_schedule (world : World σ k) (hdelay : 0 < delay) {task : Task}
    (htask : task ≠ .rounds 0) :
    world.KeepsTime { world with agenda := world.agenda.schedule delay task } where
  config := rfl
  now := rfl
  ready _ hmem := Or.inl hmem
  timers timer hmem := by
    rcases List.mem_cons.mp ((Agenda.perm_insertTimer _ task _).mem_iff.mp hmem) with rfl | hold
    · exact Or.inr ⟨Nat.lt_add_of_pos_right hdelay, htask⟩
    · exact Or.inl hold
  sorted hsorted := Agenda.sorted_insertTimer hsorted _ task

/-- Without a ready task time is kept. -/
theorem keepsTime_withReady (world : World σ k) (position : Nat) :
    world.KeepsTime (world.withReady (world.agenda.ready.eraseIdx position)) where
  config := rfl
  now := rfl
  ready _ hmem := Or.inl (List.mem_of_mem_eraseIdx hmem)
  timers _ hmem := Or.inl hmem
  sorted hsorted := hsorted

section Turns

variable [Random.Source σ]

/-- A send keeps time. -/
theorem keepsTime_send (world : World σ k) (envelope : Envelope) :
    world.KeepsTime (world.send envelope) := by
  have hconfig : world.network.dispatch.2.config = world.network.config := by
    obtain ⟨generator, stats, hnetwork⟩ := world.network.dispatch_keeps
    rw [hnetwork]
  unfold send
  dsimp only
  split
  · refine ⟨hconfig, rfl, fun task hmem => ?_, fun _ hmem => Or.inl hmem, fun hsorted => hsorted⟩
    refine (List.mem_append.mp hmem).imp_right fun hnew => ?_
    rw [List.mem_singleton.mp hnew]
    rfl
  · exact keepsTime_of_eq rfl hconfig

/-- Whatever is done in turns keeps time. -/
theorem Touches.keepsTime (h : world.Touches after) : world.KeepsTime after := by
  induction h with
  | refl => exact keepsTime_of_eq rfl rfl
  | tail _ htouch ih =>
    refine ih.trans ?_
    cases htouch with
    | send envelope => exact keepsTime_send _ envelope
    | member _ _ _ | delivered | undeliverable | event _ _ => exact keepsTime_of_eq rfl rfl

/-- The turn of a task keeps time, unless it is a rumor round to be repeated at once. -/
theorem keepsTime_perform (world : World σ k) {task : Task} (htask : task ≠ .rounds 0) :
    world.KeepsTime (world.perform task) := by
  cases task with
  | parcel delay parcel =>
    cases delay with
    | zero => exact (touches_deliver world parcel).keepsTime
    | succ delay => exact keepsTime_schedule world (Nat.succ_pos delay) Task.noConfusion
  | rounds interval =>
    have hinterval : 0 < interval := Nat.pos_of_ne_zero fun heq => htask (by rw [heq])
    rw [perform, roundOfAll]
    split
    · exact keepsTime_of_eq rfl rfl
    · exact (touches_roundOf world _).keepsTime.trans (keepsTime_schedule _ hinterval htask)

end Turns

/-! ## The clock and the timers -/

section Ticks

variable [Random.Source σ]

/-- While a task has its turn the clock stands still. -/
theorem now_perform (world : World σ k) (task : Task) :
    (world.perform task).agenda.now = world.agenda.now := by
  cases task with
  | parcel delay parcel =>
    cases delay with
    | zero => exact (touches_deliver world parcel).keepsTime.now
    | succ delay => rfl
  | rounds interval =>
    rw [perform, roundOfAll]
    split
    · rfl
    · exact (touches_roundOf world _).keepsTime.now

/-- While a world settles the clock stands still. -/
theorem now_settle (world : World σ k) : world.settle.agenda.now = world.agenda.now := by
  induction world using settle.induct with
  | case1 world hready => rw [settle_of_ready_eq_nil hready]
  | case2 world task rest hready ih =>
    have hperform := (world.withReady rest).now_perform task
    rw [settle_of_ready_eq_cons hready, ih, hperform]
    rfl

/-- While a world catches up the clock stands still. -/
theorem now_catchUp (world : World σ k) : world.catchUp.agenda.now = world.agenda.now :=
  now_settle _

/-- The clock moves on by the time that passes. -/
theorem now_advance (world : World σ k) (millis : Nat) :
    (world.advance millis).agenda.now = world.agenda.now + millis := by
  induction millis generalizing world with
  | zero => rw [advance_zero, Nat.add_zero]
  | succ millis ih =>
    have hfirst : (world.pass 1).catchUp.agenda.now = world.agenda.now + 1 := now_catchUp _
    rw [advance_succ, ih, hfirst, Nat.add_assoc, Nat.add_comm 1 millis]

/-- The turn of a task leaves the timers sorted. -/
theorem sorted_perform (h : Agenda.Sorted world.agenda.timers) (task : Task) :
    Agenda.Sorted (world.perform task).agenda.timers := by
  cases task with
  | parcel delay parcel =>
    have hkeeps : world.KeepsTime (world.perform (.parcel delay parcel)) :=
      keepsTime_perform world Task.noConfusion
    exact hkeeps.sorted h
  | rounds interval =>
    rw [perform, roundOfAll]
    split
    · exact h
    · have hkeeps := (touches_roundOf world (List.range world.members.length)).keepsTime
      exact Agenda.sorted_insertTimer (hkeeps.sorted h) _ _

/-- Every move leaves the timers sorted. -/
theorem sorted_step (h : Agenda.Sorted world.agenda.timers) (move : Move k) :
    Agenda.Sorted (world.step move).agenda.timers := by
  cases move with
  | send envelope => exact (keepsTime_send world envelope).sorted h
  | broadcast index id kind payload =>
    rw [step, afterwards_broadcast]
    exact (touches_acted world index _).keepsTime.sorted h
  | receive index message sender =>
    rw [step, afterwards_receive]
    exact (touches_acted world index _).keepsTime.sorted h
  | gossipRound index =>
    rw [step, afterwards_gossipRound]
    exact (touches_acted world index _).keepsTime.sorted h
  | join node protocol =>
    simp only [step, join, register, Network.register]
    split <;> exact h
  | register id endpoint =>
    simp only [step, register, Network.register]
    split <;> exact h
  | setDropRate rate =>
    simp only [step, Network.setDropRate, NetworkConfig.checkDropRate]
    split <;> exact h
  | startRounds interval => exact Agenda.sorted_insertTimer h _ _
  | stopRounds => exact h.sublist List.filter_sublist
  | turn position =>
    rw [step, takeTurn]
    split
    · exact h
    · rename_i task _
      have hready : Agenda.Sorted
          (world.withReady (world.agenda.ready.eraseIdx position)).agenda.timers := h
      exact sorted_perform hready task
  | fire => exact h.sublist (List.dropWhile_sublist _)
  | addPeer _ _ | shutdown _ | unregister _ | setLatency _ | setJitter _ | setClock _ | close
  | pass _ | setWall _ => exact h

/-- Every run leaves the timers sorted. -/
theorem sorted_run (h : Agenda.Sorted world.agenda.timers) (moves : List (Move k)) :
    Agenda.Sorted (world.run moves).agenda.timers := by
  induction moves generalizing world with
  | nil => exact h
  | cons move rest ih => exact ih (sorted_step h move)

/-- What comes of sorted timers by ticks is sorted. -/
theorem IsLater.sorted (h : world.IsLater after) (hsorted : Agenda.Sorted world.agenda.timers) :
    Agenda.Sorted after.agenda.timers := by
  obtain ⟨moves, -, rfl⟩ := h
  exact sorted_run hsorted moves

end Ticks

/-! ## Prompt and timely worlds -/

/-- Whether no timer is overdue. -/
structure Prompt (world : World σ k) : Prop where
  /-- The timers are sorted. -/
  sorted : Agenda.Sorted world.agenda.timers
  /-- No timer is set for an earlier time. -/
  due : ∀ timer ∈ world.agenda.timers, world.agenda.now ≤ timer.1
  /-- No rumor round is to be repeated at once. -/
  repeats : ∀ task ∈ world.agenda.tasks, task ≠ .rounds 0

/-- What keeps time keeps a world prompt. -/
theorem Prompt.keepsTime (h : world.Prompt) (h' : world.KeepsTime after) : after.Prompt where
  sorted := h'.sorted h.sorted
  due timer hmem := by
    rw [h'.now]
    rcases h'.timers timer hmem with hold | ⟨hlater, -⟩
    · exact h.due timer hold
    · exact Nat.le_of_lt hlater
  repeats task hmem := by
    rcases List.mem_append.mp hmem with hready | htimer
    · rcases h'.ready task hready with hold | hmessage
      · exact h.repeats task (List.mem_append_left _ hold)
      · rintro rfl
        cases hmessage
    · obtain ⟨timer, hset, rfl⟩ := List.mem_map.mp htimer
      rcases h'.timers timer hset with hold | ⟨-, hnew⟩
      · exact h.repeats _ (List.mem_append_right _ (List.mem_map_of_mem hold))
      · exact hnew

/-- When timers fire a world stays prompt, and those that are left are set for later. -/
theorem Prompt.fire (h : world.Prompt) :
    ({ world with agenda := world.agenda.fire } : World σ k).Prompt ∧
      ∀ timer ∈ world.agenda.fire.timers, world.agenda.now < timer.1 := by
  refine ⟨⟨h.sorted.sublist (List.dropWhile_sublist _), ?_, ?_⟩,
    fun timer hmem => Agenda.lt_of_mem_dropWhile h.sorted hmem⟩
  · exact fun timer hmem => h.due timer (List.dropWhile_subset _ hmem)
  · intro task hmem
    rw [Agenda.tasks_fire] at hmem
    exact h.repeats task hmem

/-- When the clock moves on punctually a world stays prompt. -/
theorem Prompt.pass (h : world.Prompt) {millis : Nat}
    (hmove : (Move.pass millis : Move k).isPunctual world = true) : (world.pass millis).Prompt :=
  ⟨h.sorted, (Move.of_isPunctual_pass hmove).2, h.repeats⟩

/-- When tasks are cancelled a world stays prompt. -/
theorem Prompt.stopRounds (h : world.Prompt) : world.stopRounds.Prompt := by
  refine ⟨h.sorted.sublist List.filter_sublist, ?_, ?_⟩
  · exact fun timer hmem => h.due timer (List.mem_filter.mp hmem).1
  · intro task hmem
    rw [World.stopRounds, Agenda.tasks_cancel] at hmem
    exact h.repeats task (List.mem_filter.mp hmem).1

/-- Whether no timer is overdue and all sends are to take a number of milliseconds. -/
structure Timely (delay : Nat) (world : World σ k) : Prop where
  /-- There is no further delay. -/
  jitter : world.network.config.jitter.micros = 0
  /-- Rounded up to milliseconds, the delay is the given one. -/
  latency : world.network.config.latency.millisCeil = delay
  /-- The timers are sorted. -/
  sorted : Agenda.Sorted world.agenda.timers
  /-- No timer is overdue. -/
  due : ∀ timer ∈ world.agenda.timers, world.agenda.now ≤ timer.1
  /-- No rumor round is to be repeated at once. -/
  repeats : ∀ task ∈ world.agenda.tasks, task ≠ .rounds 0

/-- A timely world is prompt. -/
theorem Timely.prompt (h : world.Timely delay) : world.Prompt := ⟨h.sorted, h.due, h.repeats⟩

/-- A world stays timely if it is prompt and the delays stay what they are. -/
theorem Timely.of_prompt (h : world.Timely delay) (h' : after.Prompt)
    (hconfig : after.network.config = world.network.config) : after.Timely delay :=
  ⟨by rw [hconfig]; exact h.jitter, by rw [hconfig]; exact h.latency, h'.sorted, h'.due, h'.repeats⟩

/-- What keeps time keeps a world timely. -/
theorem Timely.keepsTime (h : world.Timely delay) (h' : world.KeepsTime after) :
    after.Timely delay :=
  h.of_prompt (h.prompt.keepsTime h') h'.config

variable [Random.Source σ]

/-- The turn of a ready task keeps time. -/
theorem Prompt.takeTurn (h : world.Prompt) (position : Nat) :
    world.KeepsTime (world.takeTurn position) := by
  rw [World.takeTurn]
  split
  · exact keepsTime_of_eq rfl rfl
  · rename_i task htask
    have hmem : task ∈ world.agenda.tasks := List.mem_append_left _ (List.mem_of_getElem? htask)
    exact (keepsTime_withReady world position).trans (keepsTime_perform _ (h.repeats task hmem))

/-- With every punctual move a world stays prompt, and the delays stay what they are. -/
theorem Prompt.step (h : world.Prompt) {move : Move k} (hmove : move.isPunctual world = true) :
    (world.step move).Prompt ∧ (world.step move).network.config = world.network.config := by
  have hkept (after : World σ k) (hkeeps : world.KeepsTime after) :
      after.Prompt ∧ after.network.config = world.network.config :=
    ⟨h.keepsTime hkeeps, hkeeps.config⟩
  cases move with
  | broadcast index id kind payload =>
    rw [World.step, afterwards_broadcast]
    exact hkept _ (touches_acted _ _ _).keepsTime
  | gossipRound index =>
    rw [World.step, afterwards_gossipRound]
    exact hkept _ (touches_acted _ _ _).keepsTime
  | turn position => exact hkept _ (h.takeTurn position)
  | fire => exact ⟨h.fire.1, rfl⟩
  | pass millis => exact ⟨h.pass hmove, rfl⟩
  | startRounds interval =>
    have hinterval : 0 < interval := of_decide_eq_true hmove
    refine hkept _ (keepsTime_schedule world hinterval ?_)
    rintro heq
    cases heq
    exact Nat.lt_irrefl 0 hinterval
  | stopRounds => exact ⟨h.stopRounds, rfl⟩
  | setWall _ => exact hkept _ (keepsTime_of_eq rfl rfl)
  | send | receive | addPeer | shutdown | join | register | unregister | setLatency | setJitter
  | setDropRate | setClock | close => cases hmove

/-- With every punctual move a world stays timely. -/
theorem Timely.step (h : world.Timely delay) {move : Move k}
    (hmove : move.isPunctual world = true) : (world.step move).Timely delay :=
  have hstep := h.prompt.step hmove
  h.of_prompt hstep.1 hstep.2

/-! ## Runs -/

/-- Whether every move of a run is punctual when it is made. -/
def isPunctual (world : World σ k) : List (Move k) → Bool
  | [] => true
  | move :: rest => move.isPunctual world && (world.step move).isPunctual rest

/-- Whether a world comes from another one by ticks alone, and punctually. -/
def IsPromptlyLater (world later : World σ k) : Prop :=
  ∃ moves : List (Move k), (∀ move ∈ moves, move.isTick = true) ∧
    world.isPunctual moves = true ∧ later = world.run moves

/-- Every world comes from itself. -/
theorem isPromptlyLater_refl (world : World σ k) : world.IsPromptlyLater world :=
  ⟨[], fun _ h => absurd h List.not_mem_nil, rfl, rfl⟩

/-- A punctual tick may be followed by others. -/
theorem IsPromptlyLater.cons {later : World σ k} (move : Move k) (htick : move.isTick = true)
    (hmove : move.isPunctual world = true) (h : (world.step move).IsPromptlyLater later) :
    world.IsPromptlyLater later := by
  obtain ⟨moves, hticks, hpunctual, rfl⟩ := h
  refine ⟨move :: moves, ?_, ?_, rfl⟩
  · exact fun other hmem => (List.mem_cons.mp hmem).elim (fun heq => heq ▸ htick) (hticks other)
  · rw [isPunctual, hmove, hpunctual]
    rfl

/-- Ticks may be followed by ticks. -/
theorem IsPromptlyLater.trans {first second third : World σ k} (h : first.IsPromptlyLater second)
    (h' : second.IsPromptlyLater third) : first.IsPromptlyLater third := by
  obtain ⟨moves, hticks, hpunctual, rfl⟩ := h
  induction moves generalizing first with
  | nil => exact h'
  | cons move rest ih =>
    rw [isPunctual, Bool.and_eq_true] at hpunctual
    refine .cons move (hticks move List.mem_cons_self) hpunctual.1 ?_
    exact ih (fun other hmem => hticks other (List.mem_cons_of_mem move hmem)) hpunctual.2 h'

/-- What comes of a prompt world punctually is prompt. -/
theorem Prompt.later {later : World σ k} (h : world.Prompt)
    (hlater : world.IsPromptlyLater later) : later.Prompt := by
  obtain ⟨moves, -, hpunctual, rfl⟩ := hlater
  induction moves generalizing world with
  | nil => exact h
  | cons move rest ih =>
    rw [isPunctual, Bool.and_eq_true] at hpunctual
    exact ih (h.step hpunctual.1).1 hpunctual.2

/-- Settling is punctual. If all timers are set for later, the world has caught up then. -/
theorem Prompt.settle (h : world.Prompt)
    (hlater : ∀ timer ∈ world.agenda.timers, world.agenda.now < timer.1) :
    world.IsPromptlyLater world.settle ∧ world.settle.agenda.isCaughtUp = true := by
  induction world using settle.induct with
  | case1 world hready =>
    rw [settle_of_ready_eq_nil hready]
    exact ⟨isPromptlyLater_refl world, Agenda.isCaughtUp_iff.mpr ⟨hready, hlater⟩⟩
  | case2 world task rest hready ih =>
    have hturn : world.step (.turn 0) = (world.withReady rest).perform task := takeTurn_zero hready
    have hkeeps : world.KeepsTime (world.step (.turn 0)) := h.takeTurn 0
    rw [settle_of_ready_eq_cons hready, ← hturn]
    rw [← hturn] at ih
    obtain ⟨hrest, hcaught⟩ := ih (h.keepsTime hkeeps) fun timer hmem => by
      rw [hkeeps.now]
      rcases hkeeps.timers timer hmem with hold | ⟨hnew, -⟩
      · exact hlater timer hold
      · exact hnew
    exact ⟨.cons (.turn 0) rfl rfl hrest, hcaught⟩

/-- Catching up is punctual, and the world has caught up then. -/
theorem Prompt.catchUp (h : world.Prompt) :
    world.IsPromptlyLater world.catchUp ∧ world.catchUp.agenda.isCaughtUp = true := by
  obtain ⟨hfired, hlater⟩ := h.fire
  obtain ⟨hsettled, hcaught⟩ := hfired.settle hlater
  exact ⟨.cons .fire rfl rfl hsettled, hcaught⟩

/-- When a world has caught up a millisecond may pass. -/
theorem isPromptlyLater_pass (h : world.agenda.isCaughtUp = true) :
    world.IsPromptlyLater (world.pass 1) := by
  obtain ⟨hready, hlater⟩ := Agenda.isCaughtUp_iff.mp h
  refine .cons (.pass 1) rfl ?_ (isPromptlyLater_refl _)
  rw [Move.isPunctual, hready, Bool.and_eq_true, List.all_eq_true]
  exact ⟨rfl, fun timer hmem => decide_eq_true (hlater timer hmem)⟩

/-- When a world has caught up, the passage of time is punctual, and leaves a world that has caught
up. -/
theorem Prompt.advance (h : world.Prompt) (hcaught : world.agenda.isCaughtUp = true)
    (millis : Nat) :
    world.IsPromptlyLater (world.advance millis) ∧
      (world.advance millis).agenda.isCaughtUp = true := by
  induction millis generalizing world with
  | zero =>
    rw [advance_zero]
    exact ⟨isPromptlyLater_refl world, hcaught⟩
  | succ millis ih =>
    have hpass := isPromptlyLater_pass hcaught
    obtain ⟨hcatchUp, hnext⟩ := (h.later hpass).catchUp
    have hmillisecond := hpass.trans hcatchUp
    obtain ⟨hrest, hend⟩ := ih (h.later hmillisecond) hnext
    rw [advance_succ]
    exact ⟨hmillisecond.trans hrest, hend⟩

/-- Waiting for agreement is punctual. -/
theorem Prompt.wait (h : world.Prompt) (watch : Convergence.Watch) (left elapsed : Nat) :
    world.IsPromptlyLater (watch.wait left elapsed world).2 := by
  induction left generalizing elapsed world with
  | zero =>
    rw [Convergence.Watch.wait_zero]
    exact isPromptlyLater_refl world
  | succ left ih =>
    rw [Convergence.Watch.wait_succ]
    split
    · exact isPromptlyLater_refl world
    · obtain ⟨hcatchUp, hcaught⟩ := h.catchUp
      have hmillisecond := hcatchUp.trans (isPromptlyLater_pass hcaught)
      exact hmillisecond.trans (ih (h.later hmillisecond) _)

end World

end Epidemic
