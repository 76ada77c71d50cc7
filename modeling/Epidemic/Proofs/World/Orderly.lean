import Epidemic.Proofs.World.Timetable

/-!
# Orderly runs

A run is orderly if it goes by the agenda: ready tasks have their turns in their order, and the clock
moves on only when no task is ready, and never past the time for which a message waits. Whatever else
is done to the world may be done at any time, and rumor rounds need not be on time. Settling, catching
up, the passage of time and waiting are orderly.

In an orderly run the timetable of deliveries is kept.
-/

namespace Epidemic

/-- Whether a move goes by the agenda as far as messages are concerned. -/
def Move.isOrderly {σ : Type} {k : Nat} (world : World σ k) : Move k → Bool
  | .turn position => position == 0
  | .pass millis =>
    world.agenda.ready.isEmpty &&
      world.agenda.timers.all fun timer =>
        timer.2.isRounds || world.agenda.now + millis ≤ timer.1
  | _ => true

namespace World

variable {σ : Type} {k : Nat}

/-- The sends that were given a delay, in their order. -/
def bookings (world : World σ k) : List Booking := world.journal.reverse.filterMap Event.booking?

/-- The messages that were delivered or found no endpoint, in their order, with the times. -/
def resolutions (world : World σ k) : List (Nat × Parcel) :=
  world.journal.reverse.filterMap Event.resolution?

/-- Whether all bookings are on time, some messages being in hand. -/
def OnTime (hand : List Parcel) (world : World σ k) : Prop :=
  ∃ table : Timetable, table.Describes hand world.agenda world.bookings world.resolutions

variable {world after : World σ k} {hand : List Parcel}

/-- One more entry of the journal. -/
theorem bookings_record (world : World σ k) (event : Event) :
    (world.record event).bookings = world.bookings ++ event.booking?.toList :=
  filterMap_record Event.booking? world event

/-- The same for what has become of messages. -/
theorem resolutions_record (world : World σ k) (event : Event) :
    (world.record event).resolutions = world.resolutions ++ event.resolution?.toList :=
  filterMap_record Event.resolution? world event

/-- In a world without nodes nothing is booked. -/
theorem onTime_new (network : Network σ) (protocols : Vector (Protocol σ) k) (wall : Nat) :
    (World.new network protocols wall).OnTime [] :=
  ⟨_, Timetable.describes_empty⟩

/-- What leaves agenda and journal as they are does not matter. -/
theorem OnTime.congr (h : world.OnTime hand) (hagenda : after.agenda = world.agenda)
    (hjournal : after.journal = world.journal) : after.OnTime hand := by
  unfold OnTime bookings resolutions
  rw [hagenda, hjournal]
  exact h

/-- Neither does it matter what is written down of other things than messages. -/
theorem OnTime.recordOther (h : world.OnTime hand) {event : Event} (hbooking : event.booking? = none)
    (hresolution : event.resolution? = none) : (world.record event).OnTime hand := by
  unfold OnTime
  rw [bookings_record, resolutions_record, hbooking, hresolution]
  simp only [Option.toList_none, List.append_nil]
  exact h

/-- It is written down what has become of the message in hand. -/
theorem OnTime.recordResolution {parcel : Parcel} (h : world.OnTime [parcel]) {event : Event}
    (hbooking : event.booking? = none)
    (hresolution : event.resolution? = some (world.agenda.now, parcel)) :
    (world.record event).OnTime [] := by
  obtain ⟨table, h⟩ := h
  unfold OnTime
  rw [bookings_record, resolutions_record, hbooking, hresolution, Option.toList_none,
    List.append_nil]
  exact ⟨table, h.resolve⟩

/-- One send more is given a delay. -/
theorem OnTime.book (h : world.OnTime hand) (parcel : Parcel) (delay : Nat)
    (hagenda : after.agenda = world.agenda.enqueue (.parcel delay parcel))
    (hbookings : after.bookings = world.bookings ++ [⟨world.agenda.now, delay, parcel⟩])
    (hresolutions : after.resolutions = world.resolutions) : after.OnTime hand := by
  obtain ⟨table, h⟩ := h
  unfold OnTime
  rw [hagenda, hbookings, hresolutions]
  cases delay with
  | zero => exact ⟨_, h.enqueue_zero parcel⟩
  | succ delay => exact ⟨_, h.enqueue_succ delay parcel⟩

/-- When timers fire all bookings are on time. -/
theorem OnTime.fire (h : world.OnTime hand) :
    ({ world with agenda := world.agenda.fire } : World σ k).OnTime hand := by
  obtain ⟨table, h⟩ := h
  exact h.fire

/-- When the clock moves on in an orderly way all bookings are on time. -/
theorem OnTime.pass (h : world.OnTime []) {millis : Nat}
    (hmove : (Move.pass millis : Move k).isOrderly world = true) :
    (world.pass millis).OnTime [] := by
  rw [Move.isOrderly, Bool.and_eq_true, List.isEmpty_iff, List.all_eq_true] at hmove
  obtain ⟨table, h⟩ := h
  refine ⟨table, h.pass hmove.1 fun timer hmem hdelivery => ?_⟩
  have htimer := hmove.2 timer hmem
  have hmessage := timer.2.isDelivery_and_not_isRounds
  rw [hdelivery, Bool.true_and, Bool.not_eq_true'] at hmessage
  rw [hmessage, Bool.false_or] at htimer
  exact of_decide_eq_true htimer

/-- Rumor rounds may be set timers. -/
theorem OnTime.scheduleRounds (h : world.OnTime hand) (delay interval : Nat) :
    ({ world with
      agenda := world.agenda.schedule delay (.rounds interval) } : World σ k).OnTime hand := by
  obtain ⟨table, h⟩ := h
  exact ⟨table, h.scheduleRounds delay interval⟩

/-- Rumor rounds may end. -/
theorem OnTime.stopRounds (h : world.OnTime hand) : world.stopRounds.OnTime hand := by
  obtain ⟨table, h⟩ := h
  exact ⟨table, h.cancelRounds⟩

variable [Random.Source σ]

/-! ## Turns -/

/-- A send that is given a delay is booked. -/
theorem OnTime.send (h : world.OnTime hand) (envelope : Envelope) :
    (world.send envelope).OnTime hand := by
  unfold World.send
  dsimp only
  split
  · rename_i delay hfate
    refine h.book ⟨world.network.stats.sent, envelope⟩ delay.millisCeil rfl
      ((bookings_record world _).trans ?_)
      ((resolutions_record world _).trans (List.append_nil _))
    rw [hfate]
    rfl
  · rename_i hfate
    refine OnTime.congr (h.recordOther ?_ rfl) rfl rfl
    cases h' : world.network.dispatch.1 with
    | scheduled delay => exact absurd h' (hfate delay)
    | dropped | unscheduled => rfl

/-- All sends that are given delays are booked. -/
theorem OnTime.sendAll (h : world.OnTime hand) (envelopes : List Envelope) :
    (world.sendAll envelopes).OnTime hand := by
  induction envelopes generalizing world with
  | nil => exact h
  | cons envelope rest ih => exact ih (h.send envelope)

/-- Whatever is done to a node, its sends are booked. -/
theorem OnTime.acted (h : world.OnTime hand) (index : Nat) (deed : Deed) :
    (world.acted index deed).OnTime hand := by
  cases hat : world.members[index]? with
  | none =>
    rw [acted_of_none hat]
    exact h
  | some member =>
    have hreplaced : (world.replace index
        { member with node := ((world.lifeOf member).step world.wall deed).1.node }
        ((world.lifeOf member).step world.wall deed).1.protocol).OnTime hand := h.congr rfl rfl
    rw [acted_of_some hat]
    exact hreplaced.sendAll _

/-- The message in hand is delivered. -/
theorem OnTime.deliver {parcel : Parcel} (h : world.OnTime [parcel]) :
    (world.deliver parcel).OnTime [] := by
  have hdelivered : (world.withNetwork world.network.countDelivered).OnTime [parcel] :=
    h.congr rfl rfl
  rcases world.deliver_cases parcel with
    ⟨-, hdeliver⟩ | ⟨_, _, -, -, hdeliver⟩ | ⟨index, _, -, -, hdeliver⟩
  · have hcounted : (world.withNetwork world.network.countUndeliverable).OnTime [parcel] :=
      h.congr rfl rfl
    rw [hdeliver]
    exact hcounted.recordResolution rfl rfl
  · rw [hdeliver]
    exact hdelivered.recordResolution rfl rfl
  · rw [hdeliver]
    refine (hdelivered.acted index _).recordResolution rfl ?_
    rw [(touches_acted _ _ _).keepsTime.now]
    rfl

/-- In rumor rounds all bookings are on time. -/
theorem OnTime.roundOf (h : world.OnTime hand) (indexes : List Nat) :
    (world.roundOf indexes).OnTime hand := by
  induction indexes generalizing world with
  | nil => exact h
  | cons index rest ih =>
    rcases world.roundOf_cons index rest with ⟨-, heq⟩ | ⟨_, -, heq⟩
    · rw [heq]
      exact ih h
    · rw [heq]
      exact ih ((h.acted index .gossipRound).recordOther rfl rfl)

/-- When the first ready task has its turn all bookings are on time. -/
theorem OnTime.takeTurn (h : world.OnTime []) : (world.takeTurn 0).OnTime [] := by
  cases hready : world.agenda.ready with
  | nil =>
    rw [World.takeTurn, hready]
    exact h
  | cons task rest =>
    obtain ⟨table, h⟩ := h
    rw [takeTurn_zero hready]
    cases task with
    | parcel delay parcel =>
      cases delay with
      | zero =>
        have hhand : (world.withReady rest).OnTime [parcel] := h.takeDelivery hready
        exact hhand.deliver
      | succ delay => exact h.takeStart hready
    | rounds interval =>
      have hrest : (world.withReady rest).OnTime [] := ⟨table, h.takeRounds hready⟩
      rw [perform, roundOfAll]
      split
      · exact hrest
      · exact (hrest.roundOf _).scheduleRounds _ _

/-- With every orderly move all bookings are on time. -/
theorem OnTime.step (h : world.OnTime []) {move : Move k} (hmove : move.isOrderly world = true) :
    (world.step move).OnTime [] := by
  cases move with
  | send envelope => exact h.send envelope
  | broadcast index id kind payload =>
    rw [World.step, afterwards_broadcast]
    exact h.acted index _
  | receive index message sender =>
    rw [World.step, afterwards_receive]
    exact h.acted index _
  | gossipRound index =>
    rw [World.step, afterwards_gossipRound]
    exact h.acted index _
  | join node protocol =>
    simp only [World.step, World.join, World.register, Network.register]
    split <;> exact h.congr rfl rfl
  | register id endpoint =>
    simp only [World.step, World.register, Network.register]
    split <;> exact h.congr rfl rfl
  | setDropRate rate =>
    simp only [World.step, Network.setDropRate, NetworkConfig.checkDropRate]
    split <;> exact h.congr rfl rfl
  | startRounds interval => exact h.scheduleRounds interval interval
  | stopRounds => exact h.stopRounds
  | turn position =>
    obtain rfl : position = 0 := beq_iff_eq.mp hmove
    exact h.takeTurn
  | fire => exact h.fire
  | pass millis => exact h.pass hmove
  | addPeer _ _ | shutdown _ | unregister _ | setLatency _ | setJitter _ | setClock _ | close
  | setWall _ => exact h.congr rfl rfl

/-! ## Runs -/

/-- Whether every move of a run is orderly when it is made. -/
def isOrderly (world : World σ k) : List (Move k) → Bool
  | [] => true
  | move :: rest => move.isOrderly world && (world.step move).isOrderly rest

/-- In every orderly run all bookings are on time. -/
theorem OnTime.run (h : world.OnTime []) {moves : List (Move k)}
    (hmoves : world.isOrderly moves = true) : (world.run moves).OnTime [] := by
  induction moves generalizing world with
  | nil => exact h
  | cons move rest ih =>
    rw [isOrderly, Bool.and_eq_true] at hmoves
    exact ih (h.step hmoves.1) hmoves.2

/-- Whether a world comes from another one by ticks alone, and in an orderly way. -/
def IsDulyLater (world later : World σ k) : Prop :=
  ∃ moves : List (Move k), (∀ move ∈ moves, move.isTick = true) ∧
    world.isOrderly moves = true ∧ later = world.run moves

/-- Every world comes from itself. -/
theorem isDulyLater_refl (world : World σ k) : world.IsDulyLater world :=
  ⟨[], fun _ h => absurd h List.not_mem_nil, rfl, rfl⟩

/-- An orderly tick may be followed by others. -/
theorem IsDulyLater.cons {later : World σ k} (move : Move k) (htick : move.isTick = true)
    (hmove : move.isOrderly world = true) (h : (world.step move).IsDulyLater later) :
    world.IsDulyLater later := by
  obtain ⟨moves, hticks, horderly, rfl⟩ := h
  refine ⟨move :: moves, ?_, ?_, rfl⟩
  · exact fun other hmem => (List.mem_cons.mp hmem).elim (fun heq => heq ▸ htick) (hticks other)
  · rw [isOrderly, hmove, horderly]
    rfl

/-- Orderly ticks may be followed by orderly ticks. -/
theorem IsDulyLater.trans {first second third : World σ k} (h : first.IsDulyLater second)
    (h' : second.IsDulyLater third) : first.IsDulyLater third := by
  obtain ⟨moves, hticks, horderly, rfl⟩ := h
  induction moves generalizing first with
  | nil => exact h'
  | cons move rest ih =>
    rw [isOrderly, Bool.and_eq_true] at horderly
    refine .cons move (hticks move List.mem_cons_self) horderly.1 ?_
    exact ih (fun other hmem => hticks other (List.mem_cons_of_mem move hmem)) horderly.2 h'

/-- What comes of a world in an orderly way is on time if the world is. -/
theorem OnTime.later {later : World σ k} (h : world.OnTime []) (hlater : world.IsDulyLater later) :
    later.OnTime [] := by
  obtain ⟨moves, -, horderly, rfl⟩ := hlater
  exact h.run horderly

/-! ## The passage of time -/

/-- Whether all messages that wait do so for later milliseconds. -/
def AwaitsLater (world : World σ k) : Prop :=
  ∀ timer ∈ world.agenda.timers, timer.2.isRounds = true ∨ world.agenda.now < timer.1

/-- Whether there is no task left for this millisecond, except for rumor rounds that may be repeated
at once. -/
structure IsThrough (world : World σ k) : Prop where
  /-- No task is ready. -/
  ready : world.agenda.ready = []
  /-- Messages wait for later milliseconds. -/
  awaits : world.AwaitsLater

omit [Random.Source σ] in
/-- What keeps time sets timers for later milliseconds only. -/
theorem AwaitsLater.keepsTime (h : world.AwaitsLater) (h' : world.KeepsTime after) :
    after.AwaitsLater := by
  intro timer hmem
  rw [h'.now]
  rcases h'.timers timer hmem with hold | ⟨hnew, -⟩
  · exact h timer hold
  · exact Or.inr hnew

omit [Random.Source σ] in
/-- Rumor rounds may be set a timer for any time. -/
theorem AwaitsLater.scheduleRounds (h : world.AwaitsLater) (delay interval : Nat) :
    ({ world with
      agenda := world.agenda.schedule delay (.rounds interval) } : World σ k).AwaitsLater := by
  intro timer hmem
  rcases List.mem_cons.mp ((Agenda.perm_insertTimer _ _ _).mem_iff.mp hmem) with rfl | hold
  · exact Or.inl rfl
  · exact h timer hold

/-- The turn of a task leaves messages to wait for later milliseconds only. -/
theorem AwaitsLater.perform (h : world.AwaitsLater) (task : Task) :
    (world.perform task).AwaitsLater := by
  cases task with
  | parcel delay parcel =>
    have hkeeps : world.KeepsTime (world.perform (.parcel delay parcel)) :=
      keepsTime_perform world Task.noConfusion
    exact h.keepsTime hkeeps
  | rounds interval =>
    have hkeeps := (touches_roundOf world (List.range world.members.length)).keepsTime
    rw [World.perform, roundOfAll]
    split
    · exact h
    · exact (h.keepsTime hkeeps).scheduleRounds _ _

/-- Settling is orderly, and leaves nothing to do in this millisecond. -/
theorem AwaitsLater.settle (h : world.AwaitsLater) :
    world.IsDulyLater world.settle ∧ world.settle.IsThrough := by
  induction world using settle.induct with
  | case1 world hready =>
    rw [settle_of_ready_eq_nil hready]
    exact ⟨isDulyLater_refl world, hready, h⟩
  | case2 world task rest hready ih =>
    have hturn : world.step (.turn 0) = (world.withReady rest).perform task := takeTurn_zero hready
    have hrest : (world.withReady rest).AwaitsLater := h
    have hperform := hrest.perform task
    rw [← hturn] at hperform ih
    rw [settle_of_ready_eq_cons hready, ← hturn]
    obtain ⟨hsettled, hthrough⟩ := ih hperform
    exact ⟨.cons (.turn 0) rfl rfl hsettled, hthrough⟩

/-- With sorted timers catching up is orderly, and leaves nothing to do in this millisecond. -/
theorem catchUp_of_sorted (h : Agenda.Sorted world.agenda.timers) :
    world.IsDulyLater world.catchUp ∧ world.catchUp.IsThrough := by
  have hfired : ({ world with agenda := world.agenda.fire } : World σ k).AwaitsLater :=
    fun timer hmem => Or.inr (Agenda.lt_of_mem_dropWhile h hmem)
  obtain ⟨hsettled, hthrough⟩ := hfired.settle
  exact ⟨.cons .fire rfl rfl hsettled, hthrough⟩

/-- So it is if all bookings are on time. -/
theorem OnTime.catchUp (h : world.OnTime []) :
    world.IsDulyLater world.catchUp ∧ world.catchUp.IsThrough := by
  obtain ⟨table, h⟩ := h
  exact catchUp_of_sorted h.sorted

/-- When there is nothing left to do in a millisecond it may pass. -/
theorem IsThrough.pass (h : world.IsThrough) : world.IsDulyLater (world.pass 1) := by
  refine .cons (.pass 1) rfl ?_ (isDulyLater_refl _)
  rw [Move.isOrderly, h.ready, Bool.and_eq_true, List.all_eq_true]
  refine ⟨rfl, fun timer hmem => ?_⟩
  rw [Bool.or_eq_true, decide_eq_true_eq]
  exact h.awaits timer hmem

/-- The passage of time is orderly when there is nothing left to do, and leaves nothing to do. -/
theorem OnTime.advance (h : world.OnTime []) (hthrough : world.IsThrough) (millis : Nat) :
    world.IsDulyLater (world.advance millis) ∧ (world.advance millis).IsThrough := by
  induction millis generalizing world with
  | zero =>
    rw [advance_zero]
    exact ⟨isDulyLater_refl world, hthrough⟩
  | succ millis ih =>
    have hpass := hthrough.pass
    obtain ⟨hcatchUp, hnext⟩ := (h.later hpass).catchUp
    have hmillisecond := hpass.trans hcatchUp
    obtain ⟨hrest, hend⟩ := ih (h.later hmillisecond) hnext
    rw [advance_succ]
    exact ⟨hmillisecond.trans hrest, hend⟩

/-- Waiting for agreement is orderly. -/
theorem OnTime.wait (h : world.OnTime []) (watch : Convergence.Watch) (left elapsed : Nat) :
    world.IsDulyLater (watch.wait left elapsed world).2 := by
  induction left generalizing elapsed world with
  | zero =>
    rw [Convergence.Watch.wait_zero]
    exact isDulyLater_refl world
  | succ left ih =>
    rw [Convergence.Watch.wait_succ]
    split
    · exact isDulyLater_refl world
    · obtain ⟨hcatchUp, hthrough⟩ := h.catchUp
      have hmillisecond := hcatchUp.trans hthrough.pass
      exact hmillisecond.trans (ih (h.later hmillisecond) _)

end World

end Epidemic
