import Epidemic.Proofs.World.Punctual

/-!
# When messages arrive

If every task has its turn on time, the time at which a message in transit will arrive is settled as
soon as it is sent: a message that still has to wait arrives so much later than its task has its
turn. Turns and timers do not change these times, and a send over a steady network adds its own.
-/

namespace Epidemic

namespace Duration

/-- Nothing is added by no time at all. -/
theorem add_zero (d : Duration) : d.add .zero = d := by
  have hsum : d.nanos + zero.nanos = d.nanos := rfl
  rw [add, hsum, clamp, dif_pos d.nanos_lt]

end Duration

/-- A reliable network without further delays schedules every send with its latency. -/
theorem Network.Reliable.dispatch_eq {σ : Type} [Random.Source σ] {network : Network σ}
    (h : network.Reliable) (hjitter : network.config.jitter.micros = 0) :
    network.dispatch.1 = .scheduled network.config.latency := by
  have hroll : roll network.config network.generator =
      (some network.config.latency, network.generator) := by
    simp only [roll, h.dropRate, drawExtra, hjitter, Bool.false_eq_true, if_false, if_true,
      Duration.add_zero]
  rw [dispatch, hroll]
  dsimp only
  rw [if_pos h.hasClock]

namespace Agenda

variable {τ : Type}

/-- All tasks with the times of their turns; those that are ready have it now. -/
def turns (agenda : Agenda τ) : List (Nat × τ) :=
  agenda.ready.map (fun task => (agenda.now, task)) ++ agenda.timers

/-- A task with a timer is one turn more. -/
theorem perm_turns_schedule (agenda : Agenda τ) (delay : Nat) (task : τ) :
    (agenda.schedule delay task).turns.Perm ((agenda.now + delay, task) :: agenda.turns) := by
  have htimers := perm_insertTimer (agenda.now + delay) task agenda.timers
  exact (htimers.append_left _).trans List.perm_middle

/-- If no timer is overdue, the tasks of those that fire have their turns at the times that they were
set for. -/
theorem turns_fire {agenda : Agenda τ} (h : ∀ timer ∈ agenda.timers, agenda.now ≤ timer.1) :
    agenda.fire.turns = agenda.turns := by
  have hnow : (agenda.timers.takeWhile (·.1 ≤ agenda.now)).map
      (fun timer => (agenda.now, timer.2)) = agenda.timers.takeWhile (·.1 ≤ agenda.now) := by
    refine (List.map_congr_left fun timer hmem => ?_).trans (List.map_id _)
    have htaken := List.mem_takeWhile_imp hmem
    have hle : timer.1 ≤ agenda.now := of_decide_eq_true htaken
    have hge := h timer (List.takeWhile_subset _ hmem)
    exact Prod.ext (Nat.le_antisymm hge hle) rfl
  simp only [turns, fire, List.map_append, List.map_map, List.append_assoc]
  rw [Function.comp_def, hnow, List.takeWhile_append_dropWhile]

/-- Cancelling takes away the turns of the tasks that are meant. -/
theorem turns_cancel (agenda : Agenda τ) (isMeant : τ → Bool) :
    (agenda.cancel isMeant).turns = agenda.turns.filter fun turn => !isMeant turn.2 := by
  simp only [turns, cancel, List.filter_append, List.filter_map, Function.comp_def]

/-- If no task is ready, all turns are those of timers. -/
theorem turns_of_ready_eq_nil {agenda : Agenda τ} (h : agenda.ready = []) :
    agenda.turns = agenda.timers := by
  rw [turns, h]
  rfl

end Agenda

namespace Task

/-- When the message of a task arrives that has its turn at a time, with its envelope. -/
def arrival? : Nat × Task → Option (Nat × Envelope)
  | (turn, .parcel delay content) => some (turn + delay, content.envelope)
  | (_, .rounds _) => none

/-- A message does not arrive before its task has its turn. -/
theorem le_of_arrival? {turn : Nat × Task} {arrival : Nat × Envelope}
    (h : arrival? turn = some arrival) : turn.1 ≤ arrival.1 := by
  obtain ⟨time, task⟩ := turn
  cases task with
  | parcel delay parcel =>
    cases h
    exact Nat.le_add_right time delay
  | rounds interval => cases h

end Task

namespace World

variable {σ : Type} {k : Nat}

/-- The messages in transit with the times at which they will arrive. -/
def arrivals (world : World σ k) : List (Nat × Envelope) :=
  world.agenda.turns.filterMap Task.arrival?

/-- They are the messages in transit. -/
theorem map_arrivals (world : World σ k) : world.arrivals.map (·.2) = world.transit := by
  have htasks : world.agenda.tasks = world.agenda.turns.map (·.2) := by
    simp only [Agenda.tasks, Agenda.turns, List.map_append, List.map_map, Function.comp_def,
      List.map_id']
  rw [arrivals, transit, pending, htasks, List.filterMap_map, List.map_filterMap,
    List.map_filterMap]
  refine List.filterMap_congr fun turn _ => ?_
  obtain ⟨time, task⟩ := turn
  cases task <;> rfl

/-- If no turn comes before a time, nothing arrives before it. -/
theorem le_of_mem_arrivals {world : World σ k} {bound : Nat}
    (h : ∀ turn ∈ world.agenda.turns, bound ≤ turn.1) {arrival : Nat × Envelope}
    (hmem : arrival ∈ world.arrivals) : bound ≤ arrival.1 := by
  obtain ⟨turn, hturn, harrival⟩ := List.mem_filterMap.mp hmem
  exact Nat.le_trans (h turn hturn) (Task.le_of_arrival? harrival)

/-- In a timely world nothing is overdue. -/
theorem Timely.le_arrival {world : World σ k} {delay : Nat} (h : world.Timely delay)
    {arrival : Nat × Envelope} (hmem : arrival ∈ world.arrivals) :
    world.agenda.now ≤ arrival.1 := by
  refine le_of_mem_arrivals (fun turn hturn => ?_) hmem
  rcases List.mem_append.mp hturn with hready | htimer
  · obtain ⟨task, -, rfl⟩ := List.mem_map.mp hready
    exact Nat.le_refl _
  · exact h.due turn htimer

/-- When a world has caught up, what is in transit arrives later. -/
theorem lt_arrival_of_isCaughtUp {world : World σ k} (h : world.agenda.isCaughtUp = true)
    {arrival : Nat × Envelope} (hmem : arrival ∈ world.arrivals) :
    world.agenda.now < arrival.1 := by
  obtain ⟨hready, hlater⟩ := Agenda.isCaughtUp_iff.mp h
  refine le_of_mem_arrivals (fun turn hturn => ?_) hmem
  rw [Agenda.turns_of_ready_eq_nil hready] at hturn
  exact hlater turn hturn

/-- Without its ready task at a position a world lacks the arrival of the message of this task. -/
theorem perm_arrivals_withReady {world : World σ k} {position : Nat} {task : Task}
    (h : world.agenda.ready[position]? = some task) :
    world.arrivals.Perm ((Task.arrival? (world.agenda.now, task)).toList ++
      (world.withReady (world.agenda.ready.eraseIdx position)).arrivals) := by
  have hturns : world.agenda.turns.Perm ((world.agenda.now, task) ::
      (world.withReady (world.agenda.ready.eraseIdx position)).agenda.turns) :=
    ((Agenda.perm_ready_eraseIdx h).map _).append_right _
  have harrivals := hturns.filterMap Task.arrival?
  cases task with
  | parcel delay parcel => exact harrivals
  | rounds interval => exact harrivals

/-- A timer adds the arrival of the message of its task. -/
theorem perm_arrivals_schedule (world : World σ k) (delay : Nat) (task : Task) :
    ({ world with agenda := world.agenda.schedule delay task } : World σ k).arrivals.Perm
      ((Task.arrival? (world.agenda.now + delay, task)).toList ++ world.arrivals) := by
  have harrivals := (world.agenda.perm_turns_schedule delay task).filterMap Task.arrival?
  cases task with
  | parcel delay parcel => exact harrivals
  | rounds interval => exact harrivals

/-- When timers fire on time, messages arrive as they would have arrived. -/
theorem Timely.arrivals_fire {world : World σ k} {delay : Nat} (h : world.Timely delay) :
    ({ world with agenda := world.agenda.fire } : World σ k).arrivals = world.arrivals := by
  simp only [arrivals, Agenda.turns_fire h.due]

/-- When the clock moves on and no task is ready, messages arrive as they would have arrived. -/
theorem arrivals_pass {world : World σ k} (h : world.agenda.ready = []) (millis : Nat) :
    (world.pass millis).arrivals = world.arrivals := by
  have hpass : (world.pass millis).agenda.ready = [] := h
  rw [arrivals, arrivals, Agenda.turns_of_ready_eq_nil h, Agenda.turns_of_ready_eq_nil hpass]
  rfl

/-- The end of the rumor rounds keeps the arrivals. -/
theorem arrivals_stopRounds (world : World σ k) : world.stopRounds.arrivals = world.arrivals := by
  simp only [arrivals, stopRounds, Agenda.turns_cancel, List.filterMap_filter]
  refine List.filterMap_congr fun turn _ => ?_
  obtain ⟨time, task⟩ := turn
  cases task <;> rfl

variable [Random.Source σ]

/-- Sends over a reliable network arrive after the delay of a timely world. -/
theorem Timely.perm_arrivals_sendAll {world : World σ k} {delay : Nat} (h : world.Timely delay)
    (hreliable : world.network.Reliable) (sends : List Envelope) :
    (world.sendAll sends).arrivals.Perm
      (sends.map (fun envelope => (world.agenda.now + delay, envelope)) ++ world.arrivals) := by
  induction sends generalizing world with
  | nil => exact List.Perm.refl _
  | cons envelope rest ih =>
    have hkeeps := keepsTime_send world envelope
    have hfirst : (world.send envelope).arrivals.Perm
        ((world.agenda.now + delay, envelope) :: world.arrivals) := by
      have hturns : (world.send envelope).agenda.turns =
          (world.agenda.ready.map (fun task => (world.agenda.now, task)) ++
            [(world.agenda.now, .parcel delay ⟨world.network.stats.sent, envelope⟩)]) ++
              world.agenda.timers := by
        simp only [send, hreliable.dispatch_eq h.jitter, h.latency, Agenda.turns, Agenda.enqueue,
          List.map_append, List.map_cons, List.map_nil]
      rw [arrivals, hturns, List.append_assoc]
      exact (List.perm_middle.filterMap Task.arrival?)
    have hrest := ih (h.keepsTime hkeeps) ((carries_send hreliable envelope).reliable hreliable)
    rw [hkeeps.now] at hrest
    exact hrest.trans ((hfirst.append_left _).trans List.perm_middle)

/-- What a node sends when something is done to it arrives after the delay. -/
theorem Timely.perm_arrivals_acted {world : World σ k} {delay : Nat} (h : world.Timely delay)
    (hreliable : world.network.Reliable) {index : Nat} {member : Member k}
    (hat : world.members[index]? = some member) (deed : Deed) :
    (world.acted index deed).arrivals.Perm
      (((world.lifeOf member).step world.wall deed).2.map
        (fun envelope => (world.agenda.now + delay, envelope)) ++ world.arrivals) := by
  have hreplaced : (world.replace index
      { member with node := ((world.lifeOf member).step world.wall deed).1.node }
      ((world.lifeOf member).step world.wall deed).1.protocol).Timely delay :=
    h.keepsTime (keepsTime_of_eq rfl rfl)
  rw [acted_of_some hat]
  exact hreplaced.perm_arrivals_sendAll hreliable _

/-! ## Deliveries -/

section Deliveries

variable {world : World σ k} {index : Nat} {member : Member k} {parcel : Parcel}
  (hendpoint : world.network.endpoint? parcel.envelope.target = some (.node index))
  (hat : world.members[index]? = some member)

include hendpoint hat

/-- A message that is delivered to a node is given to it. -/
theorem members_deliver :
    (world.deliver parcel).members = world.members.set index { member with
      node := ((world.lifeOf member).step world.wall
        (.receive parcel.envelope.message parcel.envelope.sender)).1.node } := by
  have hcounted : (world.withNetwork world.network.countDelivered).members[index]? = some member :=
    hat
  rw [deliver_of_some hendpoint hat]
  exact members_acted hcounted _

/-- What the node sends on arrives after the delay. -/
theorem Timely.perm_arrivals_deliver {delay : Nat} (h : world.Timely delay)
    (hreliable : world.network.Reliable) :
    (world.deliver parcel).arrivals.Perm
      (((world.lifeOf member).step world.wall
        (.receive parcel.envelope.message parcel.envelope.sender)).2.map
          (fun envelope => (world.agenda.now + delay, envelope)) ++ world.arrivals) := by
  have hcounted : (world.withNetwork world.network.countDelivered).Timely delay :=
    h.keepsTime (keepsTime_of_eq rfl rfl)
  rw [deliver_of_some hendpoint hat]
  exact hcounted.perm_arrivals_acted
    ⟨hreliable.hasClock, hreliable.isOpen, hreliable.dropRate⟩ hat _

end Deliveries

end World

end Epidemic
