import Mathlib.Algebra.Order.BigOperators.Group.List
import Mathlib.Algebra.Order.Group.Nat
import Epidemic.Proofs.World.Arrivals
import Epidemic.Proofs.World.Orderly

/-!
# Whatever waits has its turn

If only time passes, every message that is in transit leaves the transit, in whatever order the tasks
before had their turns and however far the clock was moved. A task that carries the message has its
turn at some time and delays the delivery by some milliseconds more; the sum of these two does not
grow. Once the world has caught up nothing is left that was due.
-/

namespace Epidemic.World

variable {σ : Type} {k : Nat}

variable {world after : World σ k}

/-! ## Due messages -/

/-- Whether the send with a number was handed over, and its message is not to be delivered later than
at a time, if it is in transit. -/
structure DueBy (bound serial : Nat) (world : World σ k) : Prop where
  /-- The send was handed over. -/
  posted : serial < world.network.stats.sent
  /-- No task delivers the message later. -/
  due : ∀ time delay parcel, (time, .parcel delay parcel) ∈ world.agenda.turns →
    parcel.serial = serial → time + delay ≤ bound

variable {bound serial : Nat}

/-- Every send that was handed over is due by some time. -/
theorem exists_dueBy (h : serial < world.network.stats.sent) :
    ∃ bound, world.DueBy bound serial := by
  -- The sum of all arrival times is as late as any of them.
  refine ⟨(world.arrivals.map Prod.fst).sum, h, fun time delay parcel hmem _ => ?_⟩
  have harrival : (time + delay, parcel.envelope) ∈ world.arrivals :=
    List.mem_filterMap.mpr ⟨_, hmem, rfl⟩
  exact List.le_sum_of_mem (List.mem_map_of_mem (f := Prod.fst) harrival)

/-- What hands over sends only and brings no other turns leaves a message due. -/
theorem DueBy.mono (h : world.DueBy bound serial)
    (hsent : world.network.stats.sent ≤ after.network.stats.sent)
    (hturns : ∀ time delay parcel, (time, .parcel delay parcel) ∈ after.agenda.turns →
      parcel.serial = serial → (time, .parcel delay parcel) ∈ world.agenda.turns) :
    after.DueBy bound serial where
  posted := Nat.lt_of_lt_of_le h.posted hsent
  due time delay parcel hmem heq := h.due time delay parcel (hturns time delay parcel hmem heq) heq

/-- A rumor round that is set a timer is no delivery. -/
theorem DueBy.scheduleRounds (h : world.DueBy bound serial) (delay interval : Nat) :
    ({ world with
      agenda := world.agenda.schedule delay (.rounds interval) } : World σ k).DueBy bound serial := by
  refine h.mono (Nat.le_refl _) fun time wait parcel hmem _ => ?_
  rcases List.mem_cons.mp ((Agenda.perm_turns_schedule _ _ _).mem_iff.mp hmem) with heq | hmem
  · cases heq
  · exact hmem

/-- When timers fire of which none is overdue, the messages are due as before. -/
theorem DueBy.fire (h : world.DueBy bound serial)
    (hpunctual : ∀ timer ∈ world.agenda.timers,
      timer.2.isRounds = true ∨ world.agenda.now ≤ timer.1) :
    ({ world with agenda := world.agenda.fire } : World σ k).DueBy bound serial := by
  refine h.mono (Nat.le_refl _) fun time delay parcel hmem _ => ?_
  rcases List.mem_append.mp hmem with hready | htimer
  · obtain ⟨task, htask, heq⟩ := List.mem_map.mp hready
    cases heq
    rcases List.mem_append.mp htask with hold | hfired
    · exact List.mem_append_left _ (List.mem_map_of_mem hold)
    · obtain ⟨⟨due, task⟩, htaken, heq⟩ := List.mem_map.mp hfired
      cases heq
      have hfires := List.mem_takeWhile_imp htaken
      have hle : due ≤ world.agenda.now := of_decide_eq_true hfires
      have hset := List.takeWhile_subset _ htaken
      have hge := (hpunctual _ hset).resolve_left Bool.false_ne_true
      exact List.mem_append_right _ (Nat.le_antisymm hle hge ▸ hset)
  · exact List.mem_append_right _ (List.dropWhile_subset _ htimer)

/-- A message that was due is not in transit when there is nothing left to do. -/
theorem DueBy.not_mem_pending (h : world.DueBy bound serial) (hthrough : world.IsThrough)
    (hbound : bound ≤ world.agenda.now) {parcel : Parcel} (hserial : parcel.serial = serial) :
    parcel ∉ world.pending := by
  intro hmem
  obtain ⟨task, htask, hparcel⟩ := List.mem_filterMap.mp hmem
  rw [Agenda.tasks, hthrough.ready, List.nil_append] at htask
  obtain ⟨⟨time, task⟩, htimer, rfl⟩ := List.mem_map.mp htask
  cases task with
  | rounds interval => cases hparcel
  | parcel delay content =>
    cases hparcel
    have hlater : world.agenda.now < time := (hthrough.awaits _ htimer).resolve_left Bool.false_ne_true
    have hturn : (time, .parcel delay parcel) ∈ world.agenda.turns :=
      List.mem_append_right _ htimer
    have hdue := h.due time delay parcel hturn hserial
    omega

variable [Random.Source σ]

/-- A send does not delay those before. -/
theorem DueBy.send (h : world.DueBy bound serial) (envelope : Envelope) :
    (world.send envelope).DueBy bound serial := by
  obtain ⟨hsent, -⟩ := world.network.stats_dispatch
  unfold World.send
  dsimp only
  split
  · refine h.mono (hsent ▸ Nat.le_succ _) fun time delay parcel hmem heq => ?_
    rcases List.mem_append.mp hmem with hready | htimer
    · obtain ⟨task, htask, hnow⟩ := List.mem_map.mp hready
      rcases List.mem_append.mp htask with hold | hnew
      · exact List.mem_append_left _ (List.mem_map.mpr ⟨task, hold, hnow⟩)
      · rw [List.mem_singleton.mp hnew] at hnow
        cases hnow
        exact absurd (heq ▸ h.posted) (Nat.lt_irrefl _)
    · exact List.mem_append_right _ htimer
  · exact h.mono (hsent ▸ Nat.le_succ _) fun _ _ _ hmem _ => hmem

/-- Neither does whatever else is done in turns. -/
theorem Touches.dueBy (h : world.Touches after) (hdue : world.DueBy bound serial) :
    after.DueBy bound serial := by
  induction h with
  | refl => exact hdue
  | tail _ htouch ih =>
    cases htouch with
    | send envelope => exact ih.send envelope
    | member _ _ _ | delivered | undeliverable | event _ _ =>
      exact ih.mono (Nat.le_refl _) fun _ _ _ hmem _ => hmem

/-- The turn of the first ready task does not delay any message. -/
theorem DueBy.takeTurn (h : world.DueBy bound serial) {task : Task} {rest : List Task}
    (hready : world.agenda.ready = task :: rest) :
    ((world.withReady rest).perform task).DueBy bound serial := by
  have hturns : world.agenda.turns =
      (world.agenda.now, task) :: (world.withReady rest).agenda.turns := by
    rw [Agenda.turns, hready]
    rfl
  have hrest : (world.withReady rest).DueBy bound serial :=
    h.mono (Nat.le_refl _) fun _ _ _ hmem _ => hturns ▸ List.mem_cons_of_mem _ hmem
  cases task with
  | parcel delay parcel =>
    cases delay with
    | zero => exact (touches_deliver _ parcel).dueBy hrest
    | succ delay =>
      refine ⟨hrest.posted, fun time wait content hmem heq => ?_⟩
      rcases List.mem_cons.mp ((Agenda.perm_turns_schedule _ _ _).mem_iff.mp hmem) with hnew | hold
      · cases hnew
        exact h.due world.agenda.now (delay + 1) parcel (hturns ▸ List.mem_cons_self) heq
      · exact hrest.due time wait content hold heq
  | rounds interval =>
    rw [perform, roundOfAll]
    split
    · exact hrest
    · exact ((touches_roundOf _ _).dueBy hrest).scheduleRounds _ _

/-- Settling does not delay any message. -/
theorem DueBy.settle (h : world.DueBy bound serial) : world.settle.DueBy bound serial := by
  induction world using settle.induct with
  | case1 world hready =>
    rw [settle_of_ready_eq_nil hready]
    exact h
  | case2 world task rest hready ih =>
    rw [settle_of_ready_eq_cons hready]
    exact ih (h.takeTurn hready)

/-- The passage of time does not delay any message, and leaves nothing to do. -/
theorem DueBy.advance (h : world.DueBy bound serial)
    (hsorted : Agenda.Sorted world.agenda.timers) (hthrough : world.IsThrough) (millis : Nat) :
    (world.advance millis).DueBy bound serial ∧ (world.advance millis).IsThrough := by
  induction millis generalizing world with
  | zero =>
    rw [advance_zero]
    exact ⟨h, hthrough⟩
  | succ millis ih =>
    have hpass : (world.pass 1).DueBy bound serial := by
      refine h.mono (Nat.le_refl _) fun time delay parcel hmem _ => ?_
      have hready : (world.pass 1).agenda.ready = [] := hthrough.ready
      rw [Agenda.turns_of_ready_eq_nil hready] at hmem
      rw [Agenda.turns_of_ready_eq_nil hthrough.ready]
      exact hmem
    have hsorted' : Agenda.Sorted (world.pass 1).agenda.timers := hsorted
    rw [advance_succ]
    refine ih ?_ ((isLater_catchUp _).sorted hsorted') (catchUp_of_sorted hsorted').2
    exact (hpass.fire fun timer hmem => hthrough.awaits timer hmem).settle

end Epidemic.World
