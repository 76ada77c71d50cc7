import Epidemic.Proofs.World.Turns

/-!
# Draining the queue

While the clock stands still, ready tasks have their turn, and their deliveries may bring further
tasks into the queue. But a task that has its turn leaves the queue, and no more tasks come than
there are sends. So if the number of sends is bounded, so is the number of turns, in whatever order
the tasks have them.
-/

namespace Epidemic.World

variable {σ : Type} {k : Nat}

/-- Whether the queue has become longer by no more tasks than there were sends. -/
def QueuesSends (world after : World σ k) : Prop :=
  after.agenda.ready.length + world.network.stats.sent ≤
    world.agenda.ready.length + after.network.stats.sent

variable {world middle after : World σ k}

/-- This may be said of one thing after the other. -/
theorem QueuesSends.trans (h : world.QueuesSends middle) (h' : middle.QueuesSends after) :
    world.QueuesSends after := by
  unfold QueuesSends at h h' ⊢
  omega

/-- It holds if queue and sends stay as they are. -/
theorem queuesSends_of_eq (hready : after.agenda.ready = world.agenda.ready)
    (hsent : after.network.stats.sent = world.network.stats.sent) : world.QueuesSends after := by
  rw [QueuesSends, hready, hsent]

variable [Random.Source σ]

/-- A send brings no more than its own task. -/
theorem queuesSends_send (world : World σ k) (envelope : Envelope) :
    world.QueuesSends (world.send envelope) := by
  have hsent := (extends_send world envelope).sent
  have hready : (world.send envelope).agenda.ready.length ≤ world.agenda.ready.length + 1 := by
    unfold send
    dsimp only
    split
    · exact Nat.le_of_eq List.length_append
    · exact Nat.le_succ _
  rw [List.length_singleton] at hsent
  unfold QueuesSends
  omega

/-- Whatever is done in turns brings no more tasks than there are sends. -/
theorem Touches.queuesSends (h : world.Touches after) : world.QueuesSends after := by
  induction h with
  | refl => exact queuesSends_of_eq rfl rfl
  | tail _ htouch ih =>
    refine ih.trans ?_
    cases htouch with
    | send envelope => exact queuesSends_send _ envelope
    | member _ _ _ | delivered | undeliverable | event _ _ => exact queuesSends_of_eq rfl rfl

/-- Neither does the turn of a task bring more. -/
theorem queuesSends_perform (world : World σ k) (task : Task) :
    world.QueuesSends (world.perform task) := by
  cases task with
  | parcel delay parcel =>
    cases delay with
    | zero => exact (touches_deliver world parcel).queuesSends
    | succ delay => exact queuesSends_of_eq rfl rfl
  | rounds interval =>
    rw [perform, roundOfAll]
    split
    · exact queuesSends_of_eq rfl rfl
    · exact (touches_roundOf world _).queuesSends.trans (queuesSends_of_eq rfl rfl)

/-- A task that has its turn leaves the queue, and no more tasks come than there are sends. -/
theorem length_ready_takeTurn {position : Nat} (h : position < world.agenda.ready.length) :
    (world.takeTurn position).agenda.ready.length + 1 + world.network.stats.sent ≤
      world.agenda.ready.length + (world.takeTurn position).network.stats.sent := by
  have hat := List.getElem?_eq_getElem h
  have hperform := queuesSends_perform
    (world.withReady (world.agenda.ready.eraseIdx position)) (world.agenda.ready[position])
  have hrest : (world.withReady (world.agenda.ready.eraseIdx position)).agenda.ready.length =
      world.agenda.ready.length - 1 := List.length_eraseIdx_of_lt h
  have hsent : (world.withReady (world.agenda.ready.eraseIdx position)).network.stats.sent =
      world.network.stats.sent := rfl
  unfold QueuesSends at hperform
  rw [hrest, hsent] at hperform
  simp only [takeTurn, hat]
  omega

/-- Whether at every one of the positions there is a ready task when its time has come: the tasks at
these positions have their turn, one after the other. -/
def Drains (world : World σ k) : List Nat → Prop
  | [] => True
  | position :: rest =>
    position < world.agenda.ready.length ∧ (world.takeTurn position).Drains rest

/-- Ready tasks that have their turn, in whatever order, are no more than were ready and than there
are sends meanwhile. -/
theorem length_le_of_drains {positions : List Nat} (h : world.Drains positions) :
    positions.length + (world.run (positions.map .turn)).agenda.ready.length +
        world.network.stats.sent ≤
      world.agenda.ready.length + (world.run (positions.map .turn)).network.stats.sent := by
  induction positions generalizing world with
  | nil =>
    rw [List.length_nil, Nat.zero_add]
    exact Nat.le_refl _
  | cons position rest ih =>
    obtain ⟨hlt, hdrains⟩ := h
    have hturn := length_ready_takeTurn hlt
    have hrest := ih hdrains
    have hrun : world.run ((position :: rest).map .turn) =
        (world.takeTurn position).run (rest.map .turn) := rfl
    rw [hrun, List.length_cons]
    omega

/-- Settling drains the queue: it gives the first ready task its turn until none is left. -/
theorem exists_drains_settle (world : World σ k) :
    ∃ positions, world.Drains positions ∧ world.run (positions.map .turn) = world.settle ∧
      world.settle.agenda.ready = [] := by
  induction world using settle.induct with
  | case1 world hready =>
    rw [settle_of_ready_eq_nil hready]
    exact ⟨[], trivial, rfl, hready⟩
  | case2 world task rest hready ih =>
    have hturn : world.takeTurn 0 = (world.withReady rest).perform task := takeTurn_zero hready
    rw [← hturn] at ih
    obtain ⟨positions, hdrains, hrun, hsettled⟩ := ih
    rw [settle_of_ready_eq_cons hready, ← hturn]
    refine ⟨0 :: positions, ⟨?_, hdrains⟩, hrun, hsettled⟩
    rw [hready]
    exact Nat.succ_pos _

end Epidemic.World
