import Epidemic.Proofs.World.Punctual
import Epidemic.Proofs.World.Turns

/-!
# The timetable of deliveries

A send that is given a delay is booked: it is due when so many milliseconds, begun ones counted as
whole, have passed. Its message goes through the agenda twice, first to set a timer, and again when
the timer fires, unless it has not to wait at all. The timetable says of every booking how far it has
come, in the order in which the agenda will get to it.

The invariant is that of two bookings with the same delay the earlier one is always ahead: new
bookings come last, and a timer that is set now is due after all timers that were set before for the
same delay. It is stated with messages in hand, which are being delivered but whose outcome is not
written down yet.
-/

namespace Epidemic

/-- A send that was given a delay. -/
structure Booking where
  /-- When it was handed over. -/
  time : Nat
  /-- Its delay in milliseconds, a begun one being counted as a whole. -/
  delay : Nat
  /-- Its message. -/
  parcel : Parcel

namespace Agenda

variable {τ : Type}

/-- Among sorted timers a new one takes its place behind those that are not later. -/
theorem exists_insertTimer {timers : List (Nat × τ)} (h : Sorted timers) (due : Nat) (task : τ) :
    ∃ earlier later, timers = earlier ++ later ∧
      insertTimer due task timers = earlier ++ (due, task) :: later ∧
      ∀ timer ∈ later, due < timer.1 := by
  induction timers with
  | nil => exact ⟨[], [], rfl, rfl, fun _ hmem => absurd hmem List.not_mem_nil⟩
  | cons first rest ih =>
    obtain ⟨hfirst, hrest⟩ := List.pairwise_cons.mp h
    by_cases hle : first.1 ≤ due
    · obtain ⟨earlier, later, htimers, hinsert, hlater⟩ := ih hrest
      refine ⟨first :: earlier, later, by rw [htimers]; rfl, ?_, hlater⟩
      rw [insertTimer, if_pos hle, hinsert]
      rfl
    · refine ⟨[], first :: rest, rfl, by rw [insertTimer, if_neg hle]; rfl, fun timer hmem => ?_⟩
      rw [Nat.not_le] at hle
      rcases List.mem_cons.mp hmem with rfl | hold
      · exact hle
      · exact Nat.lt_of_lt_of_le hle (hfirst timer hold)

end Agenda

namespace Booking

/-- When the message is to be delivered. -/
def due (booking : Booking) : Nat := booking.time + booking.delay

/-- The task that delivers the message. -/
def delivery (booking : Booking) : Task := .parcel 0 booking.parcel

/-- The task that sets the timer of the message. -/
def start (booking : Booking) : Task := .parcel booking.delay booking.parcel

/-- The timer of the message. -/
def timer (booking : Booking) : Nat × Task := (booking.due, booking.delivery)

/-- What is written down when the message has been delivered, or has found no endpoint. -/
def resolution (booking : Booking) : Nat × Parcel := (booking.due, booking.parcel)

/-- Whether two lists have the same bookings of every delay in the same order. -/
def SameOrder (first second : List Booking) : Prop :=
  ∀ delay, first.filter (fun booking => booking.delay = delay) =
    second.filter (fun booking => booking.delay = delay)

variable {first second third : List Booking}

/-- Both relations to a third list make one. -/
theorem SameOrder.trans (h : SameOrder first second) (h' : SameOrder second third) :
    SameOrder first third :=
  fun delay => (h delay).trans (h' delay)

/-- More bookings may come after both lists. -/
theorem SameOrder.append_right (h : SameOrder first second) (more : List Booking) :
    SameOrder (first ++ more) (second ++ more) := by
  intro delay
  rw [List.filter_append, List.filter_append, h delay]

/-- More bookings may come before both lists. -/
theorem SameOrder.append_left (h : SameOrder first second) (more : List Booking) :
    SameOrder (more ++ first) (more ++ second) := by
  intro delay
  rw [List.filter_append, List.filter_append, h delay]

/-- The lists have the same bookings. -/
theorem SameOrder.mem_iff (h : SameOrder first second) {booking : Booking} :
    booking ∈ first ↔ booking ∈ second := by
  have hmem : ∀ {bookings : List Booking}, booking ∈ bookings ↔
      booking ∈ bookings.filter (fun other => other.delay = booking.delay) := by
    intro bookings
    simp only [List.mem_filter, decide_true, and_true]
  rw [hmem, h, ← hmem]

/-- A booking may come before or after bookings of other delays. -/
theorem sameOrder_cons_append (booking : Booking) {bookings : List Booking}
    (h : ∀ other ∈ bookings, other.delay ≠ booking.delay) :
    SameOrder (booking :: bookings) (bookings ++ [booking]) := by
  intro delay
  rw [List.filter_append, List.filter_cons, List.filter_cons, List.filter_nil]
  by_cases hdelay : booking.delay = delay
  · have hnone : bookings.filter (fun other => other.delay = delay) = [] :=
      List.filter_eq_nil_iff.mpr fun other hmem => by
        simpa only [decide_eq_true_eq, ← hdelay] using h other hmem
    simp only [hdelay, hnone, decide_true, if_true, List.nil_append]
  · simp only [hdelay, decide_false, Bool.false_eq_true, if_false, List.append_nil]

end Booking

namespace Event

/-- The booking of a send that is scheduled. -/
def booking? : Event → Option Booking
  | .posted time parcel (.scheduled delay) => some ⟨time, delay.millisCeil, parcel⟩
  | _ => none

/-- The time and the message, where an event says that a message was delivered or found no
endpoint. -/
def resolution? : Event → Option (Nat × Parcel)
  | .arrived time parcel _ => some (time, parcel)
  | .unclaimed time parcel => some (time, parcel)
  | _ => none

end Event

namespace Task

/-- Whether a task delivers a message. -/
def isDelivery : Task → Bool
  | .parcel 0 _ => true
  | _ => false

/-- Whether a task sets the timer of a message. -/
def isStart : Task → Bool
  | .parcel (_ + 1) _ => true
  | _ => false

/-- What delivers a message is no rumor round. -/
theorem isDelivery_and_not_isRounds (task : Task) :
    (task.isDelivery && !task.isRounds) = task.isDelivery := by
  cases task with
  | parcel _ _ => exact Bool.and_true _
  | rounds _ => rfl

/-- What sets the timer of a message is no rumor round. -/
theorem isStart_and_not_isRounds (task : Task) :
    (task.isStart && !task.isRounds) = task.isStart := by
  cases task with
  | parcel _ _ => exact Bool.and_true _
  | rounds _ => rfl

/-- The bookings whose messages such tasks carry have to wait. -/
theorem pos_of_isStart {booking : Booking} (h : booking.start.isStart = true) :
    0 < booking.delay := by
  obtain ⟨time, delay, parcel⟩ := booking
  cases delay with
  | zero => cases h
  | succ delay => exact Nat.succ_pos delay

end Task

/-- How far the bookings have come. -/
structure Timetable where
  /-- Messages that were delivered or found no endpoint, in the order of their turns. -/
  resolved : List Booking
  /-- Messages that are ready to be delivered. -/
  ripe : List Booking
  /-- Messages that wait for their time. -/
  waiting : List Booking
  /-- Messages whose timers are to be set. -/
  fresh : List Booking

namespace Timetable

/-- All bookings. -/
def all (table : Timetable) : List Booking :=
  table.resolved ++ table.ripe ++ table.waiting ++ table.fresh

/-- Whether a timetable says how far some bookings have come that are carried out by an agenda, when
some messages are in hand. -/
structure Describes (table : Timetable) (hand : List Parcel) (agenda : Agenda Task)
    (bookings : List Booking) (resolutions : List (Nat × Parcel)) : Prop where
  /-- Messages were resolved when they were due, or are in hand. -/
  resolved : resolutions ++ hand.map (fun parcel => (agenda.now, parcel)) =
    table.resolved.map Booking.resolution
  /-- Ripe messages are ready. -/
  ripe : agenda.ready.filter Task.isDelivery = table.ripe.map Booking.delivery
  /-- Messages wait with timers. -/
  waiting : agenda.timers.filter (fun timer => timer.2.isDelivery) = table.waiting.map Booking.timer
  /-- Fresh messages are ready. -/
  fresh : agenda.ready.filter Task.isStart = table.fresh.map Booking.start
  /-- The task of a timer sets no other one. -/
  once : ∀ timer ∈ agenda.timers, timer.2.isStart = false
  /-- The timers are sorted. -/
  sorted : Agenda.Sorted agenda.timers
  /-- Of the bookings with one delay the earlier ones are ahead. -/
  order : Booking.SameOrder table.all bookings
  /-- Nothing was booked in the future. -/
  past : ∀ booking ∈ bookings, booking.time ≤ agenda.now
  /-- Nothing was resolved too early. -/
  due_resolved : ∀ booking ∈ table.resolved, booking.due ≤ agenda.now
  /-- Ripe messages are due now. -/
  due_ripe : ∀ booking ∈ table.ripe, booking.due = agenda.now
  /-- Waiting messages are not overdue, and have had to wait. -/
  due_waiting : ∀ booking ∈ table.waiting, agenda.now ≤ booking.due ∧ 0 < booking.delay
  /-- Fresh messages were handed over now. -/
  time_fresh : ∀ booking ∈ table.fresh, booking.time = agenda.now

variable {table : Timetable} {hand : List Parcel} {agenda : Agenda Task} {bookings : List Booking}
  {resolutions : List (Nat × Parcel)}

/-- An empty timetable says that nothing was booked. -/
theorem describes_empty : (⟨[], [], [], []⟩ : Timetable).Describes [] .empty [] [] where
  resolved := rfl
  ripe := rfl
  waiting := rfl
  fresh := rfl
  once _ hmem := absurd hmem List.not_mem_nil
  sorted := List.Pairwise.nil
  order _ := rfl
  past _ hmem := absurd hmem List.not_mem_nil
  due_resolved _ hmem := absurd hmem List.not_mem_nil
  due_ripe _ hmem := absurd hmem List.not_mem_nil
  due_waiting _ hmem := absurd hmem List.not_mem_nil
  time_fresh _ hmem := absurd hmem List.not_mem_nil

/-- With no message in hand all resolved messages are written down. -/
theorem Describes.resolutions_eq (h : table.Describes [] agenda bookings resolutions) :
    resolutions = table.resolved.map Booking.resolution :=
  (List.append_nil _).symm.trans h.resolved

/-- A ripe message is ready to be delivered. -/
theorem Describes.delivery_mem (h : table.Describes hand agenda bookings resolutions)
    {booking : Booking} (hmem : booking ∈ table.ripe) : booking.delivery ∈ agenda.ready := by
  have htask : booking.delivery ∈ agenda.ready.filter Task.isDelivery :=
    h.ripe ▸ List.mem_map_of_mem hmem
  exact (List.mem_filter.mp htask).1

/-- A waiting message has a timer. -/
theorem Describes.timer_mem (h : table.Describes hand agenda bookings resolutions)
    {booking : Booking} (hmem : booking ∈ table.waiting) : booking.timer ∈ agenda.timers := by
  have htimer : booking.timer ∈ agenda.timers.filter (fun timer => timer.2.isDelivery) :=
    h.waiting ▸ List.mem_map_of_mem hmem
  exact (List.mem_filter.mp htimer).1

/-- The timer of a fresh message is ready to be set, since the message has to wait. -/
theorem Describes.start_mem (h : table.Describes hand agenda bookings resolutions)
    {booking : Booking} (hmem : booking ∈ table.fresh) :
    booking.start ∈ agenda.ready ∧ 0 < booking.delay := by
  have htask : booking.start ∈ agenda.ready.filter Task.isStart :=
    h.fresh ▸ List.mem_map_of_mem hmem
  exact ⟨(List.mem_filter.mp htask).1, Task.pos_of_isStart (List.mem_filter.mp htask).2⟩

/-- A message that waits longer than another one would from now on was booked with another delay. -/
theorem Describes.delay_ne (h : table.Describes hand agenda bookings resolutions)
    {booking : Booking} (hmem : booking ∈ table.waiting) {delay : Nat}
    (hlater : agenda.now + delay < booking.due) : booking.delay ≠ delay := by
  have hall : booking ∈ table.all := List.mem_append_left _ (List.mem_append_right _ hmem)
  have hpast := h.past booking (h.order.mem_iff.mp hall)
  rw [Booking.due] at hlater
  omega

/-- Nothing is booked in the future, whatever is booked now. -/
theorem Describes.past_append (h : table.Describes hand agenda bookings resolutions) (delay : Nat)
    (parcel : Parcel) :
    ∀ booking ∈ bookings ++ [⟨agenda.now, delay, parcel⟩], booking.time ≤ agenda.now := by
  intro booking hmem
  rcases List.mem_append.mp hmem with hold | hnew
  · exact h.past booking hold
  · rw [List.mem_singleton.mp hnew]

/-! ## What happens to the agenda -/

/-- A booking without delay is ripe at once. -/
theorem Describes.enqueue_zero (h : table.Describes hand agenda bookings resolutions)
    (parcel : Parcel) :
    ({ table with ripe := table.ripe ++ [⟨agenda.now, 0, parcel⟩] } : Timetable).Describes hand
      (agenda.enqueue (.parcel 0 parcel)) (bookings ++ [⟨agenda.now, 0, parcel⟩]) resolutions where
  resolved := h.resolved
  ripe := by
    rw [List.map_append, ← h.ripe]
    exact List.filter_append _ _
  waiting := h.waiting
  fresh := by
    rw [← h.fresh]
    exact (List.filter_append _ _).trans (List.append_nil _)
  once := h.once
  sorted := h.sorted
  order := by
    have hlater : ∀ booking ∈ table.waiting ++ table.fresh, booking.delay ≠ 0 := by
      intro booking hmem
      rcases List.mem_append.mp hmem with hwaiting | hfresh
      · exact Nat.ne_of_gt (h.due_waiting booking hwaiting).2
      · exact Nat.ne_of_gt (h.start_mem hfresh).2
    have hlast := (Booking.sameOrder_cons_append ⟨agenda.now, 0, parcel⟩ hlater).append_left
      (table.resolved ++ table.ripe)
    have hold := h.order.append_right [⟨agenda.now, 0, parcel⟩]
    simp only [all, List.append_assoc, List.singleton_append] at hlast hold ⊢
    exact hlast.trans hold
  past := h.past_append 0 parcel
  due_resolved := h.due_resolved
  due_ripe booking hmem := by
    rcases List.mem_append.mp hmem with hold | hnew
    · exact h.due_ripe booking hold
    · rw [List.mem_singleton.mp hnew]
      rfl
  due_waiting := h.due_waiting
  time_fresh := h.time_fresh

/-- A booking with a delay is fresh. -/
theorem Describes.enqueue_succ (h : table.Describes hand agenda bookings resolutions) (delay : Nat)
    (parcel : Parcel) :
    ({ table with fresh := table.fresh ++ [⟨agenda.now, delay + 1, parcel⟩] } : Timetable).Describes
      hand (agenda.enqueue (.parcel (delay + 1) parcel))
        (bookings ++ [⟨agenda.now, delay + 1, parcel⟩]) resolutions where
  resolved := h.resolved
  ripe := by
    rw [← h.ripe]
    exact (List.filter_append _ _).trans (List.append_nil _)
  waiting := h.waiting
  fresh := by
    rw [List.map_append, ← h.fresh]
    exact List.filter_append _ _
  once := h.once
  sorted := h.sorted
  order := by
    have hold := h.order.append_right [⟨agenda.now, delay + 1, parcel⟩]
    simp only [all, List.append_assoc] at hold ⊢
    exact hold
  past := h.past_append (delay + 1) parcel
  due_resolved := h.due_resolved
  due_ripe := h.due_ripe
  due_waiting := h.due_waiting
  time_fresh booking hmem := by
    rcases List.mem_append.mp hmem with hold | hnew
    · exact h.time_fresh booking hold
    · rw [List.mem_singleton.mp hnew]
      rfl

/-- The message of the first delivery is taken in hand. -/
theorem Describes.takeDelivery (h : table.Describes [] agenda bookings resolutions)
    {parcel : Parcel} {rest : List Task} (hready : agenda.ready = .parcel 0 parcel :: rest) :
    ∃ table' : Timetable,
      table'.Describes [parcel] { agenda with ready := rest } bookings resolutions := by
  have hripe := h.ripe
  have hfresh := h.fresh
  rw [hready] at hripe hfresh
  obtain ⟨booking, ripe, htable, hfirst, hrest⟩ := List.map_eq_cons_iff.mp hripe.symm
  have hparcel : booking.parcel = parcel := by
    cases hfirst
    rfl
  have hdue : booking.due = agenda.now := h.due_ripe booking (htable ▸ List.mem_cons_self)
  refine ⟨{ table with resolved := table.resolved ++ [booking], ripe }, ?_, hrest.symm, h.waiting,
    hfresh, h.once, h.sorted, ?_, h.past, ?_, ?_, h.due_waiting, h.time_fresh⟩
  · rw [List.map_append, ← h.resolutions_eq]
    simp only [List.map_cons, List.map_nil, Booking.resolution, hparcel, hdue]
  · have horder := h.order
    simp only [all, htable, List.append_assoc, List.cons_append, List.nil_append] at horder ⊢
    exact horder
  · intro other hmem
    rcases List.mem_append.mp hmem with hold | hnew
    · exact h.due_resolved other hold
    · rw [List.mem_singleton.mp hnew]
      exact Nat.le_of_eq hdue
  · exact fun other hmem => h.due_ripe other (htable ▸ List.mem_cons_of_mem booking hmem)

/-- A timer that is set now takes its place among those of the waiting messages, and behind those of
messages with the same delay. -/
theorem Describes.exists_place (h : table.Describes hand agenda bookings resolutions)
    (booking : Booking) (hnow : booking.time = agenda.now) :
    ∃ before behind, table.waiting = before ++ behind ∧
      (Agenda.insertTimer booking.due booking.delivery agenda.timers).filter
        (fun timer => timer.2.isDelivery) = (before ++ booking :: behind).map Booking.timer ∧
      ∀ other ∈ behind, other.delay ≠ booking.delay := by
  obtain ⟨earlier, later, htimers, hinsert, hlater⟩ :=
    Agenda.exists_insertTimer h.sorted booking.due booking.delivery
  have hwaiting := h.waiting
  rw [htimers, List.filter_append] at hwaiting
  obtain ⟨before, behind, hsplit, hbefore, hbehind⟩ := List.map_eq_append_iff.mp hwaiting.symm
  refine ⟨before, behind, hsplit, ?_, fun other hmem => ?_⟩
  · rw [hinsert, List.filter_append, List.map_append, hbefore, List.map_cons, hbehind]
    rfl
  · have htimer : other.timer ∈ later.filter (fun timer => timer.2.isDelivery) :=
      hbehind ▸ List.mem_map_of_mem hmem
    have hdue := hlater other.timer (List.mem_filter.mp htimer).1
    rw [Booking.due, hnow] at hdue
    exact h.delay_ne (hsplit ▸ List.mem_append_right before hmem) hdue

/-- The timer of the first fresh message is set. -/
theorem Describes.takeStart (h : table.Describes hand agenda bookings resolutions) {delay : Nat}
    {parcel : Parcel} {rest : List Task} (hready : agenda.ready = .parcel (delay + 1) parcel :: rest) :
    ∃ table' : Timetable, table'.Describes hand
      (({ agenda with ready := rest } : Agenda Task).schedule (delay + 1) (.parcel 0 parcel))
        bookings resolutions := by
  have hripe := h.ripe
  have hfresh := h.fresh
  rw [hready] at hripe hfresh
  obtain ⟨booking, fresh, htable, hfirst, hrest⟩ := List.map_eq_cons_iff.mp hfresh.symm
  have hbooking : booking = ⟨agenda.now, delay + 1, parcel⟩ := by
    have htime : booking.time = agenda.now := h.time_fresh _ (htable ▸ List.mem_cons_self)
    obtain ⟨time, _, _⟩ := booking
    cases hfirst
    rw [← htime]
  subst hbooking
  obtain ⟨before, behind, hsplit, hplace, hothers⟩ :=
    h.exists_place ⟨agenda.now, delay + 1, parcel⟩ rfl
  refine ⟨{ table with
      waiting := before ++ ⟨agenda.now, delay + 1, parcel⟩ :: behind, fresh },
    h.resolved, hripe, hplace, hrest.symm, ?_, Agenda.sorted_insertTimer h.sorted _ _, ?_, h.past,
    h.due_resolved, h.due_ripe, ?_, ?_⟩
  · intro timer hmem
    have hmem := (Agenda.perm_insertTimer _ _ agenda.timers).mem_iff.mp hmem
    rcases List.mem_cons.mp hmem with rfl | hold
    · rfl
    · exact h.once timer hold
  · have hmoved := ((Booking.sameOrder_cons_append ⟨agenda.now, delay + 1, parcel⟩
      hothers).append_left (table.resolved ++ table.ripe ++ before)).append_right fresh
    have horder := h.order
    simp only [all, htable, hsplit, List.append_assoc, List.cons_append, List.nil_append]
      at hmoved horder ⊢
    exact hmoved.trans horder
  · intro other hmem
    rcases List.mem_append.mp hmem with hold | hmem
    · exact h.due_waiting other (hsplit ▸ List.mem_append_left behind hold)
    rcases List.mem_cons.mp hmem with rfl | hold
    · exact ⟨Nat.le_add_right _ _, Nat.succ_pos delay⟩
    · exact h.due_waiting other (hsplit ▸ List.mem_append_right before hold)
  · exact fun other hmem => h.time_fresh other (htable ▸ List.mem_cons_of_mem _ hmem)

/-- Rumor rounds that have their turn leave the bookings alone. -/
theorem Describes.takeRounds (h : table.Describes hand agenda bookings resolutions)
    {interval : Nat} {rest : List Task} (hready : agenda.ready = .rounds interval :: rest) :
    table.Describes hand { agenda with ready := rest } bookings resolutions where
  __ := h
  ripe := by
    have hripe := h.ripe
    rw [hready] at hripe
    exact hripe
  fresh := by
    have hfresh := h.fresh
    rw [hready] at hfresh
    exact hfresh

/-- So do rumor rounds that are set a timer. -/
theorem Describes.scheduleRounds (h : table.Describes hand agenda bookings resolutions)
    (delay interval : Nat) :
    table.Describes hand (agenda.schedule delay (.rounds interval)) bookings resolutions where
  __ := h
  waiting := by
    obtain ⟨earlier, later, htimers, hinsert, -⟩ :=
      Agenda.exists_insertTimer h.sorted (agenda.now + delay) (.rounds interval)
    rw [← h.waiting, htimers, Agenda.schedule, hinsert, List.filter_append, List.filter_append]
    rfl
  once timer hmem := by
    have hmem := (Agenda.perm_insertTimer _ _ agenda.timers).mem_iff.mp hmem
    rcases List.mem_cons.mp hmem with rfl | hold
    · rfl
    · exact h.once timer hold
  sorted := Agenda.sorted_insertTimer h.sorted _ _

/-- So do rumor rounds that end. -/
theorem Describes.cancelRounds (h : table.Describes hand agenda bookings resolutions) :
    table.Describes hand (agenda.cancel Task.isRounds) bookings resolutions where
  __ := h
  ripe := by
    rw [← h.ripe, Agenda.cancel, List.filter_filter]
    exact List.filter_congr fun task _ => task.isDelivery_and_not_isRounds
  waiting := by
    rw [← h.waiting, Agenda.cancel, List.filter_filter]
    exact List.filter_congr fun timer _ => timer.2.isDelivery_and_not_isRounds
  fresh := by
    rw [← h.fresh, Agenda.cancel, List.filter_filter]
    exact List.filter_congr fun task _ => task.isStart_and_not_isRounds
  once timer hmem := h.once timer (List.mem_filter.mp hmem).1
  sorted := h.sorted.sublist List.filter_sublist

/-- When timers fire, the messages that are due are ripe. -/
theorem Describes.fire (h : table.Describes hand agenda bookings resolutions) :
    ∃ table' : Timetable, table'.Describes hand agenda.fire bookings resolutions := by
  have hwaiting := h.waiting
  rw [← List.takeWhile_append_dropWhile (p := fun timer => decide (timer.1 ≤ agenda.now))
    (l := agenda.timers), List.filter_append] at hwaiting
  obtain ⟨fired, waiting, hsplit, hfired, hrest⟩ := List.map_eq_append_iff.mp hwaiting.symm
  have hdue : ∀ booking ∈ fired, booking.due = agenda.now := by
    intro booking hmem
    have htimer : booking.timer ∈ agenda.timers.takeWhile (·.1 ≤ agenda.now) :=
      (List.mem_filter.mp (hfired ▸ List.mem_map_of_mem hmem)).1
    have hfires := List.mem_takeWhile_imp htimer
    have hle : booking.due ≤ agenda.now := of_decide_eq_true hfires
    have hge := (h.due_waiting booking (hsplit ▸ List.mem_append_left waiting hmem)).1
    exact Nat.le_antisymm hle hge
  refine ⟨{ table with ripe := table.ripe ++ fired, waiting }, h.resolved, ?_, hrest.symm, ?_, ?_,
    h.sorted.sublist (List.dropWhile_sublist _), ?_, h.past, h.due_resolved, ?_, ?_, h.time_fresh⟩
  · have htasks : ((agenda.timers.takeWhile (·.1 ≤ agenda.now)).map (·.2)).filter Task.isDelivery =
        fired.map Booking.delivery := by
      rw [List.filter_map, Function.comp_def, ← hfired, List.map_map]
      rfl
    rw [Agenda.fire, List.filter_append, htasks, h.ripe, List.map_append]
  · have htasks : ((agenda.timers.takeWhile (·.1 ≤ agenda.now)).map (·.2)).filter Task.isStart =
        [] := by
      refine List.filter_eq_nil_iff.mpr fun task hmem => ?_
      obtain ⟨timer, htimer, rfl⟩ := List.mem_map.mp hmem
      rw [h.once timer (List.takeWhile_subset _ htimer)]
      exact Bool.false_ne_true
    rw [Agenda.fire, List.filter_append, htasks, h.fresh, List.append_nil]
  · exact fun timer hmem => h.once timer (List.dropWhile_subset _ hmem)
  · have horder := h.order
    simp only [all, hsplit, List.append_assoc] at horder ⊢
    exact horder
  · intro booking hmem
    exact (List.mem_append.mp hmem).elim (h.due_ripe booking) (hdue booking)
  · exact fun booking hmem => h.due_waiting booking (hsplit ▸ List.mem_append_right fired hmem)

/-- The clock may move on when no task is ready, but not past the time of a message. -/
theorem Describes.pass (h : table.Describes [] agenda bookings resolutions)
    (hready : agenda.ready = []) {millis : Nat}
    (htimers : ∀ timer ∈ agenda.timers, timer.2.isDelivery = true → agenda.now + millis ≤ timer.1) :
    table.Describes [] (agenda.pass millis) bookings resolutions := by
  have hripe : table.ripe = [] := by
    have hnone := h.ripe
    rw [hready] at hnone
    exact List.map_eq_nil_iff.mp hnone.symm
  have hfresh : table.fresh = [] := by
    have hnone := h.fresh
    rw [hready] at hnone
    exact List.map_eq_nil_iff.mp hnone.symm
  have hlater : ∀ {time : Nat}, time ≤ agenda.now → time ≤ agenda.now + millis :=
    fun hle => Nat.le_add_right_of_le hle
  refine ⟨h.resolved, h.ripe, h.waiting, h.fresh, h.once, h.sorted, h.order, ?_, ?_, ?_, ?_, ?_⟩
  · exact fun booking hmem => hlater (h.past booking hmem)
  · exact fun booking hmem => hlater (h.due_resolved booking hmem)
  · rw [hripe]
    exact fun _ hmem => absurd hmem List.not_mem_nil
  · intro booking hmem
    exact ⟨htimers _ (h.timer_mem hmem) rfl, (h.due_waiting booking hmem).2⟩
  · rw [hfresh]
    exact fun _ hmem => absurd hmem List.not_mem_nil

/-- What becomes of a message in hand is written down. -/
theorem Describes.resolve {parcel : Parcel}
    (h : table.Describes [parcel] agenda bookings resolutions) :
    table.Describes [] agenda bookings (resolutions ++ [(agenda.now, parcel)]) where
  __ := h
  resolved := (List.append_nil _).trans h.resolved

end Timetable

end Epidemic
