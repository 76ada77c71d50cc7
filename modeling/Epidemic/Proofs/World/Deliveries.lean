import Epidemic.Proofs.World.Conservation
import Epidemic.Proofs.World.Journal
import Epidemic.Proofs.World.Orderly

/-!
# The times of deliveries

In an orderly run a send that was given a delay is resolved in the millisecond in which it is due, and
only once, whatever delays are set meanwhile. Sends with the same delay are resolved in the order in
which they were handed over, so a network whose delays all are the same is a queue.
-/

namespace Epidemic

/-- An event that tells when a message was resolved tells the outcome of its send. -/
theorem Event.outcome?_of_resolution? {event : Event} {time : Nat} {parcel : Parcel}
    (h : event.resolution? = some (time, parcel)) :
    ∃ outcome, event.outcome? = some (parcel.serial, outcome) := by
  cases event with
  | arrived _ _ _ =>
    cases h
    exact ⟨.delivered, rfl⟩
  | unclaimed _ _ =>
    cases h
    exact ⟨.undeliverable, rfl⟩
  | posted _ _ _ | round _ _ => cases h

/-- A network that was given a configuration has it. -/
theorem Network.config_of_new {σ : Type} {config : NetworkConfig} {generator : σ} {hasClock : Bool}
    {network : Network σ} (h : Network.new config generator hasClock = .ok network) :
    network.config = config := by
  rw [Network.eq_of_new h]

namespace World

variable {σ : Type} {k : Nat} {world : World σ k}

/-- When the send with a number was resolved, and its message. -/
def resolutionsOf (world : World σ k) (serial : Nat) : List (Nat × Parcel) :=
  world.resolutions.filter fun resolution => resolution.2.serial = serial

/-- A send that was resolved has an outcome. -/
theorem mem_outcomes_of_mem_resolutions {resolution : Nat × Parcel}
    (h : resolution ∈ world.resolutions) :
    resolution.2.serial ∈ world.outcomes.map (·.1) := by
  obtain ⟨event, hevent, hresolution⟩ := List.mem_filterMap.mp h
  obtain ⟨outcome, houtcome⟩ := Event.outcome?_of_resolution? hresolution
  exact List.mem_map_of_mem (f := Prod.fst)
    (List.mem_filterMap.mpr ⟨event, List.mem_reverse.mp hevent, houtcome⟩)

/-- If the books are kept, no send is resolved twice. -/
theorem Accounts.nodup_resolutions (h : Accounts [] world) :
    (world.resolutions.map (·.2.serial)).Nodup := by
  have houtcomes : (world.outcomes.map (·.1)).Nodup := by
    have hserials := h.serials.nodup_iff.mpr List.nodup_range
    exact hserials.of_append_left
  have hsublist : ∀ events : List Event,
      ((events.filterMap Event.resolution?).map (·.2.serial)).Sublist
        ((events.filterMap Event.outcome?).map (·.1)) := by
    intro events
    induction events with
    | nil => exact List.Sublist.slnil
    | cons event rest ih =>
      cases hresolution : event.resolution? with
      | none =>
        rw [List.filterMap_cons_none hresolution, List.filterMap_cons]
        split
        · exact ih
        · exact ih.cons _
      | some resolution =>
        obtain ⟨outcome, houtcome⟩ := Event.outcome?_of_resolution? hresolution
        rw [List.filterMap_cons_some hresolution, List.filterMap_cons_some houtcome]
        exact ih.cons_cons _
  have hreversed := hsublist world.journal.reverse
  rw [List.filterMap_reverse (f := Event.outcome?), List.map_reverse] at hreversed
  exact (List.nodup_reverse.mpr houtcomes).sublist hreversed

/-- If the books are kept, a resolution is the only one of its send. -/
theorem Accounts.resolutionsOf_eq (h : Accounts [] world) {resolution : Nat × Parcel}
    (hmem : resolution ∈ world.resolutions) :
    world.resolutionsOf resolution.2.serial = [resolution] := by
  have hnodup := h.nodup_resolutions
  unfold resolutionsOf
  generalize world.resolutions = resolutions at hmem hnodup
  induction resolutions with
  | nil => cases hmem
  | cons first rest ih =>
    rw [List.map_cons, List.nodup_cons] at hnodup
    rcases List.mem_cons.mp hmem with rfl | hrest
    · have hnone : rest.filter (fun other => other.2.serial = resolution.2.serial) = [] := by
        refine List.filter_eq_nil_iff.mpr fun other hother heq => hnodup.1 ?_
        rw [← of_decide_eq_true heq]
        exact List.mem_map_of_mem hother
      rw [List.filter_cons, if_pos (decide_eq_true rfl), hnone]
    · have hother : first.2.serial ≠ resolution.2.serial := fun heq =>
        hnodup.1 (heq ▸ List.mem_map_of_mem (f := fun other => other.2.serial) hrest)
      rw [List.filter_cons_of_neg (by rw [decide_eq_true_eq]; exact hother)]
      exact ih hrest hnodup.2

/-- If the books are kept, a message in transit has not been resolved. -/
theorem Accounts.not_mem_resolutions (h : Accounts [] world) {parcel : Parcel}
    (hpending : parcel ∈ world.pending) {resolution : Nat × Parcel}
    (hserial : resolution.2.serial = parcel.serial) : resolution ∉ world.resolutions := by
  intro hmem
  have hserials := h.serials.nodup_iff.mpr List.nodup_range
  have houtcome := mem_outcomes_of_mem_resolutions hmem
  rw [hserial] at houtcome
  exact List.disjoint_of_nodup_append hserials houtcome (List.mem_map_of_mem hpending)

/-- If the books are kept, a message in transit has not been resolved at any time. -/
theorem Accounts.resolutionsOf_eq_nil (h : Accounts [] world) {parcel : Parcel}
    (hpending : parcel ∈ world.pending) : world.resolutionsOf parcel.serial = [] :=
  List.filter_eq_nil_iff.mpr fun _ hmem heq =>
    h.not_mem_resolutions hpending (of_decide_eq_true heq) hmem

end World

namespace Timetable

variable {σ : Type} {k : Nat} {world : World σ k} {table : Timetable}

/-- All messages that are not resolved are in transit. -/
theorem Describes.mem_pending
    (h : table.Describes [] world.agenda world.bookings world.resolutions) {booking : Booking}
    (hmem : booking ∈ table.ripe ++ table.waiting ++ table.fresh) :
    booking.parcel ∈ world.pending := by
  have htask : ∃ task ∈ world.agenda.tasks, task.parcel? = some booking.parcel := by
    rcases List.mem_append.mp hmem with hmem | hfresh
    · rcases List.mem_append.mp hmem with hripe | hwaiting
      · exact ⟨booking.delivery, List.mem_append_left _ (h.delivery_mem hripe), rfl⟩
      · exact ⟨booking.delivery,
          List.mem_append_right _ (List.mem_map_of_mem (h.timer_mem hwaiting)), rfl⟩
    · exact ⟨booking.start, List.mem_append_left _ (h.start_mem hfresh).1, rfl⟩
  exact List.mem_filterMap.mpr htask

/-- Messages that are not resolved are not overdue, and not due if there is nothing left to do. -/
theorem Describes.le_due (h : table.Describes [] world.agenda world.bookings world.resolutions)
    {booking : Booking} (hmem : booking ∈ table.ripe ++ table.waiting ++ table.fresh) :
    world.agenda.now ≤ booking.due ∧ (world.IsThrough → world.agenda.now < booking.due) := by
  rcases List.mem_append.mp hmem with hmem | hfresh
  · rcases List.mem_append.mp hmem with hripe | hwaiting
    · refine ⟨Nat.le_of_eq (h.due_ripe booking hripe).symm, fun hthrough => ?_⟩
      have htask := h.delivery_mem hripe
      rw [hthrough.ready] at htask
      cases htask
    · refine ⟨(h.due_waiting booking hwaiting).1, fun hthrough => ?_⟩
      exact (hthrough.awaits _ (h.timer_mem hwaiting)).resolve_left Bool.false_ne_true
  · have hdue : world.agenda.now < booking.due := by
      rw [Booking.due, h.time_fresh booking hfresh]
      exact Nat.lt_add_of_pos_right (h.start_mem hfresh).2
    exact ⟨Nat.le_of_lt hdue, fun _ => hdue⟩

end Timetable

namespace World

variable {σ : Type} {k : Nat} {world : World σ k}

/-- In a world on time every booking was resolved when it was due, or its message is in transit and
not overdue. -/
theorem OnTime.resolved_or_pending (h : world.OnTime []) {booking : Booking}
    (hmem : booking ∈ world.bookings) :
    booking.resolution ∈ world.resolutions ∧ booking.due ≤ world.agenda.now ∨
      booking.parcel ∈ world.pending ∧ world.agenda.now ≤ booking.due ∧
        (world.IsThrough → world.agenda.now < booking.due) := by
  obtain ⟨table, h⟩ := h
  have hall : booking ∈ table.resolved ++ (table.ripe ++ table.waiting ++ table.fresh) := by
    have hbooked := h.order.mem_iff.mpr hmem
    rwa [Timetable.all, List.append_assoc, List.append_assoc, ← List.append_assoc table.ripe]
      at hbooked
  rcases List.mem_append.mp hall with hresolved | hpending
  · refine Or.inl ⟨?_, h.due_resolved booking hresolved⟩
    rw [h.resolutions_eq]
    exact List.mem_map_of_mem hresolved
  · exact Or.inr ⟨h.mem_pending hpending, h.le_due hpending⟩

/-- Of two bookings with the same delay the later one is resolved after the earlier one. -/
theorem OnTime.sublist_resolutions (h : world.OnTime []) (haccounts : Accounts [] world)
    (earlier later : Booking) (hdelay : earlier.delay = later.delay)
    (hbooked : [earlier, later].Sublist world.bookings)
    (hresolved : later.resolution ∈ world.resolutions) :
    [earlier.resolution, later.resolution].Sublist world.resolutions := by
  obtain ⟨table, h⟩ := h
  have hall : [earlier, later].Sublist
      (table.resolved ++ (table.ripe ++ table.waiting ++ table.fresh)) := by
    have hsame := hbooked.filter fun booking => booking.delay = later.delay
    rw [← h.order later.delay] at hsame
    simp only [List.filter_cons, List.filter_nil, hdelay, decide_true, if_true, Timetable.all,
      List.append_assoc] at hsame
    simp only [List.append_assoc]
    exact hsame.trans List.filter_sublist
  obtain ⟨before, behind, hsplit, hbefore, hbehind⟩ := List.sublist_append_iff.mp hall
  have hnil : behind = [] := by
    by_contra hne
    have hlast : (before ++ behind).getLast? = some later := hsplit ▸ rfl
    rw [List.getLast?_append_of_ne_nil _ hne] at hlast
    have hpending := h.mem_pending (hbehind.subset (List.mem_of_getLast? hlast))
    exact haccounts.not_mem_resolutions hpending rfl hresolved
  rw [hnil, List.append_nil] at hsplit
  rw [h.resolutions_eq]
  exact (hsplit ▸ hbefore).map Booking.resolution

/-- If all bookings have the same delay they are resolved in their order. -/
theorem OnTime.prefix_resolutions (h : world.OnTime []) {delay : Nat}
    (hdelay : ∀ booking ∈ world.bookings, booking.delay = delay) :
    world.resolutions <+: world.bookings.map Booking.resolution := by
  obtain ⟨table, h⟩ := h
  have hall : table.all = world.bookings := by
    have hsame := h.order delay
    rwa [List.filter_eq_self.mpr, List.filter_eq_self.mpr] at hsame
    · exact fun booking hmem => decide_eq_true (hdelay booking hmem)
    · exact fun booking hmem => decide_eq_true (hdelay booking (h.order.mem_iff.mp hmem))
  rw [h.resolutions_eq, ← hall, Timetable.all, List.append_assoc, List.append_assoc, List.map_append]
  exact List.prefix_append _ _

/-- A send that is written down with a delay is booked. -/
theorem mem_bookings {time : Nat} {parcel : Parcel} {delay : Duration}
    (h : .posted time parcel (.scheduled delay) ∈ world.journal) :
    ⟨time, delay.millisCeil, parcel⟩ ∈ world.bookings :=
  List.mem_filterMap.mpr ⟨_, List.mem_reverse.mpr h, rfl⟩

/-- If the books are kept, a world on time has resolved the send of a booking once, when it was due,
or not at all. -/
theorem OnTime.resolutionsOf_cases (h : world.OnTime []) (haccounts : Accounts [] world)
    {booking : Booking} (hmem : booking ∈ world.bookings) :
    world.resolutionsOf booking.parcel.serial = [booking.resolution] ∧
        booking.due ≤ world.agenda.now ∨
      world.resolutionsOf booking.parcel.serial = [] ∧ world.agenda.now ≤ booking.due ∧
        (world.IsThrough → world.agenda.now < booking.due) := by
  rcases h.resolved_or_pending hmem with ⟨hresolved, hdue⟩ | ⟨hpending, hdue⟩
  · exact Or.inl ⟨haccounts.resolutionsOf_eq hresolved, hdue⟩
  · exact Or.inr ⟨haccounts.resolutionsOf_eq_nil hpending, hdue⟩

variable [Random.Source σ]

/-- If time passes until a booking is due, its send is resolved. -/
theorem OnTime.resolutionsOf_advance (h : world.OnTime []) (haccounts : Accounts [] world)
    {time : Nat} {parcel : Parcel} {delay : Duration}
    (hposted : .posted time parcel (.scheduled delay) ∈ world.journal) {millis : Nat}
    (hdue : time + delay.millisCeil ≤ world.agenda.now + millis) :
    (world.catchUp.advance millis).resolutionsOf parcel.serial =
      [(time + delay.millisCeil, parcel)] := by
  obtain ⟨hcatchUp, hcaught⟩ := h.catchUp
  obtain ⟨hadvance, hthrough⟩ := (h.later hcatchUp).advance hcaught millis
  have hlater := hcatchUp.trans hadvance
  have hontime := h.later hlater
  obtain ⟨moves, -, -, hrun⟩ := hlater
  have hbooks : Accounts [] (world.catchUp.advance millis) := hrun ▸ haccounts.run moves
  have hjournal : world.journal <:+ (world.catchUp.advance millis).journal :=
    hrun ▸ world.journal_run moves
  have hbooked := mem_bookings (hjournal.subset hposted)
  rcases hontime.resolutionsOf_cases hbooks hbooked with ⟨hresolved, -⟩ | ⟨-, -, hlate⟩
  · exact hresolved
  · have hnotyet := hlate hthrough
    rw [now_advance, now_catchUp] at hnotyet
    exact absurd hdue (Nat.not_le_of_lt hnotyet)

/-- In a run without jitter that leaves the delays alone all bookings have the delay of the
latency. -/
theorem delay_eq_of_run {moves : List (Move k)} (hjournal : world.journal = [])
    (hjitter : world.network.config.jitter.micros = 0)
    (hmoves : ∀ move ∈ moves, move.setsDelay = false) {booking : Booking}
    (hmem : booking ∈ (world.run moves).bookings) :
    booking.delay = world.network.config.latency.millisCeil := by
  obtain ⟨event, hevent, hbooking⟩ := List.mem_filterMap.mp hmem
  cases event with
  | posted time parcel fate =>
    cases fate with
    | scheduled delay =>
      cases hbooking
      rcases (world.logs_run hmoves).rolls _ (List.mem_reverse.mp hevent) delay rfl with
        hold | hrolls
      · rw [hjournal] at hold
        cases hold
      · rw [hrolls.eq_latency hjitter]
    | dropped | unscheduled => cases hbooking
  | arrived _ _ _ | unclaimed _ _ | round _ _ => cases hbooking

/-- In every orderly run on a network that was given a configuration, a send that is given a delay is
resolved once, in the millisecond in which it is due and not before, and it is resolved as soon as
this millisecond has passed, whatever delays are set meanwhile. Of two sends with the same delay the
one that was handed over first is resolved first. If there is no jitter and no delay is ever set, the
sends that were resolved are the first ones of those that were given a delay, in the same order. -/
theorem sends_resolved_when_due (config : NetworkConfig) (generator : σ) (hasClock : Bool)
    {network : Network σ} (hnew : Network.new config generator hasClock = .ok network)
    (protocols : Vector (Protocol σ) k) (wall : Nat) (moves : List (Move k)) {world : World σ k}
    (hworld : world = (World.new network protocols wall).run moves)
    (horderly : (World.new network protocols wall).isOrderly moves = true) :
    (∀ time parcel delay due, .posted time parcel (.scheduled delay) ∈ world.journal →
      due = time + delay.millisCeil →
        (world.resolutionsOf parcel.serial = [] ∨
          world.resolutionsOf parcel.serial = [(due, parcel)]) ∧
        (world.agenda.now < due → world.resolutionsOf parcel.serial = []) ∧
        (due < world.agenda.now → world.resolutionsOf parcel.serial = [(due, parcel)]) ∧
        ∀ millis, due ≤ world.agenda.now + millis →
          (world.catchUp.advance millis).resolutionsOf parcel.serial = [(due, parcel)]) ∧
    (∀ time parcel time' parcel' delay,
      [.posted time parcel (.scheduled delay), .posted time' parcel' (.scheduled delay)].Sublist
        world.journal.reverse →
      (time' + delay.millisCeil, parcel') ∈ world.resolutions →
        [(time + delay.millisCeil, parcel), (time' + delay.millisCeil, parcel')].Sublist
          world.resolutions) ∧
    (config.jitter.micros = 0 → (∀ move ∈ moves, move.setsDelay = false) →
      world.resolutions <+: world.bookings.map Booking.resolution) := by
  have hontime : world.OnTime [] := by
    rw [hworld]
    exact (onTime_new network protocols wall).run horderly
  have haccounts : Accounts [] world := by
    rw [hworld]
    exact (accounts_new hnew protocols wall).run moves
  refine ⟨?_, ?_, fun hjitter hmoves => ?_⟩
  · rintro time parcel delay due hposted rfl
    have hcases := hontime.resolutionsOf_cases haccounts (mem_bookings hposted)
    refine ⟨hcases.symm.imp (·.1) (·.1), fun hearly => ?_, fun hlate => ?_, fun millis hdue =>
      hontime.resolutionsOf_advance haccounts hposted hdue⟩
    · rcases hcases with ⟨-, hdue⟩ | ⟨hnone, -⟩
      · exact absurd hdue (Nat.not_le_of_lt hearly)
      · exact hnone
    · rcases hcases with ⟨hresolved, -⟩ | ⟨-, hdue, -⟩
      · exact hresolved
      · exact absurd hdue (Nat.not_le_of_lt hlate)
  · intro time parcel time' parcel' delay hposted hresolved
    have hbooked := hposted.filterMap Event.booking?
    exact hontime.sublist_resolutions haccounts ⟨time, delay.millisCeil, parcel⟩
      ⟨time', delay.millisCeil, parcel'⟩ rfl hbooked hresolved
  · have hdelay : ∀ booking ∈ world.bookings,
        booking.delay = network.config.latency.millisCeil := by
      intro booking hmem
      rw [hworld] at hmem
      rw [← Network.config_of_new hnew] at hjitter
      exact delay_eq_of_run rfl hjitter hmoves hmem
    exact hontime.prefix_resolutions hdelay

/-- A letter to nobody. -/
def letter : Envelope := ⟨"a", "b", ⟨"m", "set", "a", [], 0⟩⟩

/-- A letter that takes three milliseconds is overtaken by two that take one. -/
def overtaken : List (Move 1) :=
  [.setLatency (.ofMillis 3), .send letter, .turn 0, .setLatency (.ofMillis 1), .send letter,
    .send letter, .turn 0, .turn 0, .pass 1, .fire, .turn 0, .turn 0]

/-- The two quick letters were resolved in their order; the slow one was not, but will be after two
milliseconds more. -/
theorem sends_resolved_when_due_overtaken :
    let world := (World.new slowNetwork #v[⟨1, none, ⟨[]⟩⟩] 0).run overtaken
    world.resolutionsOf 0 = [] ∧
      (world.catchUp.advance 2).resolutionsOf 0 = [(3, ⟨0, letter⟩)] ∧
        [(1, ⟨1, letter⟩), (1, ⟨2, letter⟩)].Sublist world.resolutions := by
  intro world
  obtain ⟨htimes, horder, -⟩ := sends_resolved_when_due slowNetwork.config slowNetwork.generator true
    rfl #v[⟨1, none, ⟨[]⟩⟩] 0 overtaken rfl (by decide +kernel)
  obtain ⟨-, hearly, -, hlate⟩ := htimes 0 ⟨0, letter⟩ (.ofMillis 3) 3
    (List.mem_of_getElem? (i := 4) rfl) (by decide +kernel)
  refine ⟨hearly (by decide +kernel), hlate 2 (by decide +kernel), ?_⟩
  exact horder 0 ⟨1, letter⟩ 0 ⟨2, letter⟩ (.ofMillis 1)
    (List.Sublist.cons _ (.cons_cons _ (.cons_cons _ (List.nil_sublist _))))
    (List.mem_of_getElem? (i := 1) rfl)

end World

end Epidemic
