import Epidemic.Proofs.Convergence.Agreement
import Epidemic.Proofs.World.Conservation
import Epidemic.Proofs.World.Punctual
import Mathlib.Data.Nat.Find

/-!
# How a wait ends

A wait for agreement looks at the world at the multiples of its polling interval that are before its
deadline, and at the deadline. At each of these instants it sees the world before the tasks of that
millisecond have their turn. It ends at the first of them at which the nodes agree, with success. If
there is none it ends at the deadline, without success.
-/

namespace Epidemic

namespace World

variable {σ : Type} {k : Nat} [Random.Source σ]

/-- A world has settled when no task is ready after some turns of the first ready task. -/
theorem settle_eq_run {world : World σ k} (turns : Nat)
    (h : (world.run (List.replicate turns (.turn 0))).agenda.ready.isEmpty = true) :
    world.settle = world.run (List.replicate turns (.turn 0)) := by
  induction turns generalizing world with
  | zero => exact settle_of_ready_eq_nil (List.isEmpty_iff.mp h)
  | succ turns ih =>
    rw [List.replicate_succ] at h ⊢
    cases hready : world.agenda.ready with
    | nil =>
      have hstays : world.step (.turn 0) = world := by
        simp only [step, takeTurn, hready, List.getElem?_nil]
      have hrest : world.run (List.replicate turns (.turn 0)) = world.settle := by
        refine (ih ?_).symm
        rw [← hstays]
        exact h
      rw [run, List.foldl_cons, hstays]
      exact hrest.symm
    | cons task rest =>
      have hfirst : world.settle = (world.step (.turn 0)).settle := by
        rw [settle_of_ready_eq_cons hready]
        exact congrArg settle (takeTurn_zero hready).symm
      rw [hfirst]
      exact ih h

/-- A world has caught up when no task is ready after some turns of the first ready task. -/
theorem catchUp_eq_run {world : World σ k} (turns : Nat)
    (h : (world.run (.fire :: List.replicate turns (.turn 0))).agenda.ready.isEmpty = true) :
    world.catchUp = world.run (.fire :: List.replicate turns (.turn 0)) :=
  settle_eq_run turns h

/-- The last of the milliseconds that pass comes after the others. -/
theorem advance_succ_last (world : World σ k) (millis : Nat) :
    world.advance (millis + 1) = ((world.advance millis).pass 1).catchUp := by
  induction millis generalizing world with
  | zero => rw [advance_succ, advance_zero, advance_zero]
  | succ millis ih => rw [advance_succ, ih, ← advance_succ]

/-- The world as it is some milliseconds later, before the tasks of that millisecond have their turn.
-/
def view (world : World σ k) : Nat → World σ k
  | 0 => world
  | millis + 1 => (world.catchUp.advance millis).pass 1

/-- The next millisecond begins when the tasks of this one have had their turn. -/
theorem view_succ (world : World σ k) (millis : Nat) :
    world.view (millis + 1) = (world.view millis).catchUp.pass 1 := by
  cases millis with
  | zero => rw [view, view, advance_zero]
  | succ millis => rw [view, view, advance_succ_last]

/-- The clock of a later world shows how much later it is. -/
theorem now_view (world : World σ k) (millis : Nat) :
    (world.view millis).agenda.now = world.agenda.now + millis := by
  cases millis with
  | zero => rfl
  | succ millis =>
    have hadvance := world.catchUp.now_advance millis
    rw [now_catchUp] at hadvance
    rw [view, pass, Agenda.pass, hadvance, Nat.add_assoc]

end World

namespace Convergence

/-- Whether a wait with a polling interval and a deadline, all in milliseconds, looks at the world
when some milliseconds have passed. -/
def IsCheck (period limit millis : Nat) : Prop :=
  millis = limit ∨ millis < limit ∧ period ∣ millis

namespace Watch

variable {σ : Type} {k : Nat}

/-- The nodes that are to agree. -/
def nodes (watch : Watch) (world : World σ k) : List Node :=
  watch.indexes.filterMap fun index => (world.members[index]?).map (·.node)

/-- A report on a world says that the watched nodes agree exactly if they do. -/
theorem isConverged_report_iff {watch : Watch} {world : World σ k} :
    (watch.report world).isConverged = true ↔ Agree watch.key (watch.nodes world) :=
  Report.isConverged_iff

/-- A check falls on the multiples of an interval of whole milliseconds. -/
theorem isDue_iff {watch : Watch} {period : Nat} (hpoll : watch.poll.nanos = 1000000 * period)
    {elapsed : Nat} : watch.isDue elapsed = true ↔ period ∣ elapsed := by
  have hscale : 1000000 * elapsed % (1000000 * period) = 1000000 * (elapsed % period) :=
    Nat.mul_mod_mul_left 1000000 elapsed period
  rw [isDue, decide_eq_true_eq, hpoll, hscale, Nat.dvd_iff_mod_eq_zero]
  omega

/-- An interval of at least a millisecond is the one between checks. -/
theorem poll_new {indexes : List Nat} {key : String} {poll : Duration}
    (hpoll : leastPoll.nanos ≤ poll.nanos) : (Watch.new indexes key poll).poll = poll :=
  if_neg (Nat.not_lt.mpr hpoll)

/-- Before the deadline a wait goes on, unless there is a check that sees agreement. -/
theorem goesOn {watch : Watch} {world : World σ k} {period limit elapsed : Nat}
    (hpoll : watch.poll.nanos = 1000000 * period) (hlt : elapsed < limit)
    (h : IsCheck period limit elapsed → ¬Agree watch.key (watch.nodes world)) :
    (watch.isDue elapsed && (watch.report world).isConverged) = false := by
  rw [Bool.and_eq_false_imp]
  intro hdue
  have hcheck : IsCheck period limit elapsed := Or.inr ⟨hlt, (isDue_iff hpoll).mp hdue⟩
  have hfails := h hcheck
  rwa [← isConverged_report_iff, Bool.not_eq_true] at hfails

variable [Random.Source σ]

/-- The result of a wait is what a report says about the world that it returns. -/
theorem isConverged_wait (watch : Watch) (left elapsed : Nat) (world : World σ k) :
    (watch.report (watch.wait left elapsed world).2).isConverged =
      (watch.wait left elapsed world).1 := by
  induction left generalizing elapsed world with
  | zero => rw [wait_zero]
  | succ left ih =>
    rw [wait_succ]
    split
    · rename_i hagree
      exact (Bool.and_eq_true_iff.mp hagree).2
    · exact ih _ _

/-- A wait that sees no agreement at any check fails at its deadline. -/
theorem wait_of_never {watch : Watch} {world : World σ k} {period limit : Nat}
    (hpoll : watch.poll.nanos = 1000000 * period) {left elapsed : Nat}
    (hsum : elapsed + left = limit)
    (hnever : ∀ millis, elapsed ≤ millis → IsCheck period limit millis →
      ¬Agree watch.key (watch.nodes (world.view millis))) :
    watch.wait left elapsed (world.view elapsed) = (false, world.view limit) := by
  induction left generalizing elapsed with
  | zero =>
    have hlimit : elapsed = limit := by omega
    have hfails := hnever elapsed (Nat.le_refl _) (Or.inl hlimit)
    rw [← isConverged_report_iff, Bool.not_eq_true] at hfails
    rw [wait_zero, hfails, hlimit]
  | succ left ih =>
    have hlt : elapsed < limit := by omega
    have hon := goesOn hpoll hlt (hnever elapsed (Nat.le_refl _))
    rw [wait_succ, hon, if_neg Bool.false_ne_true, ← World.view_succ]
    exact ih (by omega) fun millis hle => hnever millis (by omega)

/-- A wait ends with success at the first check that sees agreement. -/
theorem wait_of_first {watch : Watch} {world : World σ k} {period limit : Nat}
    (hpoll : watch.poll.nanos = 1000000 * period) {left elapsed : Nat}
    (hsum : elapsed + left = limit) {first : Nat} (hle : elapsed ≤ first)
    (hcheck : IsCheck period limit first)
    (hagree : Agree watch.key (watch.nodes (world.view first)))
    (hearlier : ∀ millis, elapsed ≤ millis → millis < first → IsCheck period limit millis →
      ¬Agree watch.key (watch.nodes (world.view millis))) :
    watch.wait left elapsed (world.view elapsed) = (true, world.view first) := by
  have hbound : first ≤ limit := hcheck.elim Nat.le_of_eq fun h => Nat.le_of_lt h.1
  induction left generalizing elapsed with
  | zero =>
    have hfirst : first = elapsed := by omega
    rw [hfirst] at hagree
    rw [wait_zero, isConverged_report_iff.mpr hagree, hfirst]
  | succ left ih =>
    have hlt : elapsed < limit := by omega
    rcases Nat.eq_or_lt_of_le hle with rfl | hlater
    · have hdue : watch.isDue elapsed = true := by
        rcases hcheck with hlimit | ⟨-, hdvd⟩
        · omega
        · exact (isDue_iff hpoll).mpr hdvd
      rw [wait_succ, hdue, isConverged_report_iff.mpr hagree]
      rfl
    · have hon := goesOn hpoll hlt (hearlier elapsed (Nat.le_refl _) hlater)
      rw [wait_succ, hon, if_neg Bool.false_ne_true, ← World.view_succ]
      exact ih (by omega) hlater fun millis hmillis => hearlier millis (by omega)

/-- Either no check sees agreement, or there is a first one that does. -/
theorem exists_first_or_never (watch : Watch) (world : World σ k) (period limit : Nat) :
    (∀ millis, IsCheck period limit millis →
      ¬Agree watch.key (watch.nodes (world.view millis))) ∨
    ∃ first, IsCheck period limit first ∧ Agree watch.key (watch.nodes (world.view first)) ∧
      ∀ millis < first, IsCheck period limit millis →
        ¬Agree watch.key (watch.nodes (world.view millis)) := by
  classical
  by_cases hsome : ∃ millis, IsCheck period limit millis ∧
      Agree watch.key (watch.nodes (world.view millis))
  · obtain ⟨hcheck, hagree⟩ := Nat.find_spec hsome
    refine Or.inr ⟨Nat.find hsome, hcheck, hagree, fun millis hlt hearlier hbefore => ?_⟩
    exact Nat.find_min hsome hlt ⟨hearlier, hbefore⟩
  · exact Or.inl fun millis hcheck hagree => hsome ⟨millis, hcheck, hagree⟩

/-- Whatever the state of a world, and whatever happens in it meanwhile, a wait with a polling
interval of whole milliseconds ends: with success at the first check at which there are nodes and all
of them hold equal values for the key, and without success at its deadline if there is no such check.
A check falls on the multiples of the interval before the deadline, and on the deadline. It sees the
world before the tasks of its millisecond have their turn, and this is the world that the wait
returns, so that the result is what a report says at the moment of return. A timeout of whole
milliseconds that the clock can count makes the deadline. -/
theorem wait_ends_at_first_agreement (world : World σ k) (indexes : List Nat) (key : String)
    {poll : Duration} {period : Nat} (hperiod : 1 ≤ period)
    (hpoll : poll.nanos = 1000000 * period) (limit : Nat) :
    let watch := Watch.new indexes key poll
    let agrees := fun millis => Agree key (watch.nodes (world.view millis))
    let outcome := watch.wait limit 0 world
    (∀ first, IsCheck period limit first → agrees first →
      (∀ millis < first, IsCheck period limit millis → ¬agrees millis) →
      outcome = (true, world.view first)) ∧
    ((∀ millis, IsCheck period limit millis → ¬agrees millis) →
      outcome = (false, world.view limit)) ∧
    (outcome.1 = true ↔ ∃ millis, IsCheck period limit millis ∧ agrees millis) ∧
    (watch.report outcome.2).isConverged = outcome.1 ∧
    (∃ millis ≤ limit, outcome.2 = world.view millis) ∧
    (∀ millis, (world.view millis).agenda.now = world.agenda.now + millis) ∧
    ∀ timeout : Duration, timeout.nanos = 1000000 * limit →
      isInReach world.agenda.now timeout = true → watch.waitFor timeout world = outcome := by
  intro watch agrees outcome
  have hleast : leastPoll.nanos ≤ poll.nanos := by
    rw [hpoll]
    exact Nat.le_mul_of_pos_right 1000000 hperiod
  have hinterval : watch.poll.nanos = 1000000 * period := by
    rw [← hpoll]
    exact congrArg Duration.nanos (poll_new hleast)
  have hfirst : ∀ first, IsCheck period limit first → agrees first →
      (∀ millis < first, IsCheck period limit millis → ¬agrees millis) →
      outcome = (true, world.view first) := fun first hcheck hagree hearlier =>
    wait_of_first hinterval (Nat.zero_add limit) (Nat.zero_le first) hcheck hagree
      fun millis _ => hearlier millis
  have hnever : (∀ millis, IsCheck period limit millis → ¬agrees millis) →
      outcome = (false, world.view limit) := fun hnone =>
    wait_of_never hinterval (Nat.zero_add limit) fun millis _ => hnone millis
  have hresult : (watch.report outcome.2).isConverged = outcome.1 :=
    watch.isConverged_wait limit 0 world
  have htimeout : ∀ timeout : Duration, timeout.nanos = 1000000 * limit →
      isInReach world.agenda.now timeout = true → watch.waitFor timeout world = outcome := by
    intro timeout hnanos hreach
    rw [waitFor, deadline_eq hnanos hreach]
  refine ⟨hfirst, hnever, ?_⟩
  rcases watch.exists_first_or_never world period limit with hnone | ⟨first, hcheck, hagree, hbefore⟩
  · have houtcome : outcome = (false, world.view limit) := hnever hnone
    refine ⟨?_, hresult, ⟨limit, Nat.le_refl _, by rw [houtcome]⟩, world.now_view, htimeout⟩
    rw [houtcome]
    exact iff_of_false Bool.false_ne_true fun ⟨millis, hcheck, hagree⟩ => hnone millis hcheck hagree
  · have houtcome : outcome = (true, world.view first) := hfirst first hcheck hagree hbefore
    have hbound : first ≤ limit := hcheck.elim Nat.le_of_eq fun h => Nat.le_of_lt h.1
    refine ⟨?_, hresult, ⟨first, hbound, by rw [houtcome]⟩, world.now_view, htimeout⟩
    rw [houtcome]
    exact iff_of_true rfl ⟨first, hcheck, hagree⟩

/-- Two nodes, the first of which has made a broadcast that has not reached the second one. -/
def told : World Random.Script 1 :=
  (World.new World.slowNetwork #v[⟨1, none, ⟨[]⟩⟩] 0).run
    [.join ((Node.new "a" 0).addPeers ["b"]) ⟨0, Nat.zero_lt_one⟩,
      .join (Node.new "b" 0) ⟨0, Nat.zero_lt_one⟩, .broadcast 0 "m" "set" [("key", .int 1)]]

/-- The broadcast arrives in the first millisecond. A wait that looks every two milliseconds sees this
at the second one, before its deadline at the third. -/
theorem wait_ends_at_first_agreement_told :
    1 ≤ 2 ∧ (Duration.ofMillis 2).nanos = 1000000 * 2 ∧
      (Watch.new [0, 1] "key" (.ofMillis 2)).wait 3 0 told = (true, told.view 2) ∧
      (Watch.new [0, 1] "key" (.ofMillis 2)).waitFor (.ofMillis 3) told = (true, told.view 2) := by
  have hperiod : 1 ≤ 2 := by decide
  have hpoll : (Duration.ofMillis 2).nanos = 1000000 * 2 := by decide
  obtain ⟨hfirst, -, -, -, -, -, htimeout⟩ :=
    wait_ends_at_first_agreement told [0, 1] "key" hperiod hpoll 3
  have houtcome : (Watch.new [0, 1] "key" (.ofMillis 2)).wait 3 0 told = (true, told.view 2) := by
    refine hfirst 2 (Or.inr (by decide)) ?_ fun millis hlt hcheck => ?_
    · have hcaught : told.catchUp = told.run [.fire, .turn 0] :=
        World.catchUp_eq_run 1 (by decide +kernel)
      have hfirst : told.view 1 = told.run [.fire, .turn 0, .pass 1] := by
        rw [World.view_succ, World.view, hcaught]
        exact (told.run_append [.fire, .turn 0] [.pass 1]).symm
      have hagain : (told.run [.fire, .turn 0, .pass 1]).catchUp =
          (told.run [.fire, .turn 0, .pass 1]).run [.fire, .turn 0] :=
        World.catchUp_eq_run 1 (by decide +kernel)
      have hview : told.view 2 = told.run [.fire, .turn 0, .pass 1, .fire, .turn 0, .pass 1] := by
        rw [World.view_succ, hfirst, hagain, ← World.run_append]
        exact (told.run_append [.fire, .turn 0, .pass 1, .fire, .turn 0] [.pass 1]).symm
      have hreport : ((Watch.new [0, 1] "key" (.ofMillis 2)).report
          (told.run [.fire, .turn 0, .pass 1, .fire, .turn 0, .pass 1])).isConverged = true := by
        decide +kernel
      rw [← hview] at hreport
      exact isConverged_report_iff.mp hreport
    · have hzero : millis = 0 := by
        rcases hcheck with rfl | ⟨-, hdvd⟩ <;> omega
      intro hagree
      rw [hzero] at hagree
      have hreport : ((Watch.new [0, 1] "key" (.ofMillis 2)).report told).isConverged = true :=
        isConverged_report_iff.mpr hagree
      exact absurd hreport (by decide +kernel)
  have htimed := htimeout (.ofMillis 3) (by decide) (by decide +kernel)
  exact ⟨hperiod, hpoll, houtcome, htimed.trans houtcome⟩

end Watch

end Convergence

end Epidemic
