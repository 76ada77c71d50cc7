import Epidemic.Convergence.Report
import Epidemic.World.Time

/-!
# Waiting for agreement

A wait checks again and again whether some nodes agree on a key: at once, then whenever another
polling interval has passed, and at its deadline. The clock counts milliseconds, so a check falls on
the first millisecond that is not before its time. It sees the world before the tasks of its
millisecond have their turn. A timeout that the clock cannot count ends in thirty years.

Milliseconds in which nothing happens and which no check can end are passed over at once. That this
comes to the same as going through all of them is what `wait_zero` and `wait_succ` say.
-/

namespace Epidemic.Convergence

/-- How a wait proceeds. -/
structure Watch where
  /-- The indexes of the nodes that are to agree. -/
  indexes : List Nat
  /-- The key that they are to agree on. -/
  key : String
  /-- The time between two checks. -/
  poll : Duration

namespace Watch

/-- The time between two checks if no other is chosen. -/
def defaultPoll : Duration := .ofMillis 10

/-- The least time between two checks. -/
def leastPoll : Duration := .ofMillis 1

/-- A watch with a polling interval, which is raised to the least one. -/
def new (indexes : List Nat) (key : String) (poll : Duration) : Watch :=
  ⟨indexes, key, poll.max leastPoll⟩

/-- How many seconds the clock can count, `2 ^ 63`. -/
def clockSeconds : Nat := 0x8000000000000000

/-- Whether the clock counts as far as a timeout that begins at the given millisecond. -/
def isInReach (now : Nat) (timeout : Duration) : Bool :=
  1000000 * now + timeout.nanos < 1000000000 * clockSeconds

/-- The milliseconds of a wait that is longer than the clock can count: thirty years. -/
def farFuture : Nat := 86400 * 365 * 30 * 1000

/-- How many milliseconds a wait lasts at most that begins at the given one: those of its timeout, a
begun one being counted as a whole. A timeout that is out of reach lasts until the far future. -/
def deadline (now : Nat) (timeout : Duration) : Nat :=
  if isInReach now timeout then timeout.millisCeil else farFuture

/-- Whether a check falls on the millisecond at which the given time has passed since the start:
whether another interval has ended since the millisecond before. -/
def isDue (watch : Watch) (elapsed : Nat) : Bool :=
  1000000 * elapsed % watch.poll.nanos < 1000000

variable {σ : Type} {k : Nat}

/-- The watch over all nodes of a world, those included whose name another node has taken over. -/
def ofAll (world : World σ k) (key : String) (poll : Duration) : Watch :=
  .new (List.range world.members.length) key poll

/-- How far the watched nodes agree in a world. -/
def report (watch : Watch) (world : World σ k) : Report :=
  .ofNodes (watch.indexes.filterMap fun index => (world.members[index]?).map (·.node)) watch.key

/-- How many milliseconds after the given one pass before a check falls on one. -/
def untilDue (watch : Watch) (elapsed : Nat) : Nat :=
  (watch.poll.nanos - 1 - 1000000 * elapsed % watch.poll.nanos) / 1000000

/-- How many of the milliseconds left, counted from the one after the given one, neither let a task
have its turn nor end a wait: if the nodes do not agree no check before the next task can end it. -/
def idle (watch : Watch) (left elapsed : Nat) (world : World σ k) : Nat :=
  let quiet := min left (world.agenda.quiet?.getD left)
  if (watch.report world).isConverged then min quiet (watch.untilDue elapsed) else quiet

/-- Waits for at most the given number of milliseconds after those that have passed. The result is
whether the nodes agreed at a check, and the world as this check saw it: the tasks of its
millisecond are still to have their turn. -/
def wait [Random.Source σ] (watch : Watch) (left elapsed : Nat) (world : World σ k) :
    Bool × World σ k :=
  match left with
  | 0 => ((watch.report world).isConverged, world)
  | left + 1 =>
    if watch.isDue elapsed && (watch.report world).isConverged then (true, world)
    else
      let settled := world.catchUp
      let idle := watch.idle left elapsed settled
      watch.wait (left - idle) (elapsed + idle + 1) (settled.pass (idle + 1))
termination_by left

/-- Waits for agreement, at most for a timeout. -/
def waitFor [Random.Source σ] (watch : Watch) (timeout : Duration) (world : World σ k) :
    Bool × World σ k :=
  watch.wait (deadline world.agenda.now timeout) 0 world

/-- A timeout of whole milliseconds that is in reach lasts these. -/
theorem deadline_eq {now limit : Nat} {timeout : Duration} (hlimit : timeout.nanos = 1000000 * limit)
    (hreach : isInReach now timeout = true) : deadline now timeout = limit := by
  rw [deadline, if_pos hreach, Duration.millisCeil, hlimit]
  omega

example : deadline 0 (.ofMillis 250) = 250 ∧ deadline 0 .greatest = farFuture := by decide

/-! ## Millisecond by millisecond -/

/-- The time since the last of the instants `0`, `period`, … grows by a step that does not reach the
next one. -/
theorem add_mod_of_lt {elapsed step period : Nat} (h : elapsed % period + step < period) :
    (elapsed + step) % period = elapsed % period + step := by
  rw [Nat.add_mod, Nat.mod_eq_of_lt (Nat.lt_of_le_of_lt (Nat.le_add_left _ _) h),
    Nat.mod_eq_of_lt h]

/-- No check falls on a millisecond before which another one passes without a check. -/
theorem isDue_eq_false {watch : Watch} {elapsed left : Nat} (h : watch.untilDue elapsed = left + 1) :
    watch.isDue (elapsed + 1) = false ∧ watch.untilDue (elapsed + 1) = left := by
  have hmod := @add_mod_of_lt (1000000 * elapsed) 1000000 watch.poll.nanos
  unfold untilDue at h
  simp only [isDue, untilDue, Nat.mul_add_one, decide_eq_false_iff_not]
  rw [hmod (by omega)]
  omega

/-- The report does not depend on the clock. -/
theorem report_pass (watch : Watch) (world : World σ k) (millis : Nat) :
    watch.report (world.pass millis) = watch.report world := rfl

variable [Random.Source σ]

/-- A millisecond that is passed over is quiet, and so are those after it that can be passed over. -/
theorem quiet_of_idle {watch : Watch} {left elapsed count : Nat} {world : World σ k}
    (h : watch.idle (left + 1) elapsed world = count + 1) :
    (world.pass 1).catchUp = world.pass 1 ∧
      min left ((world.pass 1).agenda.quiet?.getD left) + 1 =
        min (left + 1) (world.agenda.quiet?.getD (left + 1)) := by
  match hquiet : world.agenda.quiet? with
  | none =>
    have hnext : (world.pass 1).agenda.quiet? = none := (Agenda.pass_of_quiet_none hquiet).2.2
    refine ⟨World.catchUp_pass_of_quiet_none hquiet, ?_⟩
    simp only [hnext, Option.getD_none, Nat.min_self]
  | some 0 =>
    simp only [idle, hquiet, Option.getD_some, Nat.min_zero, Nat.zero_min, ite_self] at h
    cases h
  | some (quiet + 1) =>
    have hnext : (world.pass 1).agenda.quiet? = some quiet := (Agenda.pass_of_quiet hquiet).2.2
    refine ⟨World.catchUp_pass_of_quiet hquiet, ?_⟩
    simp only [hnext, Option.getD_some, Nat.add_min_add_right]

/-- In a millisecond that is passed over nothing happens and no check ends the wait, and there is one
millisecond less to be passed over after it. -/
theorem idle_succ {watch : Watch} {left elapsed count : Nat} {world : World σ k}
    (h : watch.idle (left + 1) elapsed world = count + 1) :
    (world.pass 1).catchUp = world.pass 1 ∧
      (watch.isDue (elapsed + 1) && (watch.report world).isConverged) = false ∧
        watch.idle left (elapsed + 1) (world.pass 1) = count := by
  obtain ⟨hcaught, hquiet⟩ := quiet_of_idle h
  refine ⟨hcaught, ?_⟩
  unfold idle at h ⊢
  rw [report_pass]
  rw [← hquiet] at h
  by_cases hagree : (watch.report world).isConverged = true
  · rw [if_pos hagree] at h ⊢
    rw [hagree, Bool.and_true]
    cases hdue : watch.untilDue elapsed with
    | zero =>
      rw [hdue, Nat.min_zero] at h
      cases h
    | succ due =>
      obtain ⟨hnot, hless⟩ := isDue_eq_false hdue
      rw [hdue, Nat.add_min_add_right] at h
      rw [hless]
      exact ⟨hnot, Nat.add_right_cancel h⟩
  · rw [if_neg hagree] at h ⊢
    rw [Bool.not_eq_true] at hagree
    rw [hagree, Bool.and_false]
    exact ⟨rfl, Nat.add_right_cancel h⟩

/-- At the deadline there is one more check. -/
theorem wait_zero (watch : Watch) (elapsed : Nat) (world : World σ k) :
    watch.wait 0 elapsed world = ((watch.report world).isConverged, world) := by
  rw [wait]

/-- A wait that is not ended by a check in this millisecond goes on in the next one. -/
theorem wait_succ (watch : Watch) (left elapsed : Nat) (world : World σ k) :
    watch.wait (left + 1) elapsed world =
      if watch.isDue elapsed && (watch.report world).isConverged then (true, world)
      else watch.wait left (elapsed + 1) (world.catchUp.pass 1) := by
  rw [wait]
  split
  · rfl
  · dsimp only
    match hidle : watch.idle left elapsed world.catchUp with
    | 0 => rfl
    | count + 1 =>
      match left with
      | 0 =>
        simp only [idle, Nat.zero_min, ite_self] at hidle
        cases hidle
      | left + 1 =>
        obtain ⟨hcaught, hdue, hless⟩ := idle_succ hidle
        have hsum : elapsed + (count + 1) + 1 = elapsed + 1 + count + 1 := by omega
        have hboth : 1 + (count + 1) = count + 1 + 1 := by omega
        rw [wait, report_pass, hdue]
        simp only [Bool.false_eq_true, if_false, hcaught, hless, World.pass_pass, hsum, hboth,
          Nat.add_sub_add_right]

end Watch

end Epidemic.Convergence
