/-!
# Tasks on a clock

An agenda is a clock that counts milliseconds, a queue of tasks that are ready, and timers. Ready
tasks have their turn in the order in which they became ready. When the clock reaches the time of a
timer its task becomes ready; timers of one time fire in the order in which they were set.
-/

namespace Epidemic

/-- Tasks in the order in which they will have their turn. -/
structure Agenda (τ : Type) where
  /-- The clock, in milliseconds. -/
  now : Nat
  /-- The tasks that are ready, the next one first. -/
  ready : List τ
  /-- The waiting tasks with their times, the earliest first. -/
  timers : List (Nat × τ)

namespace Agenda

variable {τ : Type}

/-- No tasks at time zero. -/
def empty : Agenda τ := ⟨0, [], []⟩

/-- Makes a task ready, behind those that are ready. -/
def enqueue (agenda : Agenda τ) (task : τ) : Agenda τ :=
  { agenda with ready := agenda.ready ++ [task] }

/-- A list of timers with one more, behind those of the same time. -/
def insertTimer (due : Nat) (task : τ) : List (Nat × τ) → List (Nat × τ)
  | [] => [(due, task)]
  | timer :: rest =>
    if timer.1 ≤ due then timer :: insertTimer due task rest
    else (due, task) :: timer :: rest

/-- Sets a timer that makes a task ready after the given milliseconds. -/
def schedule (agenda : Agenda τ) (delay : Nat) (task : τ) : Agenda τ :=
  { agenda with timers := insertTimer (agenda.now + delay) task agenda.timers }

/-- Moves the clock on by some milliseconds. -/
def pass (agenda : Agenda τ) (millis : Nat) : Agenda τ := { agenda with now := agenda.now + millis }

/-- Fires the timers whose time has come. -/
def fire (agenda : Agenda τ) : Agenda τ :=
  { agenda with
    ready := agenda.ready ++ (agenda.timers.takeWhile (·.1 ≤ agenda.now)).map (·.2)
    timers := agenda.timers.dropWhile (·.1 ≤ agenda.now) }

/-- How many milliseconds will pass before the one in which some task has its turn; none if no task
waits at all. -/
def quiet? (agenda : Agenda τ) : Option Nat :=
  match agenda.ready, agenda.timers with
  | _ :: _, _ => some 0
  | [], [] => none
  | [], timer :: _ => some (timer.1 - (agenda.now + 1))

/-- Forgets the tasks of a kind. -/
def cancel (agenda : Agenda τ) (isMeant : τ → Bool) : Agenda τ :=
  { agenda with
    ready := agenda.ready.filter (fun task => !isMeant task)
    timers := agenda.timers.filter (fun timer => !isMeant timer.2) }

/-- Time passes in parts as it passes at once. -/
theorem pass_pass (agenda : Agenda τ) (first second : Nat) :
    (agenda.pass first).pass second = agenda.pass (first + second) := by
  simp only [pass, Nat.add_assoc]

/-- If no task waits, time passes without any effect. -/
theorem pass_of_quiet_none {agenda : Agenda τ} (h : agenda.quiet? = none) :
    agenda.ready = [] ∧ (agenda.pass 1).fire = agenda.pass 1 ∧ (agenda.pass 1).quiet? = none := by
  unfold quiet? at h
  split at h
  · cases h
  · rename_i hready htimers
    simp only [pass, fire, quiet?, hready, htimers, List.takeWhile_nil, List.dropWhile_nil,
      List.map_nil, List.append_nil, and_self]
  · cases h

/-- In a quiet millisecond no timer fires, and it leaves one quiet millisecond less. -/
theorem pass_of_quiet {agenda : Agenda τ} {quiet : Nat} (h : agenda.quiet? = some (quiet + 1)) :
    agenda.ready = [] ∧ (agenda.pass 1).fire = agenda.pass 1 ∧
      (agenda.pass 1).quiet? = some quiet := by
  unfold quiet? at h
  split at h
  · cases h
  · cases h
  · rename_i timer rest hready htimers
    have h := Option.some.inj h
    have hlate : ¬timer.1 ≤ agenda.now + 1 := by omega
    have hless : timer.1 - (agenda.now + 1 + 1) = quiet := by omega
    simp only [pass, fire, quiet?, hready, htimers, List.takeWhile_cons, List.dropWhile_cons,
      decide_eq_true_eq, hlate, if_false, List.map_nil, List.append_nil, hless, and_self]

end Agenda

end Epidemic
