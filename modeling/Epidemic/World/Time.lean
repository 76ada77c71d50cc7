import Epidemic.World.Settle

/-!
# The passing of time

Time passes millisecond by millisecond: in each of them the timers whose time has come fire, and the
world settles. Nothing happens in a millisecond that no timer is set for, so `advance` passes over
these at once; that it comes to the same is what `advance_zero` and `advance_succ` say.
-/

namespace Epidemic.World

variable {σ : Type} {k : Nat}

/-- The clock of the world moves on by some milliseconds; nothing else happens yet. -/
def pass (world : World σ k) (millis : Nat) : World σ k :=
  { world with agenda := world.agenda.pass millis }

/-- Time passes in parts as it passes at once. -/
theorem pass_pass (world : World σ k) (first second : Nat) :
    (world.pass first).pass second = world.pass (first + second) := by
  simp only [pass, Agenda.pass_pass]

variable [Random.Source σ]

/-- Fires the timers whose time has come, and settles. -/
def catchUp (world : World σ k) : World σ k :=
  settle { world with agenda := world.agenda.fire }

/-- Lets the given milliseconds pass. -/
def advance (world : World σ k) (millis : Nat) : World σ k :=
  match world.agenda.quiet? with
  | none => world.pass millis
  | some quiet =>
    if quiet < millis then
      (world.pass (quiet + 1)).catchUp.advance (millis - (quiet + 1))
    else world.pass millis
termination_by millis

/-- A world in which no timer fires and no task is ready has caught up. -/
theorem catchUp_of_fire_eq {world : World σ k} (hready : world.agenda.ready = [])
    (hfire : world.agenda.fire = world.agenda) : world.catchUp = world := by
  unfold catchUp
  rw [hfire]
  exact settle_of_ready_eq_nil hready

/-- Nothing happens in a millisecond before which no task waits. -/
theorem catchUp_pass_of_quiet_none {world : World σ k} (h : world.agenda.quiet? = none) :
    (world.pass 1).catchUp = world.pass 1 := by
  obtain ⟨hready, hfire, _⟩ := Agenda.pass_of_quiet_none h
  exact catchUp_of_fire_eq hready hfire

/-- Nothing happens in a quiet millisecond. -/
theorem catchUp_pass_of_quiet {world : World σ k} {quiet : Nat}
    (h : world.agenda.quiet? = some (quiet + 1)) : (world.pass 1).catchUp = world.pass 1 := by
  obtain ⟨hready, hfire, _⟩ := Agenda.pass_of_quiet h
  exact catchUp_of_fire_eq hready hfire

/-- When no time passes the world stays as it is. -/
theorem advance_zero (world : World σ k) : world.advance 0 = world := by
  rw [advance]
  split
  · rfl
  · rfl

/-- The first of the milliseconds that pass comes before the others. -/
theorem advance_succ (world : World σ k) (millis : Nat) :
    world.advance (millis + 1) = (world.pass 1).catchUp.advance millis := by
  match h : world.agenda.quiet? with
  | none =>
    rw [catchUp_pass_of_quiet_none h, advance, advance]
    have h' : (world.pass 1).agenda.quiet? = none := (Agenda.pass_of_quiet_none h).2.2
    simp only [h, h', pass_pass, Nat.add_comm]
  | some 0 =>
    rw [advance]
    simp only [h, Nat.zero_lt_succ, if_true, Nat.zero_add, Nat.add_sub_cancel]
  | some (quiet + 1) =>
    rw [catchUp_pass_of_quiet h, advance, advance]
    have h' : (world.pass 1).agenda.quiet? = some quiet := (Agenda.pass_of_quiet h).2.2
    simp only [h, h', pass_pass, Nat.succ_eq_add_one, Nat.add_lt_add_iff_right,
      Nat.add_sub_add_right, Nat.add_comm 1]

end Epidemic.World
