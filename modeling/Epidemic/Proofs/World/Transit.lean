import Mathlib.Data.List.Perm.Basic
import Epidemic.Proofs.World.Move

/-!
# Messages in transit

The messages in transit are those that some task of the agenda still carries, be it ready or
waiting for its time. A send adds at most its own message, the turn of a task takes at most the
message of that task away, and nothing else that happens touches them. All this is up to the order
of the tasks, which is left open.
-/

namespace Epidemic

namespace Agenda

variable {τ : Type}

/-- All tasks of an agenda, those that are ready and those that wait. -/
def tasks (agenda : Agenda τ) : List τ := agenda.ready ++ agenda.timers.map (·.2)

/-- A ready task and the other ones are all that are ready. -/
theorem perm_ready_eraseIdx {agenda : Agenda τ} {position : Nat} {task : τ}
    (h : agenda.ready[position]? = some task) :
    agenda.ready.Perm (task :: agenda.ready.eraseIdx position) := by
  obtain ⟨hlt, hget⟩ := List.getElem?_eq_some_iff.mp h
  rw [← hget]
  exact (List.getElem_cons_eraseIdx_perm hlt).symm

/-- A ready task is one task more. -/
theorem perm_tasks_enqueue (agenda : Agenda τ) (task : τ) :
    (agenda.enqueue task).tasks.Perm (task :: agenda.tasks) := by
  have happend : (agenda.enqueue task).tasks = agenda.ready ++ task :: agenda.timers.map (·.2) :=
    List.append_assoc _ _ _
  rw [happend]
  exact List.perm_middle

/-- A timer is added to the timers that are set, wherever its place is. -/
theorem perm_insertTimer (due : Nat) (task : τ) (timers : List (Nat × τ)) :
    (insertTimer due task timers).Perm ((due, task) :: timers) := by
  induction timers with
  | nil => exact List.Perm.refl _
  | cons timer rest ih =>
    rw [insertTimer]
    split
    · exact (ih.cons timer).trans (List.Perm.swap _ _ _)
    · exact List.Perm.refl _

/-- A task with a timer is one task more. -/
theorem perm_tasks_schedule (agenda : Agenda τ) (delay : Nat) (task : τ) :
    (agenda.schedule delay task).tasks.Perm (task :: agenda.tasks) := by
  have htimers := (perm_insertTimer (agenda.now + delay) task agenda.timers).map (·.2)
  exact (htimers.append_left agenda.ready).trans List.perm_middle

/-- Firing timers keeps the tasks. -/
theorem tasks_fire (agenda : Agenda τ) : agenda.fire.tasks = agenda.tasks := by
  simp only [tasks, fire, List.append_assoc, ← List.map_append, List.takeWhile_append_dropWhile]

/-- Cancelling takes away the tasks that are meant. -/
theorem tasks_cancel (agenda : Agenda τ) (isMeant : τ → Bool) :
    (agenda.cancel isMeant).tasks = agenda.tasks.filter fun task => !isMeant task := by
  simp only [tasks, cancel, List.filter_append, List.filter_map, Function.comp_def]

end Agenda

namespace Task

/-- The message that a task carries, with its envelope and number. -/
def parcel? : Task → Option Parcel
  | .parcel _ content => some content
  | .rounds _ => none

/-- Rumor rounds carry no message. -/
theorem parcel?_eq_none {task : Task} (h : task.isRounds = true) : task.parcel? = none := by
  cases task with
  | parcel => cases h
  | rounds => rfl

end Task

namespace Fate

/-- The messages that a fate puts in transit: that of the send if it was scheduled. -/
def inTransit (fate : Fate) (parcel : Parcel) : List Parcel :=
  match fate with
  | .scheduled _ => [parcel]
  | _ => []

end Fate

namespace World

variable {σ : Type} {k : Nat}

/-- The messages in transit. -/
def pending (world : World σ k) : List Parcel := world.agenda.tasks.filterMap Task.parcel?

/-- Without its ready task at a position a world lacks the message of this task. -/
theorem perm_pending_withReady {world : World σ k} {position : Nat} {task : Task}
    (h : world.agenda.ready[position]? = some task) :
    world.pending.Perm
      (task.parcel?.toList ++
        (world.withReady (world.agenda.ready.eraseIdx position)).pending) := by
  have htasks : world.agenda.tasks.Perm
      (task :: (world.withReady (world.agenda.ready.eraseIdx position)).agenda.tasks) :=
    (Agenda.perm_ready_eraseIdx h).append_right _
  have hpending := htasks.filterMap Task.parcel?
  cases task with
  | parcel delay content => exact hpending
  | rounds interval => exact hpending

/-- A waiting message is in transit. -/
theorem perm_pending_schedule (world : World σ k) (delay : Nat) (task : Task) :
    ({ world with agenda := world.agenda.schedule delay task } : World σ k).pending.Perm
      (task.parcel?.toList ++ world.pending) := by
  have hpending := (Agenda.perm_tasks_schedule world.agenda delay task).filterMap Task.parcel?
  cases task with
  | parcel delay content => exact hpending
  | rounds interval => exact hpending

/-- Firing timers keeps the messages in transit. -/
theorem pending_fire (world : World σ k) :
    ({ world with agenda := world.agenda.fire } : World σ k).pending = world.pending := by
  simp only [pending, Agenda.tasks_fire]

/-- The end of the rumor rounds keeps the messages in transit. -/
theorem pending_stopRounds (world : World σ k) : world.stopRounds.pending = world.pending := by
  simp only [pending, stopRounds, Agenda.tasks_cancel, List.filterMap_filter]
  refine List.filterMap_congr fun task _ => ?_
  cases h : task.isRounds with
  | true => rw [Task.parcel?_eq_none h]; rfl
  | false => rfl

variable [Random.Source σ]

/-- A send changes the network and the journal, and puts its message in transit if it was
scheduled. -/
theorem send_eq (world : World σ k) (envelope : Envelope) :
    ∃ agenda, world.send envelope =
        { world with
          agenda
          network := world.network.dispatch.2
          journal := .posted world.agenda.now ⟨world.network.stats.sent, envelope⟩
            world.network.dispatch.1 :: world.journal } ∧
      (agenda.tasks.filterMap Task.parcel?).Perm
        (world.network.dispatch.1.inTransit ⟨world.network.stats.sent, envelope⟩ ++
          world.pending) := by
  unfold send
  dsimp only
  split
  · rename_i delay hfate
    rw [hfate]
    exact ⟨_, rfl, (Agenda.perm_tasks_enqueue _ _).filterMap Task.parcel?⟩
  · rename_i hfate
    refine ⟨_, rfl, ?_⟩
    match h : world.network.dispatch.1 with
    | .scheduled delay => exact absurd h (hfate delay)
    | .dropped => exact List.Perm.refl _
    | .unscheduled => exact List.Perm.refl _

/-- A node that there is acts, its place is taken by what it has become, and its sends are handed
over. -/
theorem act_of_getElem? {α : Type} {world : World σ k} {index : Nat} {member : Member k}
    (hat : world.members[index]? = some member) (operation : Node → Protocol σ → Turn (Protocol σ) α) :
    world.act index operation =
      some ((operation member.node (world.protocolOf member)).result,
        (world.replace index
          { member with node := (operation member.node (world.protocolOf member)).node }
          (operation member.node (world.protocolOf member)).protocol).sendAll
            (operation member.node (world.protocolOf member)).sends) := by
  rw [act, hat]
  rfl

/-- If a node could act, this is what has come of it. -/
theorem act_eq_some_iff {α : Type} {world after : World σ k} {index : Nat} {result : α}
    {operation : Node → Protocol σ → Turn (Protocol σ) α} :
    world.act index operation = some (result, after) ↔
      ∃ member, world.members[index]? = some member ∧
        (operation member.node (world.protocolOf member)).result = result ∧
        after = (world.replace index
          { member with node := (operation member.node (world.protocolOf member)).node }
          (operation member.node (world.protocolOf member)).protocol).sendAll
            (operation member.node (world.protocolOf member)).sends := by
  constructor
  · intro h
    cases hat : world.members[index]? with
    | none =>
      rw [act, hat] at h
      cases h
    | some member =>
      rw [act_of_getElem? hat] at h
      cases h
      exact ⟨member, rfl, rfl, rfl⟩
  · rintro ⟨member, hat, rfl, rfl⟩
    exact act_of_getElem? hat operation

end World

end Epidemic
