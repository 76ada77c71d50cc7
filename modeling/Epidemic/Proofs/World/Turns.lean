import Mathlib.Logic.Relation
import Epidemic.Proofs.World.Passage

/-!
# What turns are made of

While a task has its turn the clock stands still. Members are put into new states, sends are handed
over, deliveries are counted and entries are written into the journal: nothing else happens to the
world, apart from the timer that the task may set in the end. So a relation that each of these
things respects, and that may be chained, holds between the world before a turn and after it.
-/

namespace Epidemic.World

variable {σ : Type} {k : Nat} [Random.Source σ]

/-- One of the things that a turn is made of. -/
inductive Touch (world : World σ k) : World σ k → Prop where
  /-- A member and its protocol are put into other states. -/
  | member (index : Nat) (member : Member k) (protocol : Protocol σ) :
    Touch world (world.replace index member protocol)
  /-- A send is handed over. -/
  | send (envelope : Envelope) : Touch world (world.send envelope)
  /-- A delivery is counted. -/
  | delivered : Touch world (world.withNetwork world.network.countDelivered)
  /-- A message without an endpoint is counted. -/
  | undeliverable : Touch world (world.withNetwork world.network.countUndeliverable)
  /-- Something else than a send is written down. -/
  | event (event : Event) (hevent : event.posted? = none) : Touch world (world.record event)

/-- Several of these things, one after the other. -/
def Touches : World σ k → World σ k → Prop := Relation.ReflTransGen Touch

variable {world middle after : World σ k}

/-- A touch is one of several. -/
theorem Touch.touches (h : world.Touch after) : world.Touches after := .single h

/-- Several sends are handed over. -/
theorem touches_sendAll (world : World σ k) (envelopes : List Envelope) :
    world.Touches (world.sendAll envelopes) := by
  induction envelopes generalizing world with
  | nil => exact .refl
  | cons envelope rest ih => exact (Touch.send envelope).touches.trans (ih (world.send envelope))

/-- Something is done to a node. -/
theorem touches_acted (world : World σ k) (index : Nat) (deed : Deed) :
    world.Touches (world.acted index deed) := by
  cases hat : world.members[index]? with
  | none =>
    rw [acted_of_none hat]
    exact .refl
  | some member =>
    rw [acted_of_some hat]
    exact (Touch.member _ _ _).touches.trans (touches_sendAll _ _)

/-- A message is delivered. -/
theorem touches_deliver (world : World σ k) (parcel : Parcel) :
    world.Touches (world.deliver parcel) := by
  rcases world.deliver_cases parcel with
    ⟨-, hdeliver⟩ | ⟨_, _, -, -, hdeliver⟩ | ⟨index, _, -, -, hdeliver⟩
  · rw [hdeliver]
    exact Touch.undeliverable.touches.trans (Touch.event _ rfl).touches
  · rw [hdeliver]
    exact Touch.delivered.touches.trans (Touch.event _ rfl).touches
  · have hacted := touches_acted (world.withNetwork world.network.countDelivered) index
      (.receive parcel.envelope.message parcel.envelope.sender)
    rw [hdeliver]
    exact (Touch.delivered.touches.trans hacted).trans (Touch.event _ rfl).touches

/-- Several nodes have a rumor round. -/
theorem touches_roundOf (world : World σ k) (indexes : List Nat) :
    world.Touches (world.roundOf indexes) := by
  induction indexes generalizing world with
  | nil => exact .refl
  | cons index rest ih =>
    rcases world.roundOf_cons index rest with ⟨-, heq⟩ | ⟨_, -, heq⟩
    · rw [heq]
      exact ih world
    · have hround := world.touches_acted index .gossipRound
      rw [heq]
      exact (hround.trans (Touch.event _ rfl).touches).trans (ih _)

/-- So in the turn of a task several of these things are done, once the task has left the queue, and
the agenda may be another one in the end. -/
theorem touches_takeTurn (world : World σ k) (position : Nat) :
    ∃ ready middle agenda, (world.withReady ready).Touches middle ∧
      world.takeTurn position = { middle with agenda } := by
  rw [takeTurn]
  split
  · exact ⟨world.agenda.ready, world, world.agenda, .refl, rfl⟩
  · rename_i task _
    refine ⟨world.agenda.ready.eraseIdx position, ?_⟩
    generalize world.withReady (world.agenda.ready.eraseIdx position) = begun
    cases task with
    | parcel delay parcel =>
      cases delay with
      | zero => exact ⟨_, _, begun.touches_deliver parcel, rfl⟩
      | succ delay => exact ⟨begun, _, .refl, rfl⟩
    | rounds interval =>
      rw [perform, roundOfAll]
      split
      · exact ⟨begun, begun.agenda, .refl, rfl⟩
      · exact ⟨_, _, begun.touches_roundOf _, rfl⟩

end Epidemic.World
