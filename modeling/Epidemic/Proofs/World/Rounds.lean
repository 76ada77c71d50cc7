import Epidemic.Proofs.World.Journal
import Epidemic.Proofs.World.Standing

/-!
# Rumor rounds in the journal

The journal tells when which node had a rumor round. What it tells is true and complete: in a run in
which no rounds are held by hand, every entry is written when the node has its round, and no node has
a round for which there is no entry.
-/

namespace Epidemic

/-- The time of a rumor round, and the index of the node that has it. -/
def Event.round? : Event → Option (Nat × Nat)
  | .round time index => some (time, index)
  | _ => none

namespace World

variable {σ : Type} {k : Nat}

/-- The rumor rounds that have been held, in their order, with their times. -/
def rounds (world : World σ k) : List (Nat × Nat) := world.journal.reverse.filterMap Event.round?

variable {world middle after : World σ k}

/-- Where the nodes keep their names there are as many of them. -/
theorem length_members_of_names (h : after.nodes.map (·.id) = world.nodes.map (·.id)) :
    after.members.length = world.members.length := by
  have hlength := congrArg List.length h
  rwa [nodes, nodes, List.length_map, List.length_map, List.length_map, List.length_map] at hlength

/-- One more entry of the journal. -/
theorem rounds_record (world : World σ k) (event : Event) :
    (world.record event).rounds = world.rounds ++ event.round?.toList :=
  filterMap_record Event.round? world event

section Turns

variable [Random.Source σ]

/-- Rounds that have been held stay so, and others come after them. -/
theorem rounds_prefix_run (world : World σ k) (moves : List (Move k)) :
    world.rounds <+: (world.run moves).rounds :=
  (List.reverse_prefix.mpr (world.journal_run moves)).filterMap Event.round?

/-- Sends are no rounds. -/
theorem rounds_sendAll (world : World σ k) (envelopes : List Envelope) :
    (world.sendAll envelopes).rounds = world.rounds := by
  induction envelopes generalizing world with
  | nil => rfl
  | cons envelope rest ih =>
    obtain ⟨agenda, hsend, -⟩ := send_eq world envelope
    have hfirst : (world.send envelope).rounds = world.rounds := by
      rw [hsend]
      exact (rounds_record world _).trans (List.append_nil _)
    exact (ih (world.send envelope)).trans hfirst

/-- What is done to a node is no round of all nodes. -/
theorem rounds_acted (world : World σ k) (index : Nat) (deed : Deed) :
    (world.acted index deed).rounds = world.rounds := by
  cases hat : world.members[index]? with
  | none => rw [acted_of_none hat]
  | some member =>
    rw [acted_of_some hat]
    exact rounds_sendAll _ _

/-- Deliveries are no rounds. -/
theorem rounds_deliver (world : World σ k) (parcel : Parcel) :
    (world.deliver parcel).rounds = world.rounds := by
  rcases world.deliver_cases parcel with
    ⟨-, hdeliver⟩ | ⟨_, _, -, -, hdeliver⟩ | ⟨index, _, -, -, hdeliver⟩
  · rw [hdeliver]
    exact (rounds_record _ _).trans (List.append_nil _)
  · rw [hdeliver]
    exact (rounds_record _ _).trans (List.append_nil _)
  · rw [hdeliver]
    refine ((rounds_record _ _).trans (List.append_nil _)).trans ?_
    exact rounds_acted _ index _

/-- The rounds of several nodes are written down, one after the other. -/
theorem rounds_roundOf (world : World σ k) {indexes : List Nat}
    (h : ∀ index ∈ indexes, index < world.members.length) :
    (world.roundOf indexes).rounds =
      world.rounds ++ indexes.map fun index => (world.agenda.now, index) := by
  induction indexes generalizing world with
  | nil => exact (List.append_nil _).symm
  | cons index rest ih =>
    rcases world.roundOf_cons index rest with ⟨hnone, -⟩ | ⟨_, -, heq⟩
    · exact absurd (h index List.mem_cons_self) (Nat.not_lt.mpr (List.getElem?_eq_none_iff.mp hnone))
    · have hnow : (world.acted index .gossipRound).agenda.now = world.agenda.now :=
        (touches_acted world index _).keepsTime.now
      have hlength : (world.acted index .gossipRound).members.length = world.members.length :=
        length_members_of_names (world.names_acted index .gossipRound)
      rw [heq, ih _ fun other hmem => ?_]
      · rw [rounds_record, rounds_acted, List.append_assoc]
        have hrecorded : ((world.acted index .gossipRound).record
            (.round world.agenda.now index)).agenda.now = world.agenda.now := hnow
        rw [hrecorded]
        rfl
      · have hrecorded : ((world.acted index .gossipRound).record
            (.round world.agenda.now index)).members.length = world.members.length := hlength
        rw [hrecorded]
        exact h other (List.mem_cons_of_mem index hmem)

end Turns

/-! ## True and complete -/

variable [Random.Source σ]

/-- Whether the entries about rumor rounds tell what is done to the nodes on the way: an entry is
written when a node has its round, and only then. -/
inductive NotesRounds (world : World σ k) : World σ k → Prop where
  /-- Nothing is done. -/
  | refl : NotesRounds world world
  /-- Nothing is done to a node, nothing is sent, and no round is written down. -/
  | still {middle after : World σ k} (h : NotesRounds world middle)
    (hmembers : after.members = middle.members) (hprotocols : after.protocols = middle.protocols)
    (hsent : after.network.stats.sent = middle.network.stats.sent)
    (hnow : middle.agenda.now ≤ after.agenda.now) (hrounds : after.rounds = middle.rounds) :
    NotesRounds world after
  /-- Something else than a round is done to a node. -/
  | deed {middle : World σ k} (h : NotesRounds world middle) (index : Nat) {deed : Deed}
    (hdeed : deed ≠ .gossipRound) : NotesRounds world (middle.acted index deed)
  /-- A node has a round, and it is written down. -/
  | round {middle : World σ k} (h : NotesRounds world middle) {index : Nat}
    (hindex : index < middle.members.length) :
    NotesRounds world ((middle.acted index .gossipRound).record (.round middle.agenda.now index))

/-- Rounds may be written down in one part of a run after the other. -/
theorem NotesRounds.trans (h : world.NotesRounds middle) (h' : middle.NotesRounds after) :
    world.NotesRounds after := by
  induction h' with
  | refl => exact h
  | still _ hmembers hprotocols hsent hnow hrounds ih =>
    exact ih.still hmembers hprotocols hsent hnow hrounds
  | deed _ index hdeed ih => exact ih.deed index hdeed
  | round _ hindex ih => exact ih.round hindex

/-- In a delivery there is no round. -/
theorem notesRounds_deliver (world : World σ k) (parcel : Parcel) :
    world.NotesRounds (world.deliver parcel) := by
  rcases world.deliver_cases parcel with
    ⟨-, hdeliver⟩ | ⟨_, _, -, -, hdeliver⟩ | ⟨index, _, -, -, hdeliver⟩
  · rw [hdeliver]
    exact .still .refl rfl rfl rfl (Nat.le_refl _) ((rounds_record _ _).trans (List.append_nil _))
  · rw [hdeliver]
    exact .still .refl rfl rfl rfl (Nat.le_refl _) ((rounds_record _ _).trans (List.append_nil _))
  · have hcounted : world.NotesRounds (world.withNetwork world.network.countDelivered) :=
      .still .refl rfl rfl rfl (Nat.le_refl _) rfl
    have hdeed : Deed.receive parcel.envelope.message parcel.envelope.sender ≠ .gossipRound := nofun
    have hgiven := hcounted.deed index hdeed
    rw [hdeliver]
    exact hgiven.still rfl rfl rfl (Nat.le_refl _)
      ((rounds_record _ _).trans (List.append_nil _))

/-- The rounds of several nodes are written down as the nodes have them. -/
theorem notesRounds_roundOf (world : World σ k) (indexes : List Nat) :
    world.NotesRounds (world.roundOf indexes) := by
  induction indexes generalizing world with
  | nil => exact .refl
  | cons index rest ih =>
    rcases world.roundOf_cons index rest with ⟨-, heq⟩ | ⟨member, hat, heq⟩
    · rw [heq]
      exact ih world
    · have hindex := (List.getElem?_eq_some_iff.mp hat).1
      have hround : world.NotesRounds
          ((world.acted index .gossipRound).record (.round world.agenda.now index)) :=
        .round .refl hindex
      rw [heq]
      exact hround.trans (ih _)

/-- In the turn of a task the rounds of all nodes are written down, if the task is such. -/
theorem notesRounds_takeTurn (world : World σ k) (position : Nat) :
    world.NotesRounds (world.takeTurn position) := by
  rw [takeTurn]
  split
  · exact .refl
  · rename_i task _
    have hbegun : world.NotesRounds
        (world.withReady (world.agenda.ready.eraseIdx position)) :=
      .still .refl rfl rfl rfl (Nat.le_refl _) rfl
    refine hbegun.trans ?_
    generalize world.withReady (world.agenda.ready.eraseIdx position) = begun
    cases task with
    | parcel delay parcel =>
      cases delay with
      | zero => exact begun.notesRounds_deliver parcel
      | succ delay => exact .still .refl rfl rfl rfl (Nat.le_refl _) rfl
    | rounds interval =>
      rw [perform, roundOfAll]
      split
      · exact .refl
      · exact (begun.notesRounds_roundOf _).still rfl rfl rfl (Nat.le_refl _) rfl

/-- In every move without meddling from outside rounds are written down as nodes have them, unless
one is held by hand. -/
theorem notesRounds_step (world : World σ k) {move : Move k} (hinternal : move.isInternal = true)
    (hmove : ∀ index, move ≠ .gossipRound index) : world.NotesRounds (world.step move) := by
  have hstill {after : World σ k} (hmembers : after.members = world.members)
      (hprotocols : after.protocols = world.protocols)
      (hsent : after.network.stats.sent = world.network.stats.sent)
      (hnow : world.agenda.now ≤ after.agenda.now) (hjournal : after.journal = world.journal) :
      world.NotesRounds after :=
    .still .refl hmembers hprotocols hsent hnow (by rw [rounds, hjournal, rounds])
  cases move with
  | broadcast index id kind payload =>
    rw [step, afterwards_broadcast]
    exact .deed .refl index Deed.noConfusion
  | addPeer index peer =>
    rw [step, world.modifyNode_eq_acted index _ (.addPeer peer) fun _ _ => rfl]
    exact .deed .refl index Deed.noConfusion
  | shutdown index =>
    rw [step, world.modifyNode_eq_acted index _ .shutdown fun _ _ => rfl]
    exact .deed .refl index Deed.noConfusion
  | gossipRound index => exact absurd rfl (hmove index)
  | setDropRate rate =>
    simp only [step, Network.setDropRate, NetworkConfig.checkDropRate]
    split <;> exact hstill rfl rfl rfl (Nat.le_refl _) rfl
  | turn position => exact world.notesRounds_takeTurn position
  | pass millis => exact hstill rfl rfl rfl (Nat.le_add_right _ _) rfl
  | unregister _ | setLatency _ | setJitter _ | setClock _ | close | setWall _ | startRounds _
  | stopRounds | fire => exact hstill rfl rfl rfl (Nat.le_refl _) rfl
  | send | receive | join | register => cases hinternal

/-- So it is in every run of such moves. -/
theorem notesRounds_run (world : World σ k) {moves : List (Move k)}
    (h : ∀ move ∈ moves, move.isInternal = true ∧ ∀ index, move ≠ .gossipRound index) :
    world.NotesRounds (world.run moves) := by
  induction moves generalizing world with
  | nil => exact .refl
  | cons move rest ih =>
    obtain ⟨hinternal, hmove⟩ := h move List.mem_cons_self
    have hfirst := world.notesRounds_step hinternal hmove
    exact hfirst.trans (ih _ fun other hmem => h other (List.mem_cons_of_mem move hmem))

end World

end Epidemic
