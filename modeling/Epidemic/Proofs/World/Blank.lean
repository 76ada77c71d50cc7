import Epidemic.Proofs.Node.Blank
import Epidemic.Proofs.World.Passage

/-!
# Worlds that are blind to content

All content can be taken from a world: from what its nodes know, from what is on its way and from what
has been written down. What is left goes on by itself. Whatever move is made, the world that is left
afterwards is the one to which the blank move leads from the world that was left before, so that
neither a draw nor a fate, neither a turn nor a time depends on what messages say.
-/

namespace Epidemic

namespace Agenda

variable {τ υ : Type} (f : τ → υ)

/-- An agenda of other tasks at the same times. -/
def map (agenda : Agenda τ) : Agenda υ where
  now := agenda.now
  ready := agenda.ready.map f
  timers := agenda.timers.map fun timer => (timer.1, f timer.2)

/-- A timer has its place by its time. -/
theorem map_insertTimer (due : Nat) (task : τ) (timers : List (Nat × τ)) :
    (insertTimer due task timers).map (fun timer => (timer.1, f timer.2)) =
      insertTimer due (f task) (timers.map fun timer => (timer.1, f timer.2)) := by
  induction timers with
  | nil => rfl
  | cons timer rest ih =>
    rw [List.map_cons, insertTimer, insertTimer]
    split
    · rw [List.map_cons, ih]
    · rfl

/-- A task becomes ready. -/
theorem map_enqueue (agenda : Agenda τ) (task : τ) :
    (agenda.enqueue task).map f = (agenda.map f).enqueue (f task) := by
  simp [map, enqueue]

/-- A task is set a timer. -/
theorem map_schedule (agenda : Agenda τ) (delay : Nat) (task : τ) :
    (agenda.schedule delay task).map f = (agenda.map f).schedule delay (f task) := by
  simp [map, schedule, map_insertTimer]

/-- Timers fire by their times. -/
theorem map_fire (agenda : Agenda τ) : agenda.fire.map f = (agenda.map f).fire := by
  simp only [map, fire, List.map_append, List.takeWhile_map, List.dropWhile_map, List.map_map,
    Function.comp_def]
  rfl

/-- Tasks of a kind are forgotten if the other tasks are of this kind, too. -/
theorem map_cancel (agenda : Agenda τ) {isMeant : τ → Bool} {isMeant' : υ → Bool}
    (h : ∀ task, isMeant' (f task) = isMeant task) :
    (agenda.cancel isMeant).map f = (agenda.map f).cancel isMeant' := by
  simp [map, cancel, List.filter_map, Function.comp_def, h]

end Agenda

section Blank

variable (rename : MessageId → MessageId)

/-- A message on its way, without its content. -/
def Parcel.blank (parcel : Parcel) : Parcel := ⟨parcel.serial, parcel.envelope.blank rename⟩

/-- What waits for its turn, without content. -/
def Task.blank : Task → Task
  | .parcel delay content => .parcel delay (content.blank rename)
  | .rounds interval => .rounds interval

/-- An entry of the journal, without content. -/
def Event.blank : Event → Event
  | .posted time parcel fate => .posted time (parcel.blank rename) fate
  | .arrived time parcel reception => .arrived time (parcel.blank rename) reception
  | .unclaimed time parcel => .unclaimed time (parcel.blank rename)
  | .round time index => .round time index

/-- A member without content. -/
def Member.blank {k : Nat} (member : Member k) : Member k :=
  { member with node := member.node.blank rename }

/-- A world without content, and without a wall clock. -/
def World.blank {σ : Type} {k : Nat} (world : World σ k) : World σ k :=
  { world with
    members := world.members.map (Member.blank rename)
    agenda := world.agenda.map (Task.blank rename)
    wall := 0
    journal := world.journal.map (Event.blank rename) }

/-- A move without content. -/
def Move.blank {k : Nat} : Move k → Move k
  | .send envelope => .send (envelope.blank rename)
  | .broadcast index id _ _ => .broadcast index (rename id) "" []
  | .receive index message sender => .receive index (message.blank rename) sender
  | .join node protocol => .join (node.blank rename) protocol
  | .setWall _ => .setWall 0
  | move => move

end Blank

namespace World

variable {σ : Type} {k : Nat} {rename : MessageId → MessageId}

/-- Whether no protocol of a world looks at the age of messages. -/
def IsAgeless (world : World σ k) : Prop :=
  ∀ member : Member k, (world.protocolOf member).maxAge = none

/-- A member is replaced. -/
theorem blank_replace (world : World σ k) (index : Nat) (member : Member k) (protocol : Protocol σ) :
    (world.replace index member protocol).blank rename =
      (world.blank rename).replace index (member.blank rename) protocol := by
  simp [blank, replace, Member.blank, List.map_set]

/-- The member at a place. -/
theorem members_blank (world : World σ k) (index : Nat) :
    (world.blank rename).members[index]? = world.members[index]?.map (Member.blank rename) :=
  List.getElem?_map

variable [Random.Source σ]

/-- A send is handed over whatever its message says. -/
theorem blank_send (world : World σ k) (envelope : Envelope) :
    (world.send envelope).blank rename = (world.blank rename).send (envelope.blank rename) := by
  have hnetwork : (world.blank rename).network = world.network := rfl
  rw [send, send, hnetwork]
  cases world.network.dispatch with
  | mk fate network =>
    cases fate with
    | dropped | unscheduled => rfl
    | scheduled delay =>
      simp only [blank, Agenda.map_enqueue]
      rfl

/-- Several sends are handed over whatever their messages say. -/
theorem blank_sendAll (world : World σ k) (envelopes : List Envelope) :
    (world.sendAll envelopes).blank rename =
      (world.blank rename).sendAll (envelopes.map (Envelope.blank rename)) := by
  induction envelopes generalizing world with
  | nil => rfl
  | cons envelope rest ih =>
    have hrest := ih (world.send envelope)
    rw [blank_send] at hrest
    exact hrest

/-- Something is done to a node whatever messages say. -/
theorem blank_acted (hrename : Function.Injective rename) {world : World σ k}
    (hage : world.IsAgeless) (index : Nat) (deed : Deed) :
    (world.acted index deed).blank rename =
      (world.blank rename).acted index (deed.blank rename) := by
  cases hat : world.members[index]? with
  | none =>
    have hblank : (world.blank rename).members[index]? = none := by rw [members_blank, hat]; rfl
    rw [acted_of_none hat, acted_of_none hblank]
  | some member =>
    have hblank : (world.blank rename).members[index]? = some (member.blank rename) := by
      rw [members_blank, hat]
      rfl
    have hstep := (world.lifeOf member).blank_step hrename (hage member) world.wall deed
    have hlife : (world.blank rename).lifeOf (member.blank rename) =
        (world.lifeOf member).blank rename := rfl
    have hwall : (world.blank rename).wall = 0 := rfl
    rw [acted_of_some hat, acted_of_some hblank, hlife, hwall, hstep, blank_sendAll, blank_replace]
    rfl

/-- What is done to a node leaves the protocols as blind to the age of messages as they were. -/
theorem IsAgeless.acted {world : World σ k} (h : world.IsAgeless) (index : Nat) (deed : Deed) :
    (world.acted index deed).IsAgeless := by
  intro other
  cases hat : world.members[index]? with
  | none =>
    rw [acted_of_none hat]
    exact h other
  | some member => exact ((extends_acted hat deed).rules other).2.trans (h other)

/-- Several nodes have a rumor round whatever messages say. -/
theorem blank_roundOf (hrename : Function.Injective rename) {world : World σ k}
    (hage : world.IsAgeless) (indexes : List Nat) :
    (world.roundOf indexes).blank rename = (world.blank rename).roundOf indexes := by
  induction indexes generalizing world with
  | nil => rfl
  | cons index rest ih =>
    have hmembers : (world.blank rename).members[index]? =
        world.members[index]?.map (Member.blank rename) := world.members_blank index
    rcases world.roundOf_cons index rest with ⟨hnone, heq⟩ | ⟨member, hat, heq⟩
    · rw [hnone] at hmembers
      rcases (world.blank rename).roundOf_cons index rest with ⟨-, hblank⟩ | ⟨_, hat, -⟩
      · rw [heq, hblank, ih hage]
      · rw [hmembers] at hat
        cases hat
    · rw [hat] at hmembers
      rcases (world.blank rename).roundOf_cons index rest with ⟨hnone, -⟩ | ⟨_, -, hblank⟩
      · rw [hmembers] at hnone
        cases hnone
      · have hround : ((world.acted index .gossipRound).record
            (.round world.agenda.now index)).IsAgeless := hage.acted index .gossipRound
        have hacted : (world.acted index .gossipRound).blank rename =
            (world.blank rename).acted index .gossipRound := blank_acted hrename hage index .gossipRound
        rw [heq, hblank, ih hround, ← hacted]
        rfl

/-- All nodes have a rumor round whatever messages say. -/
theorem blank_roundOfAll (hrename : Function.Injective rename) {world : World σ k}
    (hage : world.IsAgeless) (interval : Nat) :
    (world.roundOfAll interval).blank rename = (world.blank rename).roundOfAll interval := by
  have hdown : (world.blank rename).members.all (·.node.isDown) =
      world.members.all (·.node.isDown) := List.all_map
  have hlength : (world.blank rename).members.length = world.members.length := List.length_map _
  rw [roundOfAll, roundOfAll, hdown, hlength]
  split
  · rfl
  · rw [← blank_roundOf hrename hage]
    simp only [blank, Agenda.map_schedule]
    rfl

/-- A message is delivered whatever it says. -/
theorem blank_deliver (hrename : Function.Injective rename) {world : World σ k}
    (hage : world.IsAgeless) (parcel : Parcel) :
    (world.deliver parcel).blank rename = (world.blank rename).deliver (parcel.blank rename) := by
  have hendpoint : (world.blank rename).network.endpoint? (parcel.blank rename).envelope.target =
      world.network.endpoint? parcel.envelope.target := rfl
  have hcounted : (world.withNetwork world.network.countDelivered).IsAgeless := hage
  cases hfound : world.network.endpoint? parcel.envelope.target with
  | none =>
    rw [deliver, deliver, hendpoint, hfound]
    rfl
  | some endpoint =>
    cases endpoint with
    | recorder =>
      rw [deliver, deliver, hendpoint, hfound]
      rfl
    | node index =>
      have hmembers : (world.blank rename).members[index]? =
          world.members[index]?.map (Member.blank rename) := world.members_blank index
      cases hat : world.members[index]? with
      | none =>
        rw [hat] at hmembers
        rw [deliver_of_missing hfound hat, deliver_of_missing (hendpoint.trans hfound) hmembers]
        rfl
      | some member =>
        rw [hat] at hmembers
        have hacted := blank_acted hrename hcounted index
          (.receive parcel.envelope.message parcel.envelope.sender)
        -- The journal also says what the node has made of the message.
        have hresult := congrArg Turn.result (Node.blank_receive hrename member.node (hage member)
          world.network.isOpen world.wall parcel.envelope.message parcel.envelope.sender)
        have hrecord : ∀ (after : World σ k) (event : Event), (after.record event).blank rename =
            (after.blank rename).record (event.blank rename) := fun _ _ => rfl
        rw [deliver_of_some hfound hat, deliver_of_some (hendpoint.trans hfound) hmembers, hrecord,
          hacted]
        exact congrArg (fun reception => (((world.blank rename).withNetwork
          world.network.countDelivered).acted index (.receive (parcel.blank rename).envelope.message
            parcel.envelope.sender)).record (.arrived world.agenda.now (parcel.blank rename)
              reception)) hresult.symm

/-- A task has its turn whatever messages say. -/
theorem blank_perform (hrename : Function.Injective rename) {world : World σ k}
    (hage : world.IsAgeless) (task : Task) :
    (world.perform task).blank rename = (world.blank rename).perform (task.blank rename) := by
  cases task with
  | parcel delay content =>
    cases delay with
    | zero => exact blank_deliver hrename hage content
    | succ delay => simp only [perform, Task.blank, blank, Agenda.map_schedule]
  | rounds interval => exact blank_roundOfAll hrename hage interval

/-- The ready task at a place has its turn whatever messages say. -/
theorem blank_takeTurn (hrename : Function.Injective rename) {world : World σ k}
    (hage : world.IsAgeless) (position : Nat) :
    (world.takeTurn position).blank rename = (world.blank rename).takeTurn position := by
  have hready : (world.blank rename).agenda.ready = world.agenda.ready.map (Task.blank rename) := rfl
  have htask : (world.blank rename).agenda.ready[position]? =
      world.agenda.ready[position]?.map (Task.blank rename) := List.getElem?_map
  rw [takeTurn, takeTurn, htask]
  cases world.agenda.ready[position]? with
  | none => rfl
  | some task =>
    have hrest : (world.withReady (world.agenda.ready.eraseIdx position)).IsAgeless := hage
    dsimp only [Option.map_some]
    rw [blank_perform hrename hrest, hready, List.eraseIdx_map]
    rfl

/-- An internal move is made whatever messages say. -/
theorem blank_step (hrename : Function.Injective rename) {world : World σ k}
    (hage : world.IsAgeless) {move : Move k} (hinternal : move.isInternal = true) :
    (world.step move).blank rename = (world.blank rename).step (move.blank rename) := by
  cases move with
  | broadcast index id kind payload =>
    rw [step, afterwards_broadcast, blank_acted hrename hage]
    exact ((world.blank rename).afterwards_broadcast index (rename id) "" []).symm
  | gossipRound index =>
    rw [step, afterwards_gossipRound, blank_acted hrename hage]
    exact ((world.blank rename).afterwards_gossipRound index).symm
  | addPeer index peer =>
    have hdeed : ∀ {world : World σ k}, world.step (.addPeer index peer) =
        world.acted index (.addPeer peer) :=
      fun {world} => world.modifyNode_eq_acted index (fun node => (node.addPeer peer).2)
        (.addPeer peer) fun _ _ => rfl
    rw [hdeed, blank_acted hrename hage]
    exact hdeed.symm
  | shutdown index =>
    have hdeed : ∀ {world : World σ k}, world.step (.shutdown index) = world.acted index .shutdown :=
      fun {world} => world.modifyNode_eq_acted index _ .shutdown fun _ _ => rfl
    rw [hdeed, blank_acted hrename hage]
    exact hdeed.symm
  | unregister _ | setLatency _ | setJitter _ | setClock _ | close | pass _ | setWall _ => rfl
  | setDropRate rate =>
    by_cases hvalid : rate.isProbability = true
    · simp only [step, Move.blank, Network.setDropRate, NetworkConfig.checkDropRate, if_pos hvalid]
      rfl
    · simp only [step, Move.blank, Network.setDropRate, NetworkConfig.checkDropRate, if_neg hvalid]
      rfl
  | startRounds interval =>
    simp only [step, Move.blank, startRounds, blank, Agenda.map_schedule]
    rfl
  | stopRounds =>
    have hrounds : ∀ task : Task, (task.blank rename).isRounds = task.isRounds := by
      intro task
      cases task <;> rfl
    simp only [step, Move.blank, stopRounds, blank, Agenda.map_cancel _ _ hrounds]
  | turn position => exact blank_takeTurn hrename hage position
  | fire => simp only [step, Move.blank, blank, Agenda.map_fire]
  | send | receive | join | register => cases hinternal

/-- Whatever happens to the nodes leaves the protocols as blind to the age of messages as they were. -/
theorem Passage.isAgeless {world after : World σ k} {made : List Message} {batches : List Batch}
    (hpassage : world.Passage made batches after) (h : world.IsAgeless) : after.IsAgeless := by
  induction hpassage with
  | refl => exact h
  | step _ hchange ih =>
    intro member
    cases hchange with
    | still _ hbooks | deed _ _ _ hbooks | unheard _ _ _ hbooks =>
      exact (hbooks.rules member).2.trans (ih member)

/-- So does the passage of time. -/
theorem IsAgeless.later {world later : World σ k} (h : world.IsAgeless) (hlater : world.IsLater later) :
    later.IsAgeless := by
  obtain ⟨moves, hticks, rfl⟩ := hlater
  exact (world.passage_run moves fun move hmem =>
    Move.isInternal_of_isTick (hticks move hmem)).isAgeless h

/-- Internal moves are made one after the other whatever messages say. -/
theorem blank_run (hrename : Function.Injective rename) {world : World σ k} (hage : world.IsAgeless)
    {moves : List (Move k)} (hinternal : ∀ move ∈ moves, move.isInternal = true) :
    (world.run moves).blank rename = (world.blank rename).run (moves.map (Move.blank rename)) := by
  induction moves generalizing world with
  | nil => rfl
  | cons move rest ih =>
    have hmove := hinternal move List.mem_cons_self
    have hstep := blank_step hrename hage hmove
    have hnext : (world.step move).IsAgeless := (world.passage_step hmove).isAgeless hage
    have hrest := ih hnext fun other hmem => hinternal other (List.mem_cons_of_mem move hmem)
    rw [hstep] at hrest
    exact hrest

/-- A world settles whatever messages say. -/
theorem blank_settle (hrename : Function.Injective rename) {world : World σ k}
    (hage : world.IsAgeless) : world.settle.blank rename = (world.blank rename).settle := by
  induction world using settle.induct with
  | case1 world hready =>
    have hblank : (world.blank rename).agenda.ready = [] := congrArg (List.map _) hready
    rw [settle_of_ready_eq_nil hready, settle_of_ready_eq_nil hblank]
  | case2 world task rest hready ih =>
    have hblank : (world.blank rename).agenda.ready = task.blank rename :: rest.map (Task.blank rename) :=
      congrArg (List.map _) hready
    have hturn : world.takeTurn 0 = (world.withReady rest).perform task := takeTurn_zero hready
    have hnext : (world.takeTurn 0).IsAgeless := hage.later (world.isLater_step (.turn 0) rfl)
    rw [← hturn] at ih
    rw [settle_of_ready_eq_cons hready, settle_of_ready_eq_cons hblank, ← hturn, ih hnext,
      blank_takeTurn hrename hage, takeTurn_zero hblank]

/-- A world catches up whatever messages say. -/
theorem blank_catchUp (hrename : Function.Injective rename) {world : World σ k}
    (hage : world.IsAgeless) : world.catchUp.blank rename = (world.blank rename).catchUp := by
  have hfired : ({ world with agenda := world.agenda.fire } : World σ k).IsAgeless := hage
  rw [catchUp, blank_settle hrename hfired, catchUp]
  simp only [blank, Agenda.map_fire]

/-- Time passes whatever messages say. -/
theorem blank_advance (hrename : Function.Injective rename) {world : World σ k}
    (hage : world.IsAgeless) (millis : Nat) :
    (world.advance millis).blank rename = (world.blank rename).advance millis := by
  induction millis generalizing world with
  | zero => rw [advance_zero, advance_zero]
  | succ millis ih =>
    have hpassed : (world.pass 1).IsAgeless := hage
    have hnext : (world.pass 1).catchUp.IsAgeless := hpassed.later (isLater_catchUp _)
    rw [advance_succ, advance_succ, ih hnext, blank_catchUp hrename hpassed]
    rfl

end World

end Epidemic
