import Epidemic.Proofs.World.Transit
import Epidemic.Random.Script

/-!
# Conservation of sends

Every send is given a number when it is handed over. In the end it is dropped, delivered or
undeliverable, and the journal says which; until then its message is in transit. The numbers in the
journal and in transit are together those of all sends, each of them once, and the counters of the
network count the outcomes in the journal. So the sends whose outcome is not known are exactly the
messages in transit.

The invariant is stated with a list of outcomes that are counted but not written down yet: a
delivery counts first, then lets the target act and send in turn, and writes its outcome down last.
-/

namespace Epidemic

/-- What becomes of a send in the end. -/
inductive Outcome where
  /-- It is lost. -/
  | dropped
  /-- It reaches an endpoint. -/
  | delivered
  /-- There is no endpoint, or no clock by which it could be delivered. -/
  | undeliverable
  deriving DecidableEq

namespace Fate

/-- The outcome of a send that is not scheduled. -/
def outcome? : Fate → Option Outcome
  | .dropped => some .dropped
  | .unscheduled => some .undeliverable
  | .scheduled _ => none

/-- The outcome of a send of the given number, if its fate is one. -/
def settled (fate : Fate) (serial : Nat) : List (Nat × Outcome) :=
  (fate.outcome?.map fun outcome => (serial, outcome)).toList

end Fate

namespace Event

/-- The number and the outcome of a send, where an event says what has become of one. -/
def outcome? : Event → Option (Nat × Outcome)
  | .posted _ parcel fate => fate.outcome?.map fun outcome => (parcel.serial, outcome)
  | .arrived _ parcel _ => some (parcel.serial, .delivered)
  | .unclaimed _ parcel => some (parcel.serial, .undeliverable)
  | .round _ _ => none

end Event

namespace NetworkStats

/-- The counter of an outcome. -/
def count (stats : NetworkStats) : Outcome → Nat
  | .dropped => stats.dropped
  | .delivered => stats.delivered
  | .undeliverable => stats.undeliverable

end NetworkStats

namespace Network

variable {σ : Type}

/-- A network that was given a configuration has it, and nothing else yet. -/
theorem eq_of_new {config : NetworkConfig} {generator : σ} {hasClock : Bool} {network : Network σ}
    (h : Network.new config generator hasClock = .ok network) :
    network = ⟨config, [], generator, .none, hasClock, true⟩ := by
  rw [Network.new] at h
  cases hcheck : config.check with
  | error fault =>
    rw [hcheck] at h
    cases h
  | ok _ =>
    rw [hcheck] at h
    exact (Except.ok.inj h).symm

variable [Random.Source σ]

/-- Handing over a send counts it, and counts its outcome if this is known at once. -/
theorem stats_dispatch (network : Network σ) :
    network.dispatch.2.stats.sent = network.stats.sent + 1 ∧
      ∀ outcome, network.dispatch.2.stats.count outcome =
        network.stats.count outcome +
          if network.dispatch.1.outcome? = some outcome then 1 else 0 := by
  unfold dispatch
  obtain ⟨delay, generator⟩ := roll network.config network.generator
  cases delay with
  | none => exact ⟨rfl, fun outcome => by cases outcome <;> rfl⟩
  | some delay =>
    dsimp only
    split
    · exact ⟨rfl, fun outcome => by cases outcome <;> rfl⟩
    · exact ⟨rfl, fun outcome => by cases outcome <;> rfl⟩

end Network

namespace World

variable {σ : Type} {k : Nat}

/-- The numbers of the sends whose outcome is in the journal, with these outcomes, last first. -/
def outcomes (world : World σ k) : List (Nat × Outcome) := world.journal.filterMap Event.outcome?

/-- The books are kept, up to some outcomes that are counted but not yet in the journal. -/
structure Accounts (due : List (Nat × Outcome)) (world : World σ k) : Prop where
  /-- Every send has either an outcome or a message in transit, and only one of these. -/
  serials : ((due ++ world.outcomes).map (·.1) ++ world.pending.map (·.serial)).Perm
    (List.range world.network.stats.sent)
  /-- Every counter is the number of outcomes of its kind. -/
  counts : ∀ outcome, world.network.stats.count outcome =
    (due ++ world.outcomes).countP fun entry => entry.2 = outcome

/-- A fresh network has no sends to account for. -/
theorem accounts_new {config : NetworkConfig} {generator : σ} {hasClock : Bool}
    {network : Network σ} (h : Network.new config generator hasClock = .ok network)
    (protocols : Vector (Protocol σ) k) (wall : Nat) :
    Accounts [] (World.new network protocols wall) := by
  rw [Network.eq_of_new h]
  exact ⟨List.Perm.refl _, fun outcome => by cases outcome <;> rfl⟩

/-- What leaves counters and outcomes as they are, and the messages in transit up to their order,
keeps the books. -/
theorem Accounts.congr {due : List (Nat × Outcome)} {world other : World σ k}
    (h : Accounts due world) (hstats : other.network.stats = world.network.stats)
    (houtcomes : other.outcomes = world.outcomes) (hpending : other.pending.Perm world.pending) :
    Accounts due other := by
  refine ⟨?_, fun outcome => ?_⟩
  · rw [houtcomes, hstats]
    exact ((hpending.map (·.serial)).append_left _).trans h.serials
  · rw [houtcomes, hstats]
    exact h.counts outcome

/-- What members and their protocols have become does not matter. -/
theorem Accounts.replace {due : List (Nat × Outcome)} {world : World σ k} (h : Accounts due world)
    (index : Nat) (member : Member k) (protocol : Protocol σ) :
    Accounts due (world.replace index member protocol) :=
  h.congr rfl rfl (List.Perm.refl _)

/-- Writing down an outcome that is due. -/
theorem Accounts.record {world : World σ k} {event : Event} {entry : Nat × Outcome}
    (h : Accounts [entry] world) (hevent : event.outcome? = some entry) :
    Accounts [] (world.record event) := by
  have houtcomes : (world.record event).outcomes = entry :: world.outcomes := by
    simp only [outcomes, World.record, List.filterMap_cons, hevent]
  refine ⟨?_, fun outcome => ?_⟩
  · rw [List.nil_append, houtcomes]
    exact h.serials
  · rw [List.nil_append, houtcomes]
    exact h.counts outcome

/-- Writing down that a node had a rumor round. -/
theorem Accounts.recordRound {world : World σ k} (h : Accounts [] world) (time index : Nat) :
    Accounts [] (world.record (.round time index)) :=
  h.congr rfl rfl (List.Perm.refl _)

/-- The message of a task that is taken from the agenda may be resolved: its outcome is counted and
due to be written down. -/
theorem Accounts.resolve {world : World σ k} {network : Network σ} {ready : List Task}
    {parcel : Parcel} {outcome : Outcome} (h : Accounts [] world)
    (hpending : world.pending.Perm (parcel :: (world.withReady ready).pending))
    (hsent : network.stats.sent = world.network.stats.sent)
    (hcount : ∀ other, network.stats.count other =
      world.network.stats.count other + if outcome = other then 1 else 0) :
    Accounts [(parcel.serial, outcome)] ((world.withReady ready).withNetwork network) := by
  refine ⟨?_, fun other => ?_⟩
  · have hserials : (world.outcomes.map (·.1) ++
        parcel.serial :: (world.withReady ready).pending.map (·.serial)).Perm
          (List.range world.network.stats.sent) :=
      ((hpending.map (·.serial)).symm.append_left _).trans h.serials
    exact hsent ▸ List.perm_middle.symm.trans hserials
  · have hold : world.network.stats.count other =
        world.outcomes.countP fun entry => entry.2 = other := h.counts other
    have hnew : (((world.withReady ready).withNetwork network).network.stats).count other =
        world.network.stats.count other + if outcome = other then 1 else 0 := hcount other
    have hcons : ([(parcel.serial, outcome)] ++
        ((world.withReady ready).withNetwork network).outcomes).countP
          (fun entry => entry.2 = other) =
        (world.outcomes.countP fun entry => entry.2 = other) +
          if outcome = other then 1 else 0 := by
      rw [List.singleton_append, List.countP_cons]
      simp only [decide_eq_true_eq]
      rfl
    rw [hnew, hcons, hold]

/-- Every outcome is of one of the three kinds. -/
theorem length_eq_counts (outcomes : List (Nat × Outcome)) :
    outcomes.length = (outcomes.countP fun entry => entry.2 = .dropped) +
      (outcomes.countP fun entry => entry.2 = .delivered) +
        outcomes.countP fun entry => entry.2 = .undeliverable := by
  induction outcomes with
  | nil => rfl
  | cons entry rest ih =>
    obtain ⟨serial, outcome⟩ := entry
    cases outcome <;> simp [ih] <;> omega

/-- If the books are kept, the sends without a known outcome are the messages in transit. -/
theorem Accounts.sent_eq {world : World σ k} (h : Accounts [] world) :
    world.network.stats.sent = world.network.stats.dropped + world.network.stats.delivered +
      world.network.stats.undeliverable + world.pending.length := by
  have hlength := h.serials.length_eq
  have hkinds := length_eq_counts world.outcomes
  have hdropped := h.counts .dropped
  have hdelivered := h.counts .delivered
  have hundeliverable := h.counts .undeliverable
  simp only [List.nil_append, List.length_append, List.length_map, List.length_range,
    NetworkStats.count] at hlength hdropped hdelivered hundeliverable
  omega

/-- If the books are kept, the messages in transit are counted as being in flight. -/
theorem Accounts.inFlight_eq {world : World σ k} (h : Accounts [] world) :
    world.network.stats.inFlight = world.pending.length := by
  have hsent := h.sent_eq
  unfold NetworkStats.inFlight
  omega

/-- An operation of the network that can be refused and does not touch the counters keeps the
books. -/
theorem Accounts.unlessRefused {world : World σ k} {attempt : Except Fault (World σ k)}
    (h : Accounts [] world) (hattempt : ∀ after, attempt = .ok after → Accounts [] after) :
    Accounts [] (world.unlessRefused attempt) := by
  cases attempt with
  | error fault => exact h
  | ok after => exact hattempt after rfl

/-- Registering an endpoint keeps the books. -/
theorem Accounts.register {world after : World σ k} {id : NodeId} {endpoint : Endpoint}
    (h : Accounts [] world) (hregister : world.register id endpoint = .ok after) :
    Accounts [] after := by
  simp only [World.register, Network.register] at hregister
  split at hregister
  · cases hregister
  · cases hregister
    exact h.congr rfl rfl (List.Perm.refl _)

variable [Random.Source σ]

/-! ## Sends -/

/-- Whatever the fate of a send, its number goes to one place: to the outcomes or to the messages in
transit. -/
theorem perm_serials_fate (fate : Fate) (parcel : Parcel) :
    ((fate.settled parcel.serial).map (·.1) ++ (fate.inTransit parcel).map (·.serial)).Perm
      [parcel.serial] := by
  cases fate with
  | dropped => exact List.Perm.refl _
  | unscheduled => exact List.Perm.refl _
  | scheduled delay => exact List.Perm.refl _

/-- The outcomes after a send. -/
theorem outcomes_send (world : World σ k) (envelope : Envelope) :
    (world.send envelope).outcomes =
      world.network.dispatch.1.settled world.network.stats.sent ++ world.outcomes := by
  obtain ⟨agenda, heq, -⟩ := send_eq world envelope
  rw [heq]
  simp only [outcomes, List.filterMap_cons, Event.outcome?, Fate.settled]
  cases world.network.dispatch.1.outcome? <;> rfl

/-- A send is accounted for. -/
theorem Accounts.send {due : List (Nat × Outcome)} {world : World σ k} (h : Accounts due world)
    (envelope : Envelope) : Accounts due (world.send envelope) := by
  obtain ⟨agenda, heq, hpending⟩ := send_eq world envelope
  have hnetwork : (world.send envelope).network = world.network.dispatch.2 := by rw [heq]
  have hpending : (world.send envelope).pending.Perm
      (world.network.dispatch.1.inTransit ⟨world.network.stats.sent, envelope⟩ ++
        world.pending) := by
    rw [heq]
    exact hpending
  obtain ⟨hsent, hcount⟩ := world.network.stats_dispatch
  have hfate := perm_serials_fate world.network.dispatch.1 ⟨world.network.stats.sent, envelope⟩
  refine ⟨?_, fun outcome => ?_⟩
  · rw [hnetwork, hsent, outcomes_send, List.range_succ]
    rw [List.perm_iff_count]
    intro serial
    have hold := List.perm_iff_count.mp h.serials serial
    have hone := List.perm_iff_count.mp hfate serial
    have htransit := List.perm_iff_count.mp (hpending.map (·.serial)) serial
    simp only [List.map_append, List.count_append] at hold hone htransit ⊢
    omega
  · have hold := h.counts outcome
    have hsettled : (world.network.dispatch.1.settled world.network.stats.sent).countP
        (fun entry => entry.2 = outcome) =
          if world.network.dispatch.1.outcome? = some outcome then 1 else 0 := by
      unfold Fate.settled
      cases world.network.dispatch.1.outcome? with
      | none => rfl
      | some other => simp [List.countP_cons]
    rw [hnetwork, hcount, outcomes_send]
    simp only [List.countP_append] at hold hsettled ⊢
    omega

/-- Several sends are accounted for. -/
theorem Accounts.sendAll {due : List (Nat × Outcome)} {world : World σ k} (h : Accounts due world)
    (envelopes : List Envelope) : Accounts due (world.sendAll envelopes) := by
  induction envelopes generalizing world with
  | nil => exact h
  | cons envelope rest ih => exact ih (h.send envelope)

/-- Whatever a node does, its sends are accounted for. -/
theorem Accounts.act {α : Type} {due : List (Nat × Outcome)} {world after : World σ k} {index : Nat}
    {result : α} {operation : Node → Protocol σ → Turn (Protocol σ) α} (h : Accounts due world)
    (hact : world.act index operation = some (result, after)) : Accounts due after := by
  obtain ⟨member, -, -, rfl⟩ := act_eq_some_iff.mp hact
  exact (h.replace _ _ _).sendAll _

/-! ## Turns -/

/-- A message that is taken from the agenda and delivered gets one outcome, and what its target
sends is accounted for. -/
theorem Accounts.deliver {world : World σ k} {ready : List Task} {parcel : Parcel}
    (h : Accounts [] world)
    (hpending : world.pending.Perm (parcel :: (world.withReady ready).pending)) :
    Accounts [] ((world.withReady ready).deliver parcel) := by
  have hdelivered : Accounts [(parcel.serial, .delivered)]
      ((world.withReady ready).withNetwork world.network.countDelivered) :=
    h.resolve hpending rfl fun other => by cases other <;> rfl
  unfold World.deliver
  dsimp only
  split
  · have hundeliverable : Accounts [(parcel.serial, .undeliverable)]
        ((world.withReady ready).withNetwork world.network.countUndeliverable) :=
      h.resolve hpending rfl fun other => by cases other <;> rfl
    exact hundeliverable.record rfl
  · split
    · exact hdelivered.record rfl
    · split
      · rename_i reception after hact
        exact (hdelivered.act hact).record rfl
      · exact hdelivered.record rfl

/-- The rumor rounds of some nodes keep the books. -/
theorem Accounts.roundOf {world : World σ k} (h : Accounts [] world) (indexes : List Nat) :
    Accounts [] (world.roundOf indexes) := by
  induction indexes generalizing world with
  | nil => exact h
  | cons index rest ih =>
    rw [World.roundOf]
    split
    · rename_i after hround
      rw [gossipRound_eq_act] at hround
      exact ih ((h.act hround).recordRound _ _)
    · exact ih h

/-- A rumor round of all nodes keeps the books. -/
theorem Accounts.roundOfAll {world : World σ k} (h : Accounts [] world) (interval : Nat) :
    Accounts [] (world.roundOfAll interval) := by
  unfold World.roundOfAll
  split
  · exact h
  · exact (h.roundOf _).congr rfl rfl (perm_pending_schedule _ _ _)

/-- The turn of any ready task keeps the books. -/
theorem Accounts.takeTurn {world : World σ k} (h : Accounts [] world) (position : Nat) :
    Accounts [] (world.takeTurn position) := by
  unfold World.takeTurn
  split
  · exact h
  · rename_i task hat
    have hpending := perm_pending_withReady hat
    unfold perform
    split
    · exact h.deliver hpending
    · -- The message stays in transit: it leaves the queue for a timer.
      refine h.congr rfl rfl ?_
      exact (perm_pending_schedule _ _ _).trans hpending.symm
    · have hbare : Accounts [] (world.withReady (world.agenda.ready.eraseIdx position)) :=
        h.congr rfl rfl hpending.symm
      exact hbare.roundOfAll _

/-! ## Moves and runs -/

/-- What a node does, if there is such a node, keeps the books. -/
theorem Accounts.afterwards {α : Type} {world : World σ k} {index : Nat}
    {operation : Node → Protocol σ → Turn (Protocol σ) α} (h : Accounts [] world) :
    Accounts [] (world.afterwards (world.act index operation)) := by
  cases hact : world.act index operation with
  | none => exact h
  | some answer => exact h.act hact

/-- Every move keeps the books. -/
theorem Accounts.step {world : World σ k} (h : Accounts [] world) (move : Move k) :
    Accounts [] (world.step move) := by
  cases move with
  | send envelope => exact h.send envelope
  | broadcast index id kind payload => exact h.afterwards
  | receive index message sender => exact h.afterwards
  | gossipRound index =>
    rw [World.step, gossipRound_eq_act]
    exact h.afterwards
  | join node protocol =>
    refine h.unlessRefused fun after hjoin => ?_
    simp only [World.join, bind, Except.bind] at hjoin
    split at hjoin
    · cases hjoin
    · rename_i registered hregister
      cases hjoin
      exact (h.register hregister).congr rfl rfl (List.Perm.refl _)
  | register id endpoint => exact h.unlessRefused fun after hregister => h.register hregister
  | setDropRate rate =>
    refine h.unlessRefused fun after hrate => ?_
    simp only [Network.setDropRate, NetworkConfig.checkDropRate] at hrate
    split at hrate
    · cases hrate
      exact h.congr rfl rfl (List.Perm.refl _)
    · cases hrate
  | stopRounds =>
    exact h.congr rfl rfl (List.Perm.of_eq (pending_stopRounds world))
  | startRounds interval => exact h.congr rfl rfl (perm_pending_schedule world _ _)
  | turn position => exact h.takeTurn position
  | fire => exact h.congr rfl rfl (List.Perm.of_eq (pending_fire world))
  | addPeer _ _ | shutdown _ | unregister _ | setLatency _ | setJitter _ | setClock _ | close
  | pass _ | setWall _ => exact h.congr rfl rfl (List.Perm.refl _)

/-- Every run keeps the books. -/
theorem Accounts.run {world : World σ k} (h : Accounts [] world) (moves : List (Move k)) :
    Accounts [] (world.run moves) :=
  run_preserves (fun _ move _ haccounts => haccounts.step move) h

/-- In every state that a network can get into, each send has either one outcome, which is counted,
or one message in transit. As long as the number of sends fits a word, so does the number of
outcomes, and what is counted as being in flight is in transit. -/
theorem sends_accounted (config : NetworkConfig) (generator : σ) (hasClock : Bool)
    {network : Network σ} (hnew : Network.new config generator hasClock = .ok network)
    (protocols : Vector (Protocol σ) k) (wall : Nat) (moves : List (Move k)) {world : World σ k}
    (hworld : world = (World.new network protocols wall).run moves)
    (hfew : world.network.stats.sent < Width.words64) :
    (world.outcomes.map (·.1) ++ world.pending.map (·.serial)).Perm
        (List.range world.network.stats.sent) ∧
      (∀ outcome, world.network.stats.count outcome =
        world.outcomes.countP fun entry => entry.2 = outcome) ∧
      world.network.stats.sent = world.network.stats.dropped + world.network.stats.delivered +
        world.network.stats.undeliverable + world.pending.length ∧
      world.network.stats.dropped + world.network.stats.delivered +
        world.network.stats.undeliverable < Width.words64 ∧
      world.network.stats.dropped + world.network.stats.delivered +
        world.network.stats.undeliverable ≤ world.network.stats.sent ∧
      world.network.stats.inFlight = world.pending.length := by
  have haccounts : Accounts [] world := by
    rw [hworld]
    exact (accounts_new hnew protocols wall).run moves
  have hsent := haccounts.sent_eq
  exact ⟨haccounts.serials, haccounts.counts, hsent, by omega, by omega, haccounts.inFlight_eq⟩

/-- A network with a clock that takes a millisecond for every delivery. -/
def slowNetwork : Network Random.Script where
  config := ⟨.ofMillis 1, .zero, .zero, none⟩
  registry := []
  generator := ⟨[]⟩
  stats := .none
  hasClock := true
  isOpen := true

/-- A message reaches a node, which pushes it on to nobody, and then the node is sent it again. -/
def pushedOn : List (Move 1) :=
  let message : Message := ⟨"m", "set", "a", [], 0⟩
  [.join ((Node.new "b" 0).addPeers ["c"]) ⟨0, Nat.zero_lt_one⟩, .send ⟨"a", "b", message⟩, .turn 0,
    .pass 1, .fire, .turn 0, .turn 0, .pass 1, .fire, .turn 0, .send ⟨"a", "b", message⟩]

/-- Of the three sends one was delivered, one was undeliverable, and one is in flight. -/
theorem sends_accounted_pushedOn :
    let world := (World.new slowNetwork #v[⟨1, none, ⟨[]⟩⟩] 0).run pushedOn
    world.network.stats = ⟨3, 0, 1, 1⟩ ∧
      world.network.stats.inFlight = world.pending.length :=
  ⟨by decide +kernel,
    (sends_accounted slowNetwork.config slowNetwork.generator true rfl #v[⟨1, none, ⟨[]⟩⟩] 0
      pushedOn rfl (by decide +kernel)).2.2.2.2.2⟩

end World

end Epidemic
