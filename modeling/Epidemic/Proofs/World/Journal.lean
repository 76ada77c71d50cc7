import Epidemic.Proofs.World.Arrivals
import Epidemic.Proofs.World.Turns

/-!
# What comes to be written down

The journal only grows. A send that is scheduled is written down with a delay that the network could
roll at that time, so with an unchanged latency and no jitter all sends are given the same delay.
-/

namespace Epidemic

namespace Event

/-- The delay of a send that is scheduled. -/
def delay? : Event → Option Duration
  | .posted _ _ (.scheduled delay) => some delay
  | _ => none

/-- What is no send has no delay. -/
theorem delay?_eq_none {event : Event} (h : event.posted? = none) : event.delay? = none := by
  cases event with
  | posted _ _ _ => cases h
  | _ => rfl

end Event

namespace Network

variable {σ : Type} [Random.Source σ]

/-- Whether a delay is one that the network can roll: the latency with some further delay. -/
def Rolls (network : Network σ) (delay : Duration) : Prop :=
  ∃ generator : σ,
    delay = network.config.latency.add (drawExtra network.config.jitter generator).1

/-- Without jitter the network rolls its latency. -/
theorem Rolls.eq_latency {network : Network σ} {delay : Duration} (h : network.Rolls delay)
    (hjitter : network.config.jitter.micros = 0) : delay = network.config.latency := by
  obtain ⟨generator, rfl⟩ := h
  rw [drawExtra, if_pos hjitter]
  exact Duration.add_zero _

/-- A delay is rolled as the latency with some further delay. -/
theorem exists_of_roll {config : NetworkConfig} {generator : σ} {delay : Duration}
    (h : (roll config generator).1 = some delay) :
    ∃ generator : σ, delay = config.latency.add (drawExtra config.jitter generator).1 := by
  rw [roll] at h
  generalize (if config.dropRate.isPositive then Random.chance config.dropRate generator
    else (false, generator)) = chance at h
  obtain ⟨isLost, generator⟩ := chance
  cases isLost with
  | true => cases h
  | false => exact ⟨generator, (Option.some.inj h).symm⟩

/-- A send is scheduled with a delay that the network can roll. -/
theorem rolls_of_dispatch {network : Network σ} {delay : Duration}
    (h : network.dispatch.1 = .scheduled delay) : network.Rolls delay := by
  refine @exists_of_roll _ _ _ network.generator _ ?_
  rw [dispatch] at h
  generalize roll network.config network.generator = rolled at h ⊢
  obtain ⟨rolled, generator⟩ := rolled
  cases rolled with
  | none => cases h
  | some rolled =>
    dsimp only at h
    split at h
    · rw [Fate.scheduled.inj h]
    · cases h

end Network

/-- Whether a move sets the delay of the sends to come, or the bound of their further delay. -/
def Move.setsDelay {k : Nat} : Move k → Bool
  | .setLatency _ | .setJitter _ => true
  | _ => false

namespace World

variable {σ : Type} {k : Nat} [Random.Source σ]

/-- Whether the delays of a network stay what they are while the journal grows, and every send that
is written down is given one of them. -/
structure Logs (world after : World σ k) : Prop where
  /-- The latency stays. -/
  latency : after.network.config.latency = world.network.config.latency
  /-- The jitter stays. -/
  jitter : after.network.config.jitter = world.network.config.jitter
  /-- The journal grows. -/
  grows : world.journal <:+ after.journal
  /-- New sends are given delays that the network can roll. -/
  rolls : ∀ event ∈ after.journal, ∀ delay, event.delay? = some delay →
    event ∈ world.journal ∨ world.network.Rolls delay

variable {world middle after : World σ k}

/-- Nothing is written down. -/
theorem logs_of_eq (hlatency : after.network.config.latency = world.network.config.latency)
    (hjitter : after.network.config.jitter = world.network.config.jitter)
    (hjournal : after.journal = world.journal) : world.Logs after where
  latency := hlatency
  jitter := hjitter
  grows := hjournal ▸ List.suffix_rfl
  rolls _ hmem _ _ := Or.inl (hjournal ▸ hmem)

/-- The journal may grow by one thing after the other. -/
theorem Logs.trans (h : world.Logs middle) (h' : middle.Logs after) : world.Logs after where
  latency := h'.latency.trans h.latency
  jitter := h'.jitter.trans h.jitter
  grows := h.grows.trans h'.grows
  rolls event hmem delay hdelay := by
    rcases h'.rolls event hmem delay hdelay with hmiddle | ⟨generator, hnew⟩
    · exact h.rolls event hmiddle delay hdelay
    · rw [h.latency, h.jitter] at hnew
      exact Or.inr ⟨generator, hnew⟩

/-- One entry is written down. -/
theorem logs_cons {event : Event}
    (hlatency : after.network.config.latency = world.network.config.latency)
    (hjitter : after.network.config.jitter = world.network.config.jitter)
    (hjournal : after.journal = event :: world.journal)
    (hrolls : ∀ delay, event.delay? = some delay → world.network.Rolls delay) :
    world.Logs after where
  latency := hlatency
  jitter := hjitter
  grows := hjournal ▸ List.suffix_cons event world.journal
  rolls other hmem delay hdelay := by
    rw [hjournal] at hmem
    rcases List.mem_cons.mp hmem with rfl | hold
    · exact Or.inr (hrolls delay hdelay)
    · exact Or.inl hold

/-- A send is written down with its delay. -/
theorem logs_send (world : World σ k) (envelope : Envelope) :
    world.Logs (world.send envelope) := by
  obtain ⟨agenda, heq, -⟩ := send_eq world envelope
  obtain ⟨generator, stats, hnetwork⟩ := world.network.dispatch_keeps
  rw [heq]
  refine logs_cons ?_ ?_ rfl fun delay hdelay => ?_
  · rw [hnetwork]
  · rw [hnetwork]
  · cases hfate : world.network.dispatch.1 with
    | scheduled rolled =>
      rw [hfate] at hdelay
      cases hdelay
      exact Network.rolls_of_dispatch hfate
    | dropped | unscheduled =>
      rw [hfate] at hdelay
      cases hdelay

/-- The journal grows by whatever is done in turns. -/
theorem Touches.logs (h : world.Touches after) : world.Logs after := by
  induction h with
  | refl => exact logs_of_eq rfl rfl rfl
  | tail _ htouch ih =>
    refine ih.trans ?_
    cases htouch with
    | member _ _ _ | delivered | undeliverable => exact logs_of_eq rfl rfl rfl
    | send envelope => exact logs_send _ envelope
    | event event hevent =>
      refine logs_cons rfl rfl rfl fun delay hdelay => ?_
      rw [Event.delay?_eq_none hevent] at hdelay
      cases hdelay

/-- The journal grows by the turn of a task. -/
theorem logs_takeTurn (world : World σ k) (position : Nat) :
    world.Logs (world.takeTurn position) := by
  obtain ⟨ready, middle, agenda, htouches, hturn⟩ := world.touches_takeTurn position
  have hready : world.Logs (world.withReady ready) := logs_of_eq rfl rfl rfl
  rw [hturn]
  exact (hready.trans htouches.logs).trans (logs_of_eq rfl rfl rfl)

/-- The journal grows by every move that leaves the delays alone. -/
theorem logs_step (world : World σ k) {move : Move k} (h : move.setsDelay = false) :
    world.Logs (world.step move) := by
  cases move with
  | send envelope => exact logs_send world envelope
  | broadcast index id kind payload =>
    rw [step, afterwards_broadcast]
    exact (world.touches_acted index _).logs
  | receive index message sender =>
    rw [step, afterwards_receive]
    exact (world.touches_acted index _).logs
  | gossipRound index =>
    rw [step, afterwards_gossipRound]
    exact (world.touches_acted index _).logs
  | join node protocol =>
    simp only [step, join, register, Network.register]
    split <;> exact logs_of_eq rfl rfl rfl
  | register id endpoint =>
    simp only [step, register, Network.register]
    split <;> exact logs_of_eq rfl rfl rfl
  | setDropRate rate =>
    simp only [step, Network.setDropRate, NetworkConfig.checkDropRate]
    split <;> exact logs_of_eq rfl rfl rfl
  | turn position => exact logs_takeTurn world position
  | addPeer _ _ | shutdown _ | unregister _ | setClock _ | close | startRounds _ | stopRounds | fire
  | pass _ | setWall _ => exact logs_of_eq rfl rfl rfl
  | setLatency _ | setJitter _ => cases h

/-- What is written down stays written down. -/
theorem journal_run (world : World σ k) (moves : List (Move k)) :
    world.journal <:+ (world.run moves).journal := by
  induction moves generalizing world with
  | nil => exact List.suffix_rfl
  | cons move rest ih =>
    refine List.IsSuffix.trans ?_ (ih (world.step move))
    cases hdelay : move.setsDelay with
    | false => exact (world.logs_step hdelay).grows
    | true =>
      cases move with
      | setLatency _ | setJitter _ => exact List.suffix_rfl
      | _ => cases hdelay

/-- In a run that leaves the delays alone every send is given a delay that the network can roll at
its beginning. -/
theorem logs_run (world : World σ k) {moves : List (Move k)}
    (h : ∀ move ∈ moves, move.setsDelay = false) : world.Logs (world.run moves) := by
  induction moves generalizing world with
  | nil => exact logs_of_eq rfl rfl rfl
  | cons move rest ih =>
    have hfirst := world.logs_step (h move List.mem_cons_self)
    exact hfirst.trans (ih _ fun other hmem => h other (List.mem_cons_of_mem move hmem))

end World

end Epidemic
