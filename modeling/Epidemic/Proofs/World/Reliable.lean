import Epidemic.Proofs.World.Transit

/-!
# Reliable networks

A network that loses nothing and has a clock schedules every send. So handing over several sends
puts exactly these in transit, and nothing else of the world changes but counters, journal and
generator.
-/

namespace Epidemic

/-- Whether nothing is lost, everything can be delivered, and nodes can reach the network. -/
structure Network.Reliable {σ : Type} (network : Network σ) : Prop where
  /-- There is a clock. -/
  hasClock : network.hasClock = true
  /-- Nodes can hand over sends. -/
  isOpen : network.isOpen = true
  /-- The loss rate is not positive. -/
  dropRate : network.config.dropRate.isPositive = false

namespace Network

variable {σ : Type} [Random.Source σ]

/-- Handing over a send changes the generator and the counters of a network. -/
theorem dispatch_keeps (network : Network σ) :
    ∃ generator stats, network.dispatch.2 = { network with generator, stats } := by
  unfold dispatch
  obtain ⟨delay, generator⟩ := roll network.config network.generator
  cases delay with
  | none => exact ⟨_, _, rfl⟩
  | some delay =>
    dsimp only
    split
    · exact ⟨_, _, rfl⟩
    · exact ⟨_, _, rfl⟩

/-- A reliable network schedules every send. -/
theorem Reliable.inTransit_dispatch {network : Network σ} (h : network.Reliable) (parcel : Parcel) :
    network.dispatch.1.inTransit parcel = [parcel] := by
  have hroll : ∃ delay generator,
      roll network.config network.generator = (some delay, generator) := by
    rw [roll, h.dropRate]
    exact ⟨_, _, rfl⟩
  obtain ⟨delay, generator, hroll⟩ := hroll
  rw [dispatch, hroll]
  dsimp only
  rw [if_pos h.hasClock]
  rfl

end Network

namespace World

variable {σ : Type} {k : Nat}

/-- The sends whose messages are in transit. -/
def transit (world : World σ k) : List Envelope := world.pending.map (·.envelope)

/-- Without its ready task at a position a world lacks the send of this task. -/
theorem perm_transit_withReady {world : World σ k} {position : Nat} {task : Task}
    (h : world.agenda.ready[position]? = some task) :
    world.transit.Perm ((task.parcel?.map (·.envelope)).toList ++
      (world.withReady (world.agenda.ready.eraseIdx position)).transit) := by
  have htransit := (perm_pending_withReady h).map (·.envelope)
  cases task with
  | parcel delay parcel => exact htransit
  | rounds interval => exact htransit

/-- A send whose message waits is in transit. -/
theorem perm_transit_schedule (world : World σ k) (delay : Nat) (task : Task) :
    ({ world with agenda := world.agenda.schedule delay task } : World σ k).transit.Perm
      ((task.parcel?.map (·.envelope)).toList ++ world.transit) := by
  have htransit := (perm_pending_schedule world delay task).map (·.envelope)
  cases task with
  | parcel delay parcel => exact htransit
  | rounds interval => exact htransit

/-- When timers fire the same sends are in transit. -/
theorem transit_fire (world : World σ k) :
    ({ world with agenda := world.agenda.fire } : World σ k).transit = world.transit := by
  rw [transit, pending_fire, transit]

/-- So they are when the rumor rounds end. -/
theorem transit_stopRounds (world : World σ k) : world.stopRounds.transit = world.transit := by
  rw [transit, pending_stopRounds, transit]

/-- What becomes of a world when sends are handed to a reliable network. -/
structure Carries (world : World σ k) (sends : List Envelope) (after : World σ k) : Prop where
  /-- The members stay what they are. -/
  members : after.members = world.members
  /-- So do their protocols. -/
  protocols : after.protocols = world.protocols
  /-- The network changes its generator and its counters. -/
  network : ∃ generator stats, after.network = { world.network with generator, stats }
  /-- The sends are in transit, and what was before. -/
  transit : after.transit.Perm (sends ++ world.transit)

/-- Nothing is changed if nothing is sent. -/
theorem carries_nil (world : World σ k) : world.Carries [] world :=
  ⟨rfl, rfl, ⟨_, _, rfl⟩, List.Perm.refl _⟩

/-- Sends may be handed over one after the other. -/
theorem Carries.trans {first second third : World σ k} {earlier later : List Envelope}
    (h : first.Carries earlier second) (h' : second.Carries later third) :
    first.Carries (earlier ++ later) third where
  members := h'.members.trans h.members
  protocols := h'.protocols.trans h.protocols
  network := by
    obtain ⟨generator, stats, hnetwork⟩ := h.network
    obtain ⟨generator', stats', hnetwork'⟩ := h'.network
    rw [hnetwork] at hnetwork'
    exact ⟨generator', stats', hnetwork'⟩
  transit := by
    have hrest := h'.transit.trans (h.transit.append_left later)
    rw [← List.append_assoc] at hrest
    exact hrest.trans (List.perm_append_comm.append_right _)

/-- What is sent over a reliable network leaves it reliable. -/
theorem Carries.reliable {world after : World σ k} {sends : List Envelope}
    (h : world.Carries sends after) (hreliable : world.network.Reliable) :
    after.network.Reliable := by
  obtain ⟨generator, stats, hnetwork⟩ := h.network
  rw [hnetwork]
  exact ⟨hreliable.hasClock, hreliable.isOpen, hreliable.dropRate⟩

variable [Random.Source σ]

/-- A send over a reliable network is in transit. -/
theorem carries_send {world : World σ k} (h : world.network.Reliable) (envelope : Envelope) :
    world.Carries [envelope] (world.send envelope) := by
  obtain ⟨agenda, heq, htransit⟩ := send_eq world envelope
  rw [h.inTransit_dispatch] at htransit
  rw [heq]
  refine ⟨rfl, rfl, world.network.dispatch_keeps, ?_⟩
  exact htransit.map (·.envelope)

/-- Several sends over a reliable network are in transit. -/
theorem carries_sendAll (world : World σ k) (h : world.network.Reliable)
    (envelopes : List Envelope) : world.Carries envelopes (world.sendAll envelopes) := by
  induction envelopes generalizing world with
  | nil => exact carries_nil world
  | cons envelope rest ih =>
    have hfirst := carries_send h envelope
    exact hfirst.trans (ih _ (hfirst.reliable h))

end World

end Epidemic
