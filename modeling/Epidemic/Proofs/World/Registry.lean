import Epidemic.Proofs.World.Deliveries

/-!
# What the registry has been

A message that is delivered is given to the endpoint that is registered under its target at that
moment. What this endpoint is depends on the registrations and removals until then, and on nothing
that was registered when the message was sent. So the incidents of a run are written down: what
happens to the registry, and what deliveries meet there. An endpoint is in force under an id if it was
registered under it and this has not been changed since, and the registry is always what is in force.

Whatever else happens, be it to nodes or by nodes, is no incident: it leaves the registry alone and
puts sends in transit.
-/

namespace Epidemic

/-- Something that happens to the registry, or that a delivery meets there. -/
inductive Incident where
  /-- An endpoint is registered under an id. -/
  | registered (id : NodeId) (endpoint : Endpoint)
  /-- An endpoint is not registered, because the id has one. -/
  | rejected (id : NodeId) (endpoint : Endpoint)
  /-- The endpoint under an id is taken away, if there is one. -/
  | removed (id : NodeId)
  /-- An endpoint is called with a message. -/
  | called (endpoint : Endpoint) (parcel : Parcel)
  /-- A message finds no endpoint. -/
  | missed (parcel : Parcel)

namespace Event

/-- The message and its outcome, where an event says what a delivery has come to. -/
def verdict? : Event → Option (Parcel × Outcome)
  | .arrived _ parcel _ => some (parcel, .delivered)
  | .unclaimed _ parcel => some (parcel, .undeliverable)
  | _ => none

/-- Whether an event says that a send could not be scheduled. -/
def isDiscarded : Event → Bool
  | .posted _ _ .unscheduled => true
  | _ => false

end Event

namespace Incident

/-- Whether an incident changes what is registered under an id. -/
def rebinds (id : NodeId) : Incident → Bool
  | .registered other _ => other == id
  | .removed other => other == id
  | _ => false

/-- The message and its outcome, where an incident is a delivery. -/
def verdict? : Incident → Option (Parcel × Outcome)
  | .called _ parcel => some (parcel, .delivered)
  | .missed parcel => some (parcel, .undeliverable)
  | _ => none

/-- Whether an endpoint is called. -/
def isCall : Incident → Bool
  | .called _ _ => true
  | _ => false

/-- Whether a message finds no endpoint. -/
def isMiss : Incident → Bool
  | .missed _ => true
  | _ => false

/-- Whether an endpoint is in force under an id after some incidents: it was registered, and nothing
has changed what is registered under the id since then. -/
def InForce (log : List Incident) (id : NodeId) (endpoint : Endpoint) : Prop :=
  ∃ past since, log = past ++ .registered id endpoint :: since ∧
    ∀ incident ∈ since, incident.rebinds id = false

/-- Whether an incident is as what is in force before it demands. -/
def Fits (past : List Incident) : Incident → Prop
  | .registered id _ => ∀ endpoint, ¬InForce past id endpoint
  | .rejected id _ => ∃ endpoint, InForce past id endpoint
  | .removed _ => True
  | .called endpoint parcel => InForce past parcel.envelope.target endpoint
  | .missed parcel => ∀ endpoint, ¬InForce past parcel.envelope.target endpoint

variable {log past since : List Incident} {incident : Incident} {id : NodeId} {endpoint : Endpoint}

/-- What was registered within some incidents is in force after them, or what was in force before
them still is. -/
theorem inForce_append : InForce (past ++ since) id endpoint ↔
    InForce since id endpoint ∨
      InForce past id endpoint ∧ ∀ incident ∈ since, incident.rebinds id = false := by
  constructor
  · rintro ⟨before, after, heq, hafter⟩
    rcases List.append_eq_append_iff.mp heq with ⟨middle, rfl, hsince⟩ | ⟨middle, rfl, hmiddle⟩
    · exact Or.inl ⟨middle, after, hsince, hafter⟩
    · cases middle with
      | nil => exact Or.inl ⟨[], after, hmiddle.symm, hafter⟩
      | cons first middle =>
        rw [List.cons_append, List.cons.injEq] at hmiddle
        obtain ⟨rfl, rfl⟩ := hmiddle
        refine Or.inr ⟨⟨before, middle, rfl, fun other hmem => ?_⟩, fun other hmem => ?_⟩
        · exact hafter other (List.mem_append_left since hmem)
        · exact hafter other (List.mem_append_right middle hmem)
  · rintro (⟨before, after, rfl, hafter⟩ | ⟨⟨before, after, rfl, hafter⟩, hsince⟩)
    · exact ⟨past ++ before, after, (List.append_assoc _ _ _).symm, hafter⟩
    · refine ⟨before, after ++ since, by rw [List.append_assoc, List.cons_append], ?_⟩
      exact fun other hmem => (List.mem_append.mp hmem).elim (hafter other) (hsince other)

/-- After one incident more, an endpoint is in force if it was just registered, or if it was in force
and this has not just been changed. -/
theorem inForce_concat : InForce (log ++ [incident]) id endpoint ↔
    incident = .registered id endpoint ∨
      InForce log id endpoint ∧ incident.rebinds id = false := by
  have hone : InForce [incident] id endpoint ↔ incident = .registered id endpoint := by
    constructor
    · rintro ⟨before, after, heq, -⟩
      cases before with
      | nil => exact (List.cons.inj heq).1
      | cons first before => exact absurd (List.cons.inj heq).2 (by simp)
    · rintro rfl
      exact ⟨[], [], rfl, fun _ hmem => absurd hmem List.not_mem_nil⟩
  rw [inForce_append, hone, List.forall_mem_singleton]

/-- An incident that is no registration and no removal leaves everything in force. -/
theorem inForce_concat_of_still (h : ∀ id, incident.rebinds id = false) :
    InForce (log ++ [incident]) id endpoint ↔ InForce log id endpoint := by
  rw [inForce_concat, h id]
  constructor
  · rintro (rfl | ⟨hforce, -⟩)
    · exact absurd (h id) (by simp [rebinds])
    · exact hforce
  · exact fun hforce => Or.inr ⟨hforce, rfl⟩

/-- Nothing is in force before anything was registered. -/
theorem not_inForce_nil : ¬InForce [] id endpoint := by
  rintro ⟨past, since, heq, -⟩
  exact absurd heq (by simp)

/-- Whether every incident is as what was in force before it demanded. -/
def Lawful (log : List Incident) : Prop :=
  ∀ past incident since, log = past ++ incident :: since → incident.Fits past

/-- One incident more that is as it has to be. -/
theorem Lawful.concat (h : Lawful log) (hfits : incident.Fits log) :
    Lawful (log ++ [incident]) := by
  intro past other since heq
  rcases List.eq_nil_or_concat since with rfl | ⟨since, last, rfl⟩
  · obtain ⟨rfl, rfl⟩ := List.append_singleton_inj.mp heq
    exact hfits
  · rw [List.concat_eq_append, ← List.cons_append, ← List.append_assoc] at heq
    exact h past other since (List.append_singleton_inj.mp heq).1

end Incident

namespace Network

variable {σ : Type}

/-- What is found under an id after a registration under an id that had no endpoint. -/
theorem endpoint?_registered {network : Network σ} {id : NodeId} {endpoint : Endpoint}
    (hfree : network.endpoint? id = none) (other : NodeId) :
    ({ network with registry := network.registry ++ [(id, endpoint)] } : Network σ).endpoint? other =
      if other = id then some endpoint else network.endpoint? other := by
  have happend : ({ network with
      registry := network.registry ++ [(id, endpoint)] } : Network σ).endpoint? other =
        (network.endpoint? other).or ([(id, endpoint)].lookup other) := List.lookup_append
  rw [happend, List.lookup_cons, List.lookup_nil]
  by_cases hother : other = id
  · rw [if_pos hother, hother, hfree, beq_self_eq_true, Option.none_or]
  · rw [if_neg hother, beq_eq_false_iff_ne.mpr hother, Option.or_none]

/-- What is found under an id after a removal. -/
theorem endpoint?_unregister (network : Network σ) (id other : NodeId) :
    (network.unregister id).2.endpoint? other =
      if other = id then none else network.endpoint? other := by
  simp only [unregister, endpoint?]
  induction network.registry with
  | nil => rw [List.filter_nil, List.lookup_nil, ite_self]
  | cons entry rest ih =>
    obtain ⟨name, endpoint⟩ := entry
    by_cases hname : name = id
    · rw [List.filter_cons_of_neg (by simp [hname]), ih, List.lookup_cons, hname]
      by_cases hother : other = id
      · rw [if_pos hother, if_pos hother]
      · rw [if_neg hother, if_neg hother, beq_eq_false_iff_ne.mpr hother]
    · rw [List.filter_cons_of_pos (by simpa using hname), List.lookup_cons, List.lookup_cons, ih]
      by_cases hother : other = name
      · simp only [hother, beq_self_eq_true, if_neg hname]
      · simp only [beq_eq_false_iff_ne.mpr hother]

end Network

namespace World

variable {σ : Type} {k : Nat}

/-! ## Incidents -/

/-- What comes of the registration of an endpoint. -/
def registration (world : World σ k) (id : NodeId) (endpoint : Endpoint) : Incident :=
  if world.network.isRegistered id then .rejected id endpoint else .registered id endpoint

/-- What the delivery of a message meets. -/
def delivery (world : World σ k) (parcel : Parcel) : Incident :=
  match world.network.endpoint? parcel.envelope.target with
  | none => .missed parcel
  | some endpoint => .called endpoint parcel

/-- A delivery is of the message that is delivered. -/
theorem exists_verdict_delivery (world : World σ k) (parcel : Parcel) :
    ∃ outcome, (world.delivery parcel).verdict? = some (parcel, outcome) := by
  rw [delivery]
  split
  · exact ⟨.undeliverable, rfl⟩
  · exact ⟨.delivered, rfl⟩

/-- A delivery changes nothing in the registry. -/
theorem rebinds_delivery (world : World σ k) (parcel : Parcel) (id : NodeId) :
    (world.delivery parcel).rebinds id = false := by
  rw [delivery]
  split
  · rfl
  · rfl

/-- The incidents of a move. -/
def incidentsBy (world : World σ k) : Move k → List Incident
  | .register id endpoint => [world.registration id endpoint]
  | .join node _ => [world.registration node.id (.node world.members.length)]
  | .unregister id => [.removed id]
  | .turn position =>
    match world.agenda.ready[position]? with
    | some (.parcel 0 parcel) => [world.delivery parcel]
    | _ => []
  | _ => []

/-- The incident of a turn in which a message is delivered. -/
theorem incidentsBy_delivery {world : World σ k} {position : Nat} {parcel : Parcel}
    (hat : world.agenda.ready[position]? = some (.parcel 0 parcel)) :
    world.incidentsBy (.turn position) = [world.delivery parcel] := by
  rw [incidentsBy, hat]
  rfl

/-- The sends that were given a delay, in their order. -/
def scheduled (world : World σ k) : List Parcel := world.bookings.map (·.parcel)

/-- What deliveries have come to, in their order, as it is written down. -/
def verdicts (world : World σ k) : List (Parcel × Outcome) :=
  world.journal.reverse.filterMap Event.verdict?

variable {world middle after : World σ k} {log : List Incident} {parcel : Parcel} {id : NodeId}
  {endpoint : Endpoint}

/-- One more entry of the journal. -/
theorem verdicts_record (world : World σ k) (event : Event) :
    (world.record event).verdicts = world.verdicts ++ event.verdict?.toList :=
  filterMap_record Event.verdict? world event

/-- An endpoint is not registered under an id that has one. -/
theorem register_of_taken (h : world.network.isRegistered id = true) (endpoint : Endpoint) :
    world.register id endpoint = .error (.duplicateNode id) := by
  rw [World.register, Network.register, if_pos h]
  rfl

/-- An endpoint is registered under an id that has none. -/
theorem register_of_free (h : ¬world.network.isRegistered id = true) (endpoint : Endpoint) :
    world.register id endpoint = .ok (world.withNetwork
      { world.network with registry := world.network.registry ++ [(id, endpoint)] }) := by
  rw [World.register, Network.register, if_neg h]
  rfl

/-- As long as nothing is written down nothing is scheduled. -/
theorem scheduled_congr (h : after.journal = world.journal) : after.scheduled = world.scheduled := by
  simp only [scheduled, bookings, h]

/-! ## What is no incident -/

/-- How a world may change while nothing happens to the registry and nothing is delivered: sends that
are given a delay come to be in transit. -/
structure Posts (world after : World σ k) : Prop where
  /-- The registry stays. -/
  registry : after.network.registry = world.network.registry
  /-- Nothing is delivered. -/
  verdicts : after.verdicts = world.verdicts
  /-- The sends that are given a delay are in transit, with those that were before. -/
  transit : ∃ parcels, after.scheduled = world.scheduled ++ parcels ∧
    after.pending.Perm (parcels ++ world.pending)

/-- Nothing is sent. -/
theorem posts_of_eq (hregistry : after.network.registry = world.network.registry)
    (hjournal : after.journal = world.journal) (hpending : after.pending.Perm world.pending) :
    world.Posts after where
  registry := hregistry
  verdicts := by rw [World.verdicts, hjournal, World.verdicts]
  transit := ⟨[], (scheduled_congr hjournal).trans (List.append_nil _).symm, hpending⟩

/-- Sends may be put in transit one after the other. -/
theorem Posts.trans (h : world.Posts middle) (h' : middle.Posts after) : world.Posts after where
  registry := h'.registry.trans h.registry
  verdicts := h'.verdicts.trans h.verdicts
  transit := by
    obtain ⟨earlier, hearlier, hmiddle⟩ := h.transit
    obtain ⟨later, hlater, hafter⟩ := h'.transit
    refine ⟨earlier ++ later, by rw [hlater, hearlier, List.append_assoc], ?_⟩
    have hall := hafter.trans (hmiddle.append_left later)
    rw [← List.append_assoc] at hall
    exact hall.trans (List.perm_append_comm.append_right world.pending)

/-- It does not matter what is written down of other things than sends and deliveries. -/
theorem Posts.recordOther (h : world.Posts after) {event : Event} (hbooking : event.booking? = none)
    (hverdict : event.verdict? = none) : world.Posts (after.record event) where
  registry := h.registry
  verdicts := by
    rw [verdicts_record, hverdict, h.verdicts]
    exact List.append_nil _
  transit := by
    obtain ⟨parcels, hscheduled, hpending⟩ := h.transit
    refine ⟨parcels, ?_, hpending⟩
    rw [scheduled, bookings_record, hbooking, Option.toList_none, List.append_nil]
    exact hscheduled

section Sends

variable [Random.Source σ]

/-- What is scheduled after a send is what the network puts in transit. -/
theorem scheduled_send (world : World σ k) (envelope : Envelope) :
    (world.send envelope).scheduled =
      world.scheduled ++
        world.network.dispatch.1.inTransit ⟨world.network.stats.sent, envelope⟩ := by
  obtain ⟨agenda, heq, -⟩ := send_eq world envelope
  have hbookings := bookings_record world
    (.posted world.agenda.now ⟨world.network.stats.sent, envelope⟩ world.network.dispatch.1)
  have hscheduled : (world.send envelope).scheduled =
      (world.record (.posted world.agenda.now ⟨world.network.stats.sent, envelope⟩
        world.network.dispatch.1)).scheduled := by
    rw [heq]
    rfl
  rw [hscheduled, scheduled, hbookings, List.map_append]
  cases world.network.dispatch.1 <;> rfl

/-- A send that is given a delay comes to be in transit. -/
theorem posts_send (world : World σ k) (envelope : Envelope) : world.Posts (world.send envelope) := by
  obtain ⟨agenda, heq, hpending⟩ := send_eq world envelope
  obtain ⟨generator, stats, hnetwork⟩ := world.network.dispatch_keeps
  refine ⟨?_, ?_, _, scheduled_send world envelope, ?_⟩
  · rw [heq, hnetwork]
  · rw [heq]
    exact (verdicts_record world _).trans (List.append_nil _)
  · rw [heq]
    exact hpending

/-- So do several sends. -/
theorem posts_sendAll (world : World σ k) (envelopes : List Envelope) :
    world.Posts (world.sendAll envelopes) := by
  induction envelopes generalizing world with
  | nil => exact posts_of_eq rfl rfl (List.Perm.refl _)
  | cons envelope rest ih => exact (posts_send world envelope).trans (ih (world.send envelope))

/-- Whatever is done to a node, its sends come to be in transit. -/
theorem posts_acted (world : World σ k) (index : Nat) (deed : Deed) :
    world.Posts (world.acted index deed) := by
  cases hat : world.members[index]? with
  | none =>
    rw [acted_of_none hat]
    exact posts_of_eq rfl rfl (List.Perm.refl _)
  | some member =>
    have hreplaced : world.Posts (world.replace index
        { member with node := ((world.lifeOf member).step world.wall deed).1.node }
        ((world.lifeOf member).step world.wall deed).1.protocol) :=
      posts_of_eq rfl rfl (List.Perm.refl _)
    rw [acted_of_some hat]
    exact hreplaced.trans (posts_sendAll _ _)

/-- So do those of rumor rounds. -/
theorem posts_roundOf (world : World σ k) (indexes : List Nat) :
    world.Posts (world.roundOf indexes) := by
  induction indexes generalizing world with
  | nil => exact posts_of_eq rfl rfl (List.Perm.refl _)
  | cons index rest ih =>
    rcases world.roundOf_cons index rest with ⟨-, heq⟩ | ⟨_, -, heq⟩
    · rw [heq]
      exact ih world
    · rw [heq]
      exact ((world.posts_acted index .gossipRound).recordOther rfl rfl).trans (ih _)

/-- Those of a rumor round of all nodes do so too. -/
theorem posts_roundOfAll (world : World σ k) (interval : Nat) :
    world.Posts (world.roundOfAll interval) := by
  rw [roundOfAll]
  split
  · exact posts_of_eq rfl rfl (List.Perm.refl _)
  · exact (posts_roundOf world _).trans (posts_of_eq rfl rfl (perm_pending_schedule _ _ _))

/-- A turn that delivers nothing only puts sends in transit. -/
theorem posts_takeTurn {position : Nat}
    (h : ∀ parcel, world.agenda.ready[position]? ≠ some (.parcel 0 parcel)) :
    world.Posts (world.takeTurn position) := by
  rw [takeTurn]
  split
  · exact posts_of_eq rfl rfl (List.Perm.refl _)
  · rename_i task hat
    have hpending := perm_pending_withReady hat
    cases task with
    | parcel delay parcel =>
      cases delay with
      | zero => exact absurd hat (h parcel)
      | succ delay =>
        -- The message stays in transit: it leaves the queue for a timer.
        exact posts_of_eq rfl rfl ((perm_pending_schedule _ _ _).trans hpending.symm)
    | rounds interval =>
      have hbare : world.Posts (world.withReady (world.agenda.ready.eraseIdx position)) :=
        posts_of_eq rfl rfl hpending.symm
      exact hbare.trans (posts_roundOfAll _ interval)

/-- So does every move without incidents. -/
theorem posts_step {move : Move k} (h : world.incidentsBy move = []) :
    world.Posts (world.step move) := by
  cases move with
  | send envelope => exact posts_send world envelope
  | broadcast index id kind payload =>
    rw [step, afterwards_broadcast]
    exact posts_acted world index _
  | receive index message sender =>
    rw [step, afterwards_receive]
    exact posts_acted world index _
  | gossipRound index =>
    rw [step, afterwards_gossipRound]
    exact posts_acted world index _
  | setDropRate rate =>
    simp only [step, Network.setDropRate, NetworkConfig.checkDropRate]
    split <;> exact posts_of_eq rfl rfl (List.Perm.refl _)
  | startRounds interval => exact posts_of_eq rfl rfl (perm_pending_schedule world _ _)
  | stopRounds => exact posts_of_eq rfl rfl (List.Perm.of_eq (pending_stopRounds world))
  | turn position =>
    refine posts_takeTurn fun parcel hat => ?_
    rw [incidentsBy, hat] at h
    cases h
  | fire => exact posts_of_eq rfl rfl (List.Perm.of_eq (pending_fire world))
  | addPeer _ _ | shutdown _ | setLatency _ | setJitter _ | setClock _ | close | pass _
  | setWall _ => exact posts_of_eq rfl rfl (List.Perm.refl _)
  | join _ _ | register _ _ | unregister _ => cases h

/-- A delivery is what its target does about the message, and an entry of the journal that says what
it has met. -/
theorem exists_deliver_eq (world : World σ k) (parcel : Parcel) :
    ∃ (acted : World σ k) (event : Event), world.Posts acted ∧ event.booking? = none ∧
      event.verdict? = (world.delivery parcel).verdict? ∧
        world.deliver parcel = acted.record event := by
  have hcounted : world.Posts (world.withNetwork world.network.countDelivered) :=
    posts_of_eq rfl rfl (List.Perm.refl _)
  rcases world.deliver_cases parcel with ⟨hendpoint, hdeliver⟩ | ⟨_, _, hendpoint, -, hdeliver⟩ |
    ⟨index, _, hendpoint, -, hdeliver⟩
  · have hlost : world.Posts (world.withNetwork world.network.countUndeliverable) :=
      posts_of_eq rfl rfl (List.Perm.refl _)
    refine ⟨_, _, hlost, rfl, ?_, hdeliver⟩
    rw [delivery, hendpoint]
    rfl
  · refine ⟨_, _, hcounted, rfl, ?_, hdeliver⟩
    rw [delivery, hendpoint]
    rfl
  · refine ⟨_, _, hcounted.trans (posts_acted _ index _), rfl, ?_, hdeliver⟩
    rw [delivery, hendpoint]
    rfl

end Sends

/-! ## The ledger -/

/-- Whether the incidents of a world are what its registry and its journal show. -/
structure Ledger (log : List Incident) (world : World σ k) : Prop where
  /-- What is registered is what is in force. -/
  bound : ∀ id endpoint, world.network.endpoint? id = some endpoint ↔
    Incident.InForce log id endpoint
  /-- No id is registered twice. -/
  unique : (world.network.registry.map Prod.fst).Nodup
  /-- What deliveries have met is written down. -/
  verdicts : world.verdicts = log.filterMap Incident.verdict?
  /-- Every send that was given a delay was delivered once, or is in transit. -/
  conserved : world.scheduled.Perm
    ((log.filterMap Incident.verdict?).map Prod.fst ++ world.pending)
  /-- Every incident is as what was in force demanded. -/
  lawful : Incident.Lawful log

/-- In a world without nodes nothing has happened. -/
theorem ledger_new {config : NetworkConfig} {generator : σ} {hasClock : Bool} {network : Network σ}
    (h : Network.new config generator hasClock = .ok network) (protocols : Vector (Protocol σ) k)
    (wall : Nat) : Ledger [] (World.new network protocols wall) := by
  have hworld : (World.new network protocols wall).network.registry = [] := by
    rw [Network.eq_of_new h]
    rfl
  refine ⟨fun id endpoint => ?_, ?_, rfl, List.Perm.refl _, fun past incident since heq => ?_⟩
  · rw [Network.endpoint?, hworld]
    exact iff_of_false (Option.some_ne_none endpoint).symm Incident.not_inForce_nil
  · rw [hworld]
    exact List.nodup_nil
  · exact absurd heq (by simp)

/-- Nothing is in force under an id under which nothing is registered. -/
theorem Ledger.not_inForce (h : Ledger log world) (hnone : world.network.endpoint? id = none) :
    ¬Incident.InForce log id endpoint := by
  rw [← h.bound, hnone]
  exact (Option.some_ne_none endpoint).symm

/-- What is no incident leaves the ledger as it is. -/
theorem Ledger.posts (h : Ledger log world) (hposts : world.Posts after) : Ledger log after where
  bound id endpoint := by
    rw [Network.endpoint?, hposts.registry]
    exact h.bound id endpoint
  unique := hposts.registry ▸ h.unique
  verdicts := hposts.verdicts.trans h.verdicts
  conserved := by
    obtain ⟨parcels, hscheduled, hpending⟩ := hposts.transit
    rw [hscheduled]
    have hbehind := (h.conserved.append_right parcels).trans (List.Perm.of_eq (List.append_assoc _ _ _))
    exact hbehind.trans ((List.perm_append_comm.trans hpending.symm).append_left _)
  lawful := h.lawful

/-- What happens to the registry is written into the ledger. -/
theorem Ledger.rebind (h : Ledger log world) {incident : Incident} {network : Network σ}
    (hverdict : incident.verdict? = none) (hfits : incident.Fits log)
    (hbound : ∀ id endpoint, network.endpoint? id = some endpoint ↔
      Incident.InForce (log ++ [incident]) id endpoint)
    (hunique : (network.registry.map Prod.fst).Nodup) :
    Ledger (log ++ [incident]) (world.withNetwork network) := by
  have hlog : (log ++ [incident]).filterMap Incident.verdict? = log.filterMap Incident.verdict? := by
    rw [List.filterMap_append, List.filterMap_cons_none hverdict, List.filterMap_nil,
      List.append_nil]
  refine ⟨hbound, hunique, ?_, ?_, h.lawful.concat hfits⟩
  · rw [hlog]
    exact h.verdicts
  · rw [hlog]
    exact h.conserved

/-- A registration is written into the ledger, and so is one that is rejected. -/
theorem Ledger.register (h : Ledger log world) (id : NodeId) (endpoint : Endpoint) :
    Ledger (log ++ [world.registration id endpoint])
      (world.unlessRefused (world.register id endpoint)) := by
  cases hendpoint : world.network.endpoint? id with
  | some other =>
    have htaken : world.network.isRegistered id = true := by
      rw [Network.isRegistered, hendpoint, Option.isSome_some]
    rw [registration, if_pos htaken, register_of_taken htaken]
    refine h.rebind rfl ⟨other, (h.bound id other).mp hendpoint⟩ (fun id' endpoint' => ?_) h.unique
    exact (h.bound id' endpoint').trans (Incident.inForce_concat_of_still fun _ => rfl).symm
  | none =>
    have hfree : ¬world.network.isRegistered id = true := by
      rw [Network.isRegistered, hendpoint]
      exact Bool.false_ne_true
    rw [registration, if_neg hfree, register_of_free hfree]
    refine h.rebind rfl (fun other => h.not_inForce hendpoint) (fun id' endpoint' => ?_) ?_
    · rw [Network.endpoint?_registered hendpoint, Incident.inForce_concat, ← h.bound]
      by_cases hid : id' = id
      · subst hid
        simp [Incident.rebinds]
      · simp [Incident.rebinds, hid, Ne.symm hid]
    · rw [List.map_append]
      refine List.nodup_append.mpr ⟨h.unique, List.nodup_singleton _, ?_⟩
      rintro name hname other hother rfl
      obtain ⟨entry, hentry, hid⟩ := List.mem_map.mp hname
      have hnew : id ≠ entry.1 := bne_iff_ne.mp (List.lookup_eq_none_iff.mp hendpoint entry hentry)
      exact hnew ((List.mem_singleton.mp hother).symm.trans hid.symm)

/-- A removal is written into the ledger. -/
theorem Ledger.unregister (h : Ledger log world) (id : NodeId) :
    Ledger (log ++ [.removed id]) (world.withNetwork (world.network.unregister id).2) := by
  refine h.rebind rfl trivial (fun id' endpoint => ?_) ?_
  · rw [Network.endpoint?_unregister, Incident.inForce_concat, ← h.bound]
    by_cases hid : id' = id
    · simp [Incident.rebinds, hid]
    · simp [Incident.rebinds, hid, Ne.symm hid]
  · exact h.unique.sublist (List.filter_sublist.map Prod.fst)

/-- What a delivery meets is as what is in force demands. -/
theorem Ledger.fits_delivery (h : Ledger log world) (parcel : Parcel) :
    (world.delivery parcel).Fits log := by
  rw [delivery]
  cases hendpoint : world.network.endpoint? parcel.envelope.target with
  | none => exact fun endpoint => h.not_inForce hendpoint
  | some endpoint => exact (h.bound _ endpoint).mp hendpoint

variable [Random.Source σ]

/-- The delivery of a message that is taken from the agenda is written into the ledger. -/
theorem Ledger.deliver {ready : List Task} (h : Ledger log world)
    (hpending : world.pending.Perm (parcel :: (world.withReady ready).pending)) :
    Ledger (log ++ [world.delivery parcel]) ((world.withReady ready).deliver parcel) := by
  obtain ⟨acted, event, hposts, hbooking, hverdict, hdeliver⟩ :=
    exists_deliver_eq (world.withReady ready) parcel
  obtain ⟨outcome, houtcome⟩ := world.exists_verdict_delivery parcel
  have hlog : (log ++ [world.delivery parcel]).filterMap Incident.verdict? =
      log.filterMap Incident.verdict? ++ [(parcel, outcome)] := by
    rw [List.filterMap_append, List.filterMap_cons_some houtcome, List.filterMap_nil]
  rw [hdeliver]
  refine ⟨fun id endpoint => ?_, ?_, ?_, ?_, h.lawful.concat (h.fits_delivery parcel)⟩
  · rw [Incident.inForce_concat_of_still (world.rebinds_delivery parcel), ← h.bound,
      Network.endpoint?, Network.endpoint?]
    exact hposts.registry ▸ Iff.rfl
  · exact hposts.registry ▸ h.unique
  · have hbefore : acted.verdicts = world.verdicts := hposts.verdicts
    have hmet : event.verdict? = some (parcel, outcome) := hverdict.trans houtcome
    rw [verdicts_record, hbefore, h.verdicts, hmet, hlog]
    rfl
  · obtain ⟨parcels, hscheduled, htransit⟩ := hposts.transit
    have hbooked : (acted.record event).scheduled = world.scheduled ++ parcels := by
      rw [scheduled, bookings_record, hbooking, Option.toList_none, List.append_nil]
      exact hscheduled
    have hrest : (world.pending ++ parcels).Perm (parcel :: acted.pending) :=
      (hpending.append_right parcels).trans
        ((List.perm_append_comm.trans htransit.symm).cons parcel)
    have hall := h.conserved.append_right parcels
    rw [List.append_assoc] at hall
    rw [hbooked, hlog, List.map_append, List.append_assoc]
    exact hall.trans (hrest.append_left _)

/-- The incidents of every move are written into the ledger. -/
theorem Ledger.step (h : Ledger log world) (move : Move k) :
    Ledger (log ++ world.incidentsBy move) (world.step move) := by
  have hother : world.incidentsBy move = [] →
      Ledger (log ++ world.incidentsBy move) (world.step move) := by
    intro hnone
    rw [hnone, List.append_nil]
    exact h.posts (posts_step hnone)
  cases move with
  | register id endpoint => exact h.register id endpoint
  | unregister id => exact h.unregister id
  | join node protocol =>
    refine (h.register node.id (.node world.members.length)).posts ?_
    simp only [World.step, World.join]
    cases world.register node.id (.node world.members.length) with
    | error fault => exact posts_of_eq rfl rfl (List.Perm.refl _)
    | ok registered => exact posts_of_eq rfl rfl (List.Perm.refl _)
  | turn position =>
    cases hat : world.agenda.ready[position]? with
    | none => exact hother (by rw [incidentsBy, hat])
    | some task =>
      cases task with
      | rounds interval => exact hother (by rw [incidentsBy, hat])
      | parcel delay parcel =>
        cases delay with
        | succ delay => exact hother (by rw [incidentsBy, hat]; rfl)
        | zero =>
          rw [incidentsBy_delivery hat, World.step, World.takeTurn, hat]
          exact h.deliver (perm_pending_withReady hat)
  | _ => exact hother rfl

/-- The incidents of a run. -/
def incidents (world : World σ k) : List (Move k) → List Incident
  | [] => []
  | move :: rest => world.incidentsBy move ++ (world.step move).incidents rest

/-- The incidents of a run are those of its moves. -/
theorem incidents_append (world : World σ k) (earlier later : List (Move k)) :
    world.incidents (earlier ++ later) =
      world.incidents earlier ++ (world.run earlier).incidents later := by
  induction earlier generalizing world with
  | nil => rfl
  | cons move rest ih =>
    rw [List.cons_append, incidents, ih, incidents, List.append_assoc]
    rfl

/-- The incidents of every run are written into the ledger. -/
theorem Ledger.run (h : Ledger log world) (moves : List (Move k)) :
    Ledger (log ++ world.incidents moves) (world.run moves) := by
  induction moves generalizing world log with
  | nil => 
    rw [incidents, List.append_nil]
    exact h
  | cons move rest ih =>
    rw [incidents, ← List.append_assoc]
    exact ih (h.step move)

end World

end Epidemic
