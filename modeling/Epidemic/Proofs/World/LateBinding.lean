import Epidemic.Proofs.World.Progress
import Epidemic.Proofs.World.Registry

/-!
# Late binding

Which endpoint is given a message is decided when the message is delivered. In whatever order
endpoints are registered and taken away, sends are handed over and tasks have their turn: every send
that was given a delay comes, once and as it was sent, to the endpoint that is in force under its
target at that moment, or it is counted as undeliverable if there is none.
-/

namespace Epidemic

namespace Network

variable {σ : Type} [Random.Source σ]

/-- A network with a clock puts every send in transit that it does not lose. -/
theorem inTransit_of_hasClock {network : Network σ} (hclock : network.hasClock = true)
    (hkept : network.dispatch.1 ≠ .dropped) (parcel : Parcel) :
    network.dispatch.1.inTransit parcel = [parcel] := by
  revert hkept
  rw [dispatch]
  obtain ⟨delay, generator⟩ := roll network.config network.generator
  cases delay with
  | none => exact fun hkept => absurd rfl hkept
  | some delay =>
    intro _
    dsimp only
    rw [if_pos hclock]
    rfl

end Network

namespace Event

/-- Deliveries are counted by what they have come to. -/
theorem countP_delivered (events : List Event) :
    ((events.filterMap outcome?).countP fun entry => entry.2 = .delivered) =
      (events.filterMap verdict?).countP fun entry => entry.2 = .delivered := by
  rw [List.countP_filterMap, List.countP_filterMap]
  refine List.countP_congr fun event _ => ?_
  cases event with
  | posted time parcel fate => cases fate <;> exact Iff.rfl
  | arrived _ _ _ | unclaimed _ _ | round _ _ => exact Iff.rfl

/-- What is undeliverable is a delivery that has met nobody, or a send that could not be scheduled. -/
theorem countP_undeliverable (events : List Event) :
    ((events.filterMap outcome?).countP fun entry => entry.2 = .undeliverable) =
      ((events.filterMap verdict?).countP fun entry => entry.2 = .undeliverable) +
        events.countP isDiscarded := by
  rw [List.countP_filterMap, List.countP_filterMap]
  induction events with
  | nil => rfl
  | cons event rest ih =>
    rw [List.countP_cons, List.countP_cons, List.countP_cons, ih]
    cases event with
    | posted time parcel fate =>
      cases fate with
      | unscheduled => exact Nat.add_assoc _ _ _
      | dropped | scheduled _ => exact Nat.add_right_comm _ _ _
    | arrived _ _ _ | unclaimed _ _ | round _ _ => exact Nat.add_right_comm _ _ _

/-- An event that tells what a delivery has come to tells when it was. -/
theorem map_verdict? (event : Event) : event.verdict?.map (·.1) = event.resolution?.map (·.2) := by
  cases event <;> rfl

end Event

namespace Incident

/-- The calls are the deliveries that have met an endpoint. -/
theorem countP_isCall (log : List Incident) :
    ((log.filterMap verdict?).countP fun entry => entry.2 = .delivered) = log.countP isCall := by
  rw [List.countP_filterMap]
  refine List.countP_congr fun incident _ => ?_
  cases incident <;> exact Iff.rfl

/-- The misses are those that have met none. -/
theorem countP_isMiss (log : List Incident) :
    ((log.filterMap verdict?).countP fun entry => entry.2 = .undeliverable) =
      log.countP isMiss := by
  rw [List.countP_filterMap]
  refine List.countP_congr fun incident _ => ?_
  cases incident <;> exact Iff.rfl

/-- After a removal an endpoint is called only if it was registered again. -/
theorem Lawful.mem_of_removed {log past since later : List Incident} {id : NodeId}
    {endpoint : Endpoint} {parcel : Parcel} (h : Lawful log)
    (hlog : log = past ++ .removed id :: since ++ .called endpoint parcel :: later)
    (htarget : parcel.envelope.target = id) : .registered id endpoint ∈ since := by
  have hforce : InForce (past ++ .removed id :: since) id endpoint := htarget ▸ h _ _ _ hlog
  have hremoved : (Incident.removed id).rebinds id = true := beq_self_eq_true id
  rcases inForce_append.mp hforce with ⟨before, after, heq, -⟩ | ⟨-, hstill⟩
  · cases before with
    | nil => cases heq
    | cons first before =>
      rw [(List.cons.inj heq).2]
      exact List.mem_append_right before List.mem_cons_self
  · rw [hstill _ List.mem_cons_self] at hremoved
    cases hremoved

/-- After a rejection the endpoint is called that was in force before, until this is changed. -/
theorem Lawful.inForce_of_rejected {log past since later : List Incident} {id : NodeId}
    {refused endpoint : Endpoint} {parcel : Parcel} (h : Lawful log)
    (hlog : log = past ++ .rejected id refused :: since ++ .called endpoint parcel :: later)
    (htarget : parcel.envelope.target = id)
    (hstill : ∀ incident ∈ since, incident.rebinds id = false) : InForce past id endpoint := by
  have hforce : InForce (past ++ .rejected id refused :: since) id endpoint :=
    htarget ▸ h _ _ _ hlog
  rcases inForce_append.mp hforce with ⟨before, after, heq, -⟩ | ⟨hpast, -⟩
  · have hmem : .registered id endpoint ∈ Incident.rejected id refused :: since :=
      heq ▸ List.mem_append_right before List.mem_cons_self
    have hsince := (List.mem_cons.mp hmem).resolve_left Incident.noConfusion
    have hrebinds : (Incident.registered id endpoint).rebinds id = true := beq_self_eq_true id
    rw [hstill _ hsince] at hrebinds
    cases hrebinds
  · exact hpast

end Incident

namespace World

variable {σ : Type} {k : Nat} {world : World σ k} {log : List Incident} {parcel : Parcel}

/-! ## Counters -/

/-- The messages that were delivered or found no endpoint are those of the resolutions. -/
theorem map_verdicts (world : World σ k) :
    world.verdicts.map (·.1) = world.resolutions.map (·.2) := by
  simp only [verdicts, resolutions, List.map_filterMap, Event.map_verdict?]

/-- If the books are kept, the counters are those of the ledger. -/
theorem Ledger.counts (h : Ledger log world) (haccounts : Accounts [] world) :
    world.network.stats.delivered = log.countP Incident.isCall ∧
      world.network.stats.undeliverable =
        log.countP Incident.isMiss + world.journal.countP Event.isDiscarded := by
  have hverdicts : (log.filterMap Incident.verdict?).Perm
      (world.journal.filterMap Event.verdict?) := by
    rw [← h.verdicts, World.verdicts, List.filterMap_reverse]
    exact List.reverse_perm _
  have hcalls := Incident.countP_isCall log
  have hmisses := Incident.countP_isMiss log
  rw [hverdicts.countP_eq] at hcalls hmisses
  have hdelivered : world.network.stats.delivered =
      world.outcomes.countP fun entry => entry.2 = .delivered := haccounts.counts .delivered
  have hundeliverable : world.network.stats.undeliverable =
      world.outcomes.countP fun entry => entry.2 = .undeliverable :=
    haccounts.counts .undeliverable
  constructor
  · rw [hdelivered, outcomes, Event.countP_delivered, hcalls]
  · rw [hundeliverable, outcomes, Event.countP_undeliverable, hmisses]

/-- If the books are kept, every send that was given a delay has a number of its own. -/
theorem Ledger.nodup_scheduled (h : Ledger log world) (haccounts : Accounts [] world) :
    (world.scheduled.map (·.serial)).Nodup := by
  have hserials : (world.scheduled.map (·.serial)).Perm
      (world.resolutions.map (·.2.serial) ++ world.pending.map (·.serial)) := by
    have hall := h.conserved.map (·.serial)
    rw [← h.verdicts, map_verdicts, List.map_append, List.map_map] at hall
    exact hall
  have hpending : (world.pending.map (·.serial)).Nodup :=
    (haccounts.serials.nodup_iff.mpr List.nodup_range).of_append_right
  refine hserials.nodup_iff.mpr (List.nodup_append.mpr
    ⟨haccounts.nodup_resolutions, hpending, ?_⟩)
  rintro serial hresolved other hother rfl
  obtain ⟨resolution, hmem, hserial⟩ := List.mem_map.mp hresolved
  obtain ⟨parcel, hparcel, heq⟩ := List.mem_map.mp hother
  exact haccounts.not_mem_resolutions hparcel (hserial.trans heq.symm) hmem

/-- If the books are kept, a send that was given a delay is one of those that were handed over. -/
theorem Ledger.serial_lt_sent (h : Ledger log world) (haccounts : Accounts [] world)
    (hmem : parcel ∈ world.scheduled) : parcel.serial < world.network.stats.sent := by
  have hserial : parcel.serial ∈
      world.outcomes.map (·.1) ++ world.pending.map (·.serial) := by
    have hall := h.conserved.mem_iff.mp hmem
    rw [← h.verdicts, map_verdicts] at hall
    rcases List.mem_append.mp hall with hresolved | hpending
    · obtain ⟨resolution, hresolution, rfl⟩ := List.mem_map.mp hresolved
      exact List.mem_append_left _ (mem_outcomes_of_mem_resolutions hresolution)
    · exact List.mem_append_right _ (List.mem_map_of_mem hpending)
  exact List.mem_range.mp (haccounts.serials.mem_iff.mp hserial)

variable [Random.Source σ]

/-- What becomes of the nodes in an incident: a node that is called is given the message by its
immediate sender, and no other node is touched. -/
def membersAfter (world : World σ k) : Incident → List (Member k)
  | .called (.node index) parcel =>
    (world.step (.receive index parcel.envelope.message parcel.envelope.sender)).members
  | _ => world.members

/-- The turn of a delivery does to the nodes what the incident does that it is. -/
theorem members_turn {position : Nat}
    (hat : world.agenda.ready[position]? = some (.parcel 0 parcel)) :
    (world.step (.turn position)).members = world.membersAfter (world.delivery parcel) := by
  have hturn : world.step (.turn position) =
      (world.withReady (world.agenda.ready.eraseIdx position)).deliver parcel := by
    rw [step, takeTurn, hat]
    rfl
  rw [hturn, delivery]
  generalize world.agenda.ready.eraseIdx position = ready
  rcases (world.withReady ready).deliver_cases parcel with ⟨hendpoint, hdeliver⟩ |
    ⟨endpoint, _, hendpoint, hnobody, hdeliver⟩ | ⟨index, member, hendpoint, hmember, hdeliver⟩
  · have hnone : world.network.endpoint? parcel.envelope.target = none := hendpoint
    rw [hdeliver, hnone]
    rfl
  · have hsome : world.network.endpoint? parcel.envelope.target = some endpoint := hendpoint
    rw [hdeliver, hsome]
    cases endpoint with
    | recorder => rfl
    | node index =>
      have hnone : world.members[index]? = none := hnobody index rfl
      rw [membersAfter, step, receive_of_none hnone]
      rfl
  · have hsome : world.network.endpoint? parcel.envelope.target = some (.node index) := hendpoint
    have hat : world.members[index]? = some member := hmember
    rw [members_deliver hendpoint hmember, hsome, membersAfter, step, afterwards_receive,
      members_acted hat]
    rfl

/-- A send that was given a delay stays one that was. -/
theorem mem_scheduled_run (hmem : parcel ∈ world.scheduled) (moves : List (Move k)) :
    parcel ∈ (world.run moves).scheduled := by
  obtain ⟨booking, hbooking, rfl⟩ := List.mem_map.mp hmem
  obtain ⟨event, hevent, hbooked⟩ := List.mem_filterMap.mp hbooking
  have hkept := (world.journal_run moves).subset (List.mem_reverse.mp hevent)
  exact List.mem_map_of_mem (List.mem_filterMap.mpr ⟨event, List.mem_reverse.mpr hkept, hbooked⟩)

/-- If only time passes, every message in transit is delivered in the end, or found to have no
endpoint. -/
theorem Ledger.exists_verdict (h : Ledger log world) (haccounts : Accounts [] world)
    (hsorted : Agenda.Sorted world.agenda.timers) (hmem : parcel ∈ world.pending) :
    ∃ millis, ∀ longer, millis ≤ longer →
      ∃ outcome, (parcel, outcome) ∈ (world.catchUp.advance longer).verdicts := by
  have hscheduled : parcel ∈ world.scheduled :=
    h.conserved.mem_iff.mpr (List.mem_append_right _ hmem)
  have hlater : ∀ later, world.IsLater later →
      ∃ log, Ledger log later ∧ Accounts [] later ∧ parcel ∈ later.scheduled := by
    rintro later ⟨ticks, -, rfl⟩
    exact ⟨_, h.run ticks, haccounts.run ticks, mem_scheduled_run hscheduled ticks⟩
  have hcaught := isLater_catchUp world
  obtain ⟨-, hthrough⟩ := catchUp_of_sorted hsorted
  obtain ⟨_, hledger, hbooks, hposted⟩ := hlater _ hcaught
  obtain ⟨bound, hdue⟩ := exists_dueBy (hledger.serial_lt_sent hbooks hposted)
  refine ⟨bound, fun longer hlonger => ?_⟩
  obtain ⟨hstill, hend⟩ := hdue.advance (hcaught.sorted hsorted) hthrough longer
  have hbound : bound ≤ (world.catchUp.advance longer).agenda.now := by
    rw [now_advance]
    exact Nat.le_trans hlonger (Nat.le_add_left _ _)
  have hgone : parcel ∉ (world.catchUp.advance longer).pending :=
    hstill.not_mem_pending hend hbound rfl
  obtain ⟨_, hfinal, -, hkept⟩ := hlater _ (isLater_trans hcaught (isLater_advance _ longer))
  have hmet := (List.mem_append.mp (hfinal.conserved.mem_iff.mp hkept)).resolve_right hgone
  obtain ⟨⟨_, outcome⟩, hverdict, rfl⟩ := List.mem_map.mp hmet
  exact ⟨outcome, hfinal.verdicts ▸ hverdict⟩

/-- In every run on a network that was given a configuration an id has one endpoint at most, which is
the one in force under it, and to register another one is refused and changes nothing. A send that is
not lost is given a delay if there is a clock. Every send that was given a delay has a number of its
own and is either in transit or was delivered, once and as it was sent; if only time passes it is
delivered in the end. A delivery lets the endpoint that is registered then receive the message from
its immediate sender, or nobody if there is none. So an endpoint is called only while it is in force
under the target: not after it was removed, unless it is registered again, and not after it was
rejected, unless what is in force changes. The calls are those that are counted as delivered, and the
misses are counted as undeliverable, with the sends that could not be scheduled. -/
theorem sends_bound_at_delivery (config : NetworkConfig) (generator : σ) (hasClock : Bool)
    {network : Network σ} (hnew : Network.new config generator hasClock = .ok network)
    (protocols : Vector (Protocol σ) k) (wall : Nat) (moves : List (Move k)) {world : World σ k}
    (hworld : world = (World.new network protocols wall).run moves) {log : List Incident}
    (hlog : log = (World.new network protocols wall).incidents moves) :
    ((world.network.registry.map Prod.fst).Nodup ∧
      ∀ id endpoint, world.network.endpoint? id = some endpoint ↔
        Incident.InForce log id endpoint) ∧
    (∀ id endpoint, world.network.isRegistered id = true →
      world.register id endpoint = .error (.duplicateNode id) ∧
        world.step (.register id endpoint) = world) ∧
    (∀ node protocol, world.network.isRegistered node.id = true →
      world.join node protocol = .error (.duplicateNode node.id) ∧
        world.step (.join node protocol) = world) ∧
    (∀ envelope, world.network.hasClock = true → world.network.dispatch.1 ≠ .dropped →
      (world.step (.send envelope)).scheduled =
        world.scheduled ++ [⟨world.network.stats.sent, envelope⟩]) ∧
    ((world.scheduled.map (·.serial)).Nodup ∧
      world.scheduled.Perm ((log.filterMap Incident.verdict?).map Prod.fst ++ world.pending) ∧
      ∀ parcel ∈ world.pending, ∃ millis, ∀ longer, millis ≤ longer →
        ∃ outcome, (parcel, outcome) ∈ (world.catchUp.advance longer).verdicts) ∧
    (∀ position parcel, world.agenda.ready[position]? = some (.parcel 0 parcel) →
      (world.step (.turn position)).members = world.membersAfter (world.delivery parcel) ∧
        (World.new network protocols wall).incidents (moves ++ [.turn position]) =
          log ++ [world.delivery parcel]) ∧
    Incident.Lawful log ∧
    (∀ past id since endpoint parcel later,
      log = past ++ .removed id :: since ++ .called endpoint parcel :: later →
        parcel.envelope.target = id → .registered id endpoint ∈ since) ∧
    (∀ past id refused since endpoint parcel later,
      log = past ++ .rejected id refused :: since ++ .called endpoint parcel :: later →
        parcel.envelope.target = id → (∀ incident ∈ since, incident.rebinds id = false) →
          Incident.InForce past id endpoint) ∧
    world.verdicts = log.filterMap Incident.verdict? ∧
    world.network.stats.delivered = log.countP Incident.isCall ∧
    world.network.stats.undeliverable =
      log.countP Incident.isMiss + world.journal.countP Event.isDiscarded := by
  have hledger : Ledger log world := by
    have hrun := (ledger_new hnew protocols wall).run moves
    rwa [List.nil_append, ← hlog, ← hworld] at hrun
  have haccounts : Accounts [] world := by
    rw [hworld]
    exact (accounts_new hnew protocols wall).run moves
  have hsorted : Agenda.Sorted world.agenda.timers := by
    have hstart : Agenda.Sorted (World.new network protocols wall).agenda.timers :=
      List.Pairwise.nil
    rw [hworld]
    exact sorted_run hstart moves
  refine ⟨⟨hledger.unique, hledger.bound⟩, fun id endpoint htaken => ?_,
    fun node protocol htaken => ?_, fun envelope hclock hkept => ?_,
    ⟨hledger.nodup_scheduled haccounts, hledger.conserved, fun parcel hmem => ?_⟩,
    fun position parcel hat => ⟨members_turn hat, ?_⟩, hledger.lawful, ?_, ?_, hledger.verdicts,
    hledger.counts haccounts⟩
  · have hrefused := register_of_taken htaken endpoint
    exact ⟨hrefused, by rw [step, hrefused]; rfl⟩
  · have hrefused : world.join node protocol = .error (.duplicateNode node.id) := by
      rw [join, register_of_taken htaken]
      rfl
    exact ⟨hrefused, by rw [step, hrefused]; rfl⟩
  · rw [step, scheduled_send, Network.inTransit_of_hasClock hclock hkept]
  · exact hledger.exists_verdict haccounts hsorted hmem
  · rw [incidents_append, ← hlog, ← hworld, incidents, incidents, List.append_nil,
      incidentsBy_delivery hat]
  · exact fun _ _ _ _ _ _ hsplit htarget => hledger.lawful.mem_of_removed hsplit htarget
  · exact fun _ _ _ _ _ _ _ hsplit htarget hstill =>
      hledger.lawful.inForce_of_rejected hsplit htarget hstill

/-- While two letters to a node are on their way, its id is given to an observer instead, and taken
from this one too when the first letter has arrived. -/
def rebound : List (Move 1) :=
  [.join (Node.new "b" 0) ⟨0, Nat.zero_lt_one⟩, .send letter, .turn 0, .unregister "b",
    .register "b" .recorder, .register "b" (.node 0), .send letter, .turn 0, .pass 1, .fire,
    .turn 0, .unregister "b", .turn 0]

/-- The first letter came to the observer, the second one to nobody, and the node got none. -/
theorem sends_bound_at_delivery_rebound :
    let world := (World.new slowNetwork #v[⟨1, none, ⟨[]⟩⟩] 0).run rebound
    let log := (World.new slowNetwork #v[⟨1, none, ⟨[]⟩⟩] 0).incidents rebound
    log = [.registered "b" (.node 0), .removed "b", .registered "b" .recorder,
        .rejected "b" (.node 0), .called .recorder ⟨0, letter⟩, .removed "b",
        .missed ⟨1, letter⟩] ∧
      Incident.InForce (log.take 4) "b" .recorder ∧
      (∀ endpoint, ¬Incident.InForce (log.take 6) "b" endpoint) ∧
      world.network.stats.delivered = 1 ∧ world.network.stats.undeliverable = 1 := by
  intro world log
  obtain ⟨-, -, -, -, -, -, hlawful, -, -, -, hdelivered, hundeliverable⟩ :=
    sends_bound_at_delivery slowNetwork.config slowNetwork.generator true rfl
      #v[⟨1, none, ⟨[]⟩⟩] 0 rebound rfl rfl
  refine ⟨rfl, ?_, ?_, hdelivered.trans rfl, hundeliverable.trans rfl⟩
  · exact hlawful (log.take 4) (.called .recorder ⟨0, letter⟩) (log.drop 5) rfl
  · exact hlawful (log.take 6) (.missed ⟨1, letter⟩) [] rfl

end World

end Epidemic
