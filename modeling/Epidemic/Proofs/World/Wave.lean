import Epidemic.Proofs.World.Front

/-!
# How broadcasts spread in time

Every broadcast over a steady network sets off a wave, and its front is kept by every punctual move,
whatever the number of broadcasts and in whatever order the tasks of a millisecond have their turn.
-/

namespace Epidemic

namespace World

variable {σ : Type} {k : Nat} {wiring : Wiring} {delay : Nat} {past : List Emission}
  {world after : World σ k}

/-- Whether the messages that were made spread through a timely world as waves. -/
structure Wave (wiring : Wiring) (delay : Nat) (past : List Emission) (world : World σ k) :
    Prop where
  /-- The messages flood the world. -/
  flood : world.Flood wiring (past.map (·.message)) []
  /-- All sends take the same time. -/
  timely : world.Timely delay
  /-- Every message is held where it was made. -/
  sources : ∀ emission ∈ past,
    world.Holds emission.message.origin emission.message.id
  /-- Every message has its front. -/
  fronts : ∀ emission ∈ past, world.Front wiring delay emission

/-- If time passes and nothing else happens to nodes and messages, the waves stay what they are. -/
theorem Wave.still (h : world.Wave wiring delay past)
    (hflood : after.Flood wiring (past.map (·.message)) []) (htimely : after.Timely delay)
    (hmembers : after.members = world.members) (hnow : world.agenda.now ≤ after.agenda.now)
    (harrivals : after.arrivals.Perm world.arrivals) : after.Wave wiring delay past where
  flood := hflood
  timely := htimely
  sources emission hmem := (holds_congr hmembers).mpr (h.sources emission hmem)
  fronts emission hmem := (h.fronts emission hmem).still hmembers hnow harrivals

/-- An entry of the journal does not matter. -/
theorem Wave.record (h : world.Wave wiring delay past) (event : Event) :
    (world.record event).Wave wiring delay past :=
  h.still (h.flood.record event) (h.timely.keepsTime (keepsTime_of_eq rfl rfl)) rfl
    (Nat.le_refl _) (List.Perm.refl _)

/-- A message that a node has not seen yet is not overdue there. -/
theorem Wave.now_le_due (h : world.Wave wiring delay past) {emission : Emission}
    (hemission : emission ∈ past) {member : Member k} (hmember : member ∈ world.members)
    (hunseen : emission.message.id ∉ member.node.seen) {hops : Nat}
    (hreach : wiring.Reaches emission.message.origin member.node.id hops) :
    world.agenda.now ≤ emission.due delay hops := by
  refine Nat.le_of_not_lt fun hoverdue => hunseen ?_
  have hheld := (h.fronts emission hemission).holds_of_due h.flood (h.sources emission hemission)
    (fun arrival hmem => h.timely.le_arrival hmem) hreach hoverdue
  exact h.flood.seen_of_holds hmember hheld

/-- A message under an id of its own is held by nobody and not in transit. -/
theorem Wave.fresh (h : world.Wave wiring delay past) {id : MessageId}
    (hfresh : ∀ emission ∈ past, emission.message.id ≠ id) :
    (∀ name, ¬world.Holds name id) ∧ ∀ envelope ∈ world.transit, envelope.message.id ≠ id := by
  constructor
  · rintro name ⟨holder, hholder, -, hseen⟩
    obtain ⟨messages, hmessages, hlearned⟩ := (h.flood.informed holder hholder).learned
    rw [hlearned.seen, List.mem_append, List.mem_reverse, List.mem_map] at hseen
    rcases hseen with ⟨message, hmem, heq⟩ | hnone
    · obtain ⟨emission, hemission, rfl⟩ := List.mem_map.mp (hmessages message hmem)
      exact hfresh emission hemission heq
    · cases hnone
  · intro envelope hmem heq
    obtain ⟨emission, hemission, hmessage⟩ := List.mem_map.mp (h.flood.carried envelope hmem).1
    exact hfresh emission hemission (hmessage ▸ heq)

variable [Random.Source σ]

/-! ## A node acts -/

section Act

variable {index : Nat} {member : Member k} {deed : Deed}

/-- A node that can reach the network and makes a broadcast spreads it. -/
theorem Wave.spreads_broadcast (h : world.Wave wiring delay past)
    (hmember : member ∈ world.members) (id : MessageId) (kind : String) (payload : Payload) :
    let outcome := (world.lifeOf member).step world.wall (.broadcast id kind payload)
    member.node.Spreads
      (past.map (·.message) ++ [member.node.compose world.wall id kind payload])
      world.Holds outcome.1.node outcome.2 ∧ id ∈ outcome.1.node.seen := by
  obtain ⟨-, hfanout⟩ := h.flood.rules member hmember
  obtain ⟨hspreads, hseen, -⟩ := Node.spreads_broadcast (world.protocolOf member) world.Holds
    (h.flood.informed member hmember) hfanout world.wall id kind payload
  simp only [lifeOf, h.flood.reliable.isOpen]
  exact ⟨hspreads, hseen⟩

/-- A node that has a rumor round spreads what it has seen. -/
theorem Wave.spreads_gossipRound (h : world.Wave wiring delay past)
    (hmember : member ∈ world.members) :
    let outcome := (world.lifeOf member).step world.wall .gossipRound
    member.node.Spreads (past.map (·.message)) world.Holds outcome.1.node outcome.2 := by
  obtain ⟨hspreads, -⟩ := Node.spreads_gossipRound (world.protocolOf member) world.Holds
    (h.flood.informed member hmember)
  simp only [lifeOf, h.flood.reliable.isOpen]
  exact hspreads

/-- A node that is given a message in transit spreads it. -/
theorem Wave.spreads_receive (h : world.Wave wiring delay past)
    (hmember : member ∈ world.members) {envelope : Envelope} (hmem : envelope ∈ world.transit) :
    let outcome := (world.lifeOf member).step world.wall
      (.receive envelope.message envelope.sender)
    member.node.Spreads (past.map (·.message)) world.Holds outcome.1.node outcome.2 ∧
      envelope.message.id ∈ outcome.1.node.seen := by
  obtain ⟨hage, hfanout⟩ := h.flood.rules member hmember
  obtain ⟨hmessage, hsender, -⟩ := h.flood.carried envelope hmem
  obtain ⟨hspreads, hseen, -⟩ := Node.spreads_receive (world.protocolOf member) world.Holds
    (h.flood.informed member hmember) hfanout hage world.wall hmessage hsender
  simp only [lifeOf, h.flood.reliable.isOpen]
  exact ⟨hspreads, hseen⟩

/-- What a node does that is offered none of the messages does not move the front of any of them,
besides what it sends. -/
theorem Wave.fronts_acted (h : world.Wave wiring delay past)
    (hat : world.members[index]? = some member) {made : List Message}
    (hspreads : member.node.Spreads made world.Holds
      ((world.lifeOf member).step world.wall deed).1.node
      ((world.lifeOf member).step world.wall deed).2)
    {emission : Emission} (hemission : emission ∈ past)
    (hother : deed.messageId? ≠ some emission.message.id) :
    (world.acted index deed).Front wiring delay emission := by
  have hmember := List.mem_of_getElem? hat
  refine (h.fronts emission hemission).act hat hspreads (members_acted hat deed)
    (h.flood.entry_mem hmember) (touches_acted world index deed).keepsTime.now
    world.arrivals (h.timely.perm_arrivals_acted h.flood.reliable hat deed) (fun _ hmem => hmem)
    (fun _ hmem => Or.inl hmem) fun hseen hunseen => absurd ?_ hother
  exact (Life.course_step (world.lifeOf member) world.wall deed).messageId?_of_learned hseen hunseen

/-- The sources stay what they are when a node acts. -/
theorem Wave.sources_acted (h : world.Wave wiring delay past)
    (hat : world.members[index]? = some member) {made : List Message}
    (hspreads : member.node.Spreads made world.Holds
      ((world.lifeOf member).step world.wall deed).1.node
      ((world.lifeOf member).step world.wall deed).2)
    {emission : Emission} (hemission : emission ∈ past) :
    (world.acted index deed).Holds emission.message.origin emission.message.id :=
  (h.sources emission hemission).set hat hspreads (members_acted hat deed)

/-- A broadcast under an id of its own sets off a wave. -/
theorem Wave.broadcast (h : world.Wave wiring delay past)
    (hat : world.members[index]? = some member) {id : MessageId}
    (hfresh : ∀ emission ∈ past, emission.message.id ≠ id) (kind : String)
    (payload : Payload) :
    (world.step (.broadcast index id kind payload)).Wave wiring delay
      (past ++ [⟨world.agenda.now, member.node.compose world.wall id kind payload⟩]) := by
  have hmember := List.mem_of_getElem? hat
  obtain ⟨hspreads, hseen⟩ := h.spreads_broadcast hmember id kind payload
  obtain ⟨hunheld, hnowhere⟩ := h.fresh hfresh
  have hflood := h.flood.broadcast hat id kind payload
  have hnew : (world.acted index (.broadcast id kind payload)).Front wiring delay
      ⟨world.agenda.now, member.node.compose world.wall id kind payload⟩ := by
    refine Front.act hat hspreads (members_acted hat _) (front_of_fresh hunheld hnowhere)
      (h.flood.entry_mem hmember) (touches_acted world index _).keepsTime.now
      world.arrivals (h.timely.perm_arrivals_acted h.flood.reliable hat _) (fun _ hmem => hmem)
      (fun _ hmem => Or.inl hmem) fun _ _ => ⟨⟨0, .refl, ?_⟩, fun hops _ => Nat.le_add_right _ _⟩
    exact Nat.le_of_eq (congrArg (world.agenda.now + ·) (Nat.zero_mul delay))
  rw [step, afterwards_broadcast]
  rw [afterwards_broadcast] at hflood
  refine ⟨by rwa [List.map_append], h.timely.keepsTime (touches_acted _ _ _).keepsTime, ?_, ?_⟩
  · intro emission hmem
    rcases List.mem_append.mp hmem with hold | hlast
    · exact h.sources_acted hat hspreads hold
    · rw [List.mem_singleton.mp hlast]
      exact holds_set_self hat hspreads (members_acted hat _) hseen
  · intro emission hmem
    rcases List.mem_append.mp hmem with hold | hlast
    · refine h.fronts_acted hat hspreads hold fun heq => ?_
      exact hfresh emission hold (Option.some.inj heq).symm
    · rw [List.mem_singleton.mp hlast]
      exact hnew

/-- In a rumor round of a node the waves go on. -/
theorem Wave.gossipRound (h : world.Wave wiring delay past) (index : Nat) :
    (world.afterwards (world.gossipRound index)).Wave wiring delay past := by
  have hflood := h.flood.gossipRound index
  rw [afterwards_gossipRound] at hflood ⊢
  cases hat : world.members[index]? with
  | none =>
    rw [acted_of_none hat]
    exact h
  | some member =>
    have hspreads := h.spreads_gossipRound (List.mem_of_getElem? hat)
    refine ⟨hflood, h.timely.keepsTime (touches_acted _ _ _).keepsTime, fun emission hmem => ?_,
      fun emission hmem => ?_⟩
    · exact h.sources_acted hat hspreads hmem
    · exact h.fronts_acted hat hspreads hmem (Option.some_ne_none _).symm

end Act

/-! ## Turns -/

/-- When a message is delivered the waves go on. -/
theorem Wave.deliver (h : world.Wave wiring delay past) {position : Nat} {parcel : Parcel}
    (hready : world.agenda.ready[position]? = some (.parcel 0 parcel)) :
    (world.takeTurn position).Wave wiring delay past := by
  have hleaves := perm_arrivals_withReady hready
  have hrest := h.timely.keepsTime (keepsTime_withReady world position)
  have hreliable : (world.withReady (world.agenda.ready.eraseIdx position)).network.Reliable :=
    h.flood.reliable
  have hturn : world.takeTurn position =
      (world.withReady (world.agenda.ready.eraseIdx position)).deliver parcel := by
    simp only [takeTurn, hready, perform]
  -- The message leaves the agenda, and its target takes it in.
  have hmem : parcel.envelope ∈ world.transit := mem_transit_of_ready hready
  obtain ⟨-, -, entry, hentry, htarget⟩ := h.flood.carried parcel.envelope hmem
  obtain ⟨index, hindex⟩ := List.mem_iff_getElem?.mp hentry
  obtain ⟨member, hat, hname⟩ := h.flood.exists_member hindex
  have hmember := List.mem_of_getElem? hat
  have hatRest : (world.withReady (world.agenda.ready.eraseIdx position)).members[index]? =
      some member := hat
  have hendpoint : (world.withReady (world.agenda.ready.eraseIdx position)).network.endpoint?
      parcel.envelope.target = some (.node index) := by
    rw [← htarget]
    exact h.flood.registry index entry hindex
  obtain ⟨hspreads, hseen⟩ := h.spreads_receive hmember hmem
  have hmembers : (world.takeTurn position).members = world.members.set index { member with
      node := ((world.lifeOf member).step world.wall
        (.receive parcel.envelope.message parcel.envelope.sender)).1.node } := by
    rw [hturn]
    exact members_deliver hendpoint hatRest
  have harrivals := hrest.perm_arrivals_deliver hendpoint hatRest hreliable
  rw [← hturn] at harrivals
  refine ⟨h.flood.takeTurn position, h.timely.keepsTime (h.timely.prompt.takeTurn position),
    fun emission hemission => (h.sources emission hemission).set hat hspreads hmembers,
    fun emission hemission => ?_⟩
  refine (h.fronts emission hemission).act hat hspreads hmembers (h.flood.entry_mem hmember)
    (h.timely.prompt.takeTurn position).now _ harrivals
    (fun arrival hold => hleaves.mem_iff.mpr (List.mem_append_right _ hold)) ?_
    fun hlearned hunseen => ⟨?_, fun hops => h.now_le_due hemission hmember hunseen⟩
  · intro arrival harrival
    rcases List.mem_append.mp (hleaves.mem_iff.mp harrival) with hfirst | hold
    · rw [Option.mem_toList] at hfirst
      cases hfirst
      exact Or.inr ⟨htarget.symm.trans hname.symm, hseen⟩
    · exact Or.inl hold
  · have hoffered := (Life.course_step (world.lifeOf member) world.wall
      (.receive parcel.envelope.message parcel.envelope.sender)).messageId?_of_learned hlearned
        hunseen
    have hcoming := (h.fronts emission hemission).coming (world.agenda.now + 0, parcel.envelope)
      (hleaves.mem_iff.mpr List.mem_cons_self) (Option.some.inj hoffered)
    rwa [← htarget, ← hname] at hcoming

/-- In a rumor round of several nodes the waves go on. -/
theorem Wave.roundOf (h : world.Wave wiring delay past) (indexes : List Nat) :
    (world.roundOf indexes).Wave wiring delay past := by
  induction indexes generalizing world with
  | nil => exact h
  | cons index rest ih =>
    have hround := h.gossipRound index
    rw [World.roundOf]
    split
    · rename_i after hafter
      rw [hafter] at hround
      exact ih (hround.record _)
    · exact ih h

/-- In a rumor round of all nodes the waves go on. -/
theorem Wave.roundOfAll (h : world.Wave wiring delay past) {interval : Nat}
    (hinterval : 0 < interval) : (world.roundOfAll interval).Wave wiring delay past := by
  rw [World.roundOfAll]
  split
  · exact h
  · have hround := h.roundOf (List.range world.members.length)
    have htask : Task.rounds interval ≠ .rounds 0 := fun heq =>
      absurd (Task.rounds.inj heq) (Nat.ne_of_gt hinterval)
    have htransit := perm_transit_schedule (world.roundOf (List.range world.members.length))
      interval (.rounds interval)
    exact hround.still (hround.flood.congr rfl rfl hround.flood.reliable rfl htransit)
      (hround.timely.keepsTime (keepsTime_schedule _ hinterval htask)) rfl (Nat.le_refl _)
      (perm_arrivals_schedule _ interval (.rounds interval))

/-- In the turn of a task the waves go on. -/
theorem Wave.takeTurn (h : world.Wave wiring delay past) (position : Nat) :
    (world.takeTurn position).Wave wiring delay past := by
  cases hready : world.agenda.ready[position]? with
  | none =>
    simp only [World.takeTurn, hready]
    exact h
  | some task =>
    have hleaves := perm_arrivals_withReady hready
    have hturn : world.takeTurn position =
        (world.withReady (world.agenda.ready.eraseIdx position)).perform task := by
      simp only [World.takeTurn, hready]
    cases task with
    | parcel wait parcel =>
      cases wait with
      | zero => exact h.deliver hready
      | succ wait =>
        -- The message leaves the queue for a timer, and arrives when it would have arrived.
        have hflood := h.flood.takeTurn position
        have htimely := h.timely.keepsTime (h.timely.prompt.takeTurn position)
        rw [hturn] at hflood htimely ⊢
        refine h.still hflood htimely rfl (Nat.le_refl _) ?_
        exact (perm_arrivals_schedule _ (wait + 1) (.parcel 0 parcel)).trans hleaves.symm
    | rounds interval =>
      have htransit := (perm_transit_withReady hready).symm
      have hrest : (world.withReady (world.agenda.ready.eraseIdx position)).Wave wiring delay
          past :=
        h.still (h.flood.congr rfl rfl h.flood.reliable rfl htransit)
          (h.timely.keepsTime (keepsTime_withReady world position)) rfl (Nat.le_refl _) hleaves.symm
      have hinterval : 0 < interval := Nat.pos_of_ne_zero fun hzero =>
        h.timely.repeats (.rounds interval)
          (List.mem_append_left _ (List.mem_of_getElem? hready)) (by rw [hzero])
      rw [hturn]
      exact hrest.roundOfAll hinterval

/-! ## Moves -/

/-- The emissions of the broadcasts that are made by a move. -/
def emitted (world : World σ k) (move : Move k) : List Emission :=
  (world.originatedBy move).map fun message => ⟨world.agenda.now, message⟩

/-- With every punctual move the waves go on, and a broadcast under an id of its own sets off one
more. -/
theorem Wave.step (h : world.Wave wiring delay past) {move : Move k}
    (hmove : move.isPunctual world = true)
    (hdistinct : ((past ++ world.emitted move).map (·.message.id)).Nodup) :
    (world.step move).Wave wiring delay (past ++ world.emitted move) := by
  have hpeaceful := Move.isPeaceful_of_isPunctual hmove
  have htimely := h.timely.step hmove
  have hquiet : world.originatedBy move = [] → (world.step move).Wave wiring delay past →
      (world.step move).Wave wiring delay (past ++ world.emitted move) := by
    intro hnone hafter
    rw [emitted, hnone, List.map_nil, List.append_nil]
    exact hafter
  have hkept : world.originatedBy move = [] → move.message? world = none →
      (world.step move).members = world.members →
      world.agenda.now ≤ (world.step move).agenda.now →
      (world.step move).arrivals.Perm world.arrivals →
      (world.step move).Wave wiring delay (past ++ world.emitted move) := by
    intro hnone hmute hmembers hnow harrivals
    have hflood := h.flood.step hpeaceful
    rw [hmute, Option.toList_none, List.append_nil] at hflood
    exact hquiet hnone (h.still hflood htimely hmembers hnow harrivals)
  cases move with
  | broadcast index id kind payload =>
    cases hat : world.members[index]? with
    | none =>
      have hnone : world.originatedBy (.broadcast index id kind payload) = [] := by
        rw [originatedBy, originatedAt, hat]
      refine hquiet hnone ?_
      rw [World.step, afterwards_broadcast, acted_of_none hat]
      exact h
    | some member =>
      have hup := (h.flood.informed member (List.mem_of_getElem? hat)).up
      have hone : world.emitted (.broadcast index id kind payload) =
          [⟨world.agenda.now, member.node.compose world.wall id kind payload⟩] := by
        simp only [emitted, originatedBy, originatedAt, hat, lifeOf, Life.originated?, hup]
        rfl
      rw [hone] at hdistinct ⊢
      rw [List.map_append] at hdistinct
      refine h.broadcast hat (fun emission hmem heq => ?_) kind payload
      exact List.disjoint_of_nodup_append hdistinct (List.mem_map_of_mem hmem)
        (List.mem_singleton.mpr heq)
  | gossipRound index => exact hquiet rfl (h.gossipRound index)
  | turn position => exact hquiet rfl (h.takeTurn position)
  | fire => exact hkept rfl rfl rfl (Nat.le_refl _) (List.Perm.of_eq h.timely.arrivals_fire)
  | startRounds interval =>
    exact hkept rfl rfl rfl (Nat.le_refl _) (perm_arrivals_schedule world interval (.rounds interval))
  | stopRounds =>
    exact hkept rfl rfl rfl (Nat.le_refl _) (List.Perm.of_eq (arrivals_stopRounds world))
  | pass millis =>
    have hready := (Move.of_isPunctual_pass hmove).1
    exact hkept rfl rfl rfl (Nat.le_add_right _ _) (List.Perm.of_eq (arrivals_pass hready millis))
  | setWall _ => exact hkept rfl rfl rfl (Nat.le_refl _) (List.Perm.refl _)
  | send | receive | addPeer | shutdown | join | register | unregister | setLatency | setJitter
  | setDropRate | setClock | close => cases hmove

/-! ## Runs -/

/-- The emissions of the broadcasts that are made in a run. -/
def emissions (world : World σ k) : List (Move k) → List Emission
  | [] => []
  | move :: rest => world.emitted move ++ (world.step move).emissions rest

/-- They are those of the messages that are made. -/
theorem map_message_emissions (world : World σ k) (moves : List (Move k)) :
    (world.emissions moves).map (·.message) = world.broadcasts moves := by
  induction moves generalizing world with
  | nil => rfl
  | cons move rest ih =>
    have hmove : (world.emitted move).map (·.message) = world.originatedBy move := by
      rw [emitted, List.map_map]
      exact List.map_id _
    rw [emissions, broadcasts, List.map_append, ih, hmove]

/-- In every punctual run the waves go on. -/
theorem Wave.run (h : world.Wave wiring delay past)
    {moves : List (Move k)} (hmoves : world.isPunctual moves = true)
    (hdistinct : ((past ++ world.emissions moves).map (·.message.id)).Nodup) :
    (world.run moves).Wave wiring delay (past ++ world.emissions moves) := by
  induction moves generalizing world past with
  | nil =>
    rw [emissions, List.append_nil]
    exact h
  | cons move rest ih =>
    rw [isPunctual, Bool.and_eq_true] at hmoves
    rw [emissions, ← List.append_assoc] at hdistinct ⊢
    have hfirst : ((past ++ world.emitted move).map (·.message.id)).Nodup := by
      rw [List.map_append] at hdistinct
      exact hdistinct.of_append_left
    exact ih (h.step hmoves.1 hfirst) hmoves.2 hdistinct

/-! ## Exactly when it is due -/

omit [Random.Source σ] in
/-- No message is seen by a node before it is due there on the shortest way. -/
theorem Wave.not_seen_of_lt (h : world.Wave wiring delay past) {emission : Emission}
    (hemission : emission ∈ past) {member : Member k} (hmember : member ∈ world.members)
    {distance : Nat} (hshortest : ∀ hops,
      wiring.Reaches emission.message.origin member.node.id hops → distance ≤ hops)
    (hearly : world.agenda.now < emission.due delay distance) :
    emission.message.id ∉ member.node.seen := by
  intro hseen
  obtain ⟨hops, hreach, hdue⟩ := (h.fronts emission hemission).early _ ⟨member, hmember, rfl, hseen⟩
  have hlonger : distance * delay ≤ hops * delay := Nat.mul_le_mul_right delay (hshortest hops hreach)
  rw [Emission.due] at hearly hdue
  omega

omit [Random.Source σ] in
/-- Every message is seen by a node as soon as the tasks of the millisecond have had their turn in
which it is due there. -/
theorem Wave.seen_of_due (h : world.Wave wiring delay past) {emission : Emission}
    (hemission : emission ∈ past) {member : Member k} (hmember : member ∈ world.members)
    {distance : Nat} (hreach : wiring.Reaches emission.message.origin member.node.id distance)
    (hdue : emission.due delay distance < world.agenda.now ∨
      emission.due delay distance = world.agenda.now ∧ world.agenda.isCaughtUp = true) :
    emission.message.id ∈ member.node.seen := by
  refine h.flood.seen_of_holds hmember ?_
  have hfront := h.fronts emission hemission
  have hsource := h.sources emission hemission
  rcases hdue with hpast | ⟨hnow, hcaught⟩
  · exact hfront.holds_of_due h.flood hsource (fun _ hmem => h.timely.le_arrival hmem) hreach hpast
  · exact hfront.holds_of_due h.flood hsource
      (fun _ hmem => lt_arrival_of_isCaughtUp hcaught hmem) hreach (Nat.lt_succ_of_le
        (Nat.le_of_eq hnow))

/-! ## Nothing is forgotten -/

/-- Whatever changes in a world, the node in a place has seen what it had seen. -/
theorem Change.exists_seen {made : List Message} {batches : List Batch}
    (h : world.Change made batches after) {place : Nat} {member : Member k}
    (hplace : world.members[place]? = some member) {id : MessageId}
    (hseen : id ∈ member.node.seen) :
    ∃ later, after.members[place]? = some later ∧ id ∈ later.node.seen := by
  cases h with
  | still hmembers _ => exact ⟨member, hmembers ▸ hplace, hseen⟩
  | unheard _ _ hmembers _ => exact ⟨member, hmembers ▸ hplace, hseen⟩
  | @deed _ index actor deed hat _ hmembers _ =>
    by_cases heq : index = place
    · subst heq
      rw [hat] at hplace
      cases hplace
      obtain ⟨hlt, -⟩ := List.getElem?_eq_some_iff.mp hat
      refine ⟨_, by rw [hmembers, List.getElem?_set_self hlt], ?_⟩
      rcases (Life.course_step (world.lifeOf member) world.wall deed).seen_eq with hsame | hone
      · rw [hsame]
        exact hseen
      · obtain ⟨new, -, hone⟩ := hone
        rw [hone]
        exact List.mem_cons_of_mem new hseen
    · exact ⟨member, by rw [hmembers, List.getElem?_set_ne heq, hplace], hseen⟩

/-- So it is in every passage. -/
theorem Passage.exists_seen {made : List Message} {batches : List Batch}
    (h : world.Passage made batches after) {place : Nat} {member : Member k}
    (hplace : world.members[place]? = some member) {id : MessageId}
    (hseen : id ∈ member.node.seen) :
    ∃ later, after.members[place]? = some later ∧ id ∈ later.node.seen := by
  induction h with
  | refl => exact ⟨member, hplace, hseen⟩
  | step _ hchange ih =>
    obtain ⟨middle, hmiddle, hkept⟩ := ih
    exact hchange.exists_seen hmiddle hkept

end World

end Epidemic
