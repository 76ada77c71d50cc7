import Epidemic.Proofs.Simulation.Union
import Epidemic.Proofs.Topology.Graph
import Epidemic.Proofs.World.Wave
import Mathlib.Combinatorics.SimpleGraph.Metric

/-!
# Broadcasts spread at graph distance

In a simulation without losses and further delays, in which no node has more peers than the fanout,
a broadcast is seen by a node at some distance from its origin after so many times the latency,
rounded up to milliseconds: not before, and at the latest when the tasks of that millisecond have
had their turn. Any number of broadcasts may be under way, and there may be rumor rounds.
-/

namespace Epidemic

namespace Simulation

variable {σ : Type}

/-- Neighbours are the nodes that are adjacent in the graph of the links. -/
theorem neighbour_iff_adj {links : List Link} {a b : Nat} :
    Neighbour links a (nodeId b) ↔ (Topology.graph links).Adj a b := by
  rw [Topology.graph, SimpleGraph.fromRel_adj]
  constructor
  · rintro ⟨link, hlink, hne, ⟨rfl, hname⟩ | ⟨rfl, hname⟩⟩
    · rw [nodeId_injective hname]
      exact ⟨hne, Or.inl hlink⟩
    · rw [nodeId_injective hname]
      exact ⟨hne.symm, Or.inr hlink⟩
  · rintro ⟨hne, hforth | hback⟩
    · exact ⟨_, hforth, hne, Or.inl ⟨rfl, rfl⟩⟩
    · exact ⟨_, hback, hne.symm, Or.inr ⟨rfl, rfl⟩⟩

/-- Whether the node in a place has seen a message. -/
theorem map_hasSeen_eq {world : World σ 1} {index : Nat} {member : Member 1}
    (hat : world.members[index]? = some member) (id : MessageId) :
    world.nodes[index]?.map (·.hasSeen id) = some (decide (id ∈ member.node.seen)) := by
  rw [World.nodes, List.getElem?_map, hat, Option.map_some, Option.map_some, Node.hasSeen,
    List.contains_eq_mem]

section Founded

variable {config : SimulationConfig} {generators : Generators σ} {hasClock : Bool}
  {start : Simulation σ}

/-- A walk in the graph of the links is a way from peer to peer. -/
theorem Founded.reaches_of_walk (h : start.Founded config generators hasClock) {a b : Nat}
    (walk : (Topology.graph start.links).Walk a b) :
    start.world.wiring.Reaches (nodeId a) (nodeId b) walk.length := by
  induction walk using SimpleGraph.Walk.concatRec with
  | Hnil => exact .refl
  | @Hconcat a b c walk hadj ih =>
    have hneighbour := neighbour_iff_adj.mpr hadj
    obtain ⟨link, hlink, -, hends⟩ := hneighbour
    have hlt : b < config.nodeCount := by
      rcases hends with ⟨rfl, -⟩ | ⟨rfl, -⟩
      · exact (h.within link hlink).1
      · exact (h.within link hlink).2
    obtain ⟨entry, hat, hname⟩ := h.exists_wiring_at hlt
    have hpeer := ((h.wiring_at hat).2.2 (nodeId c)).mpr (neighbour_iff_adj.mpr hadj)
    have hentry := List.mem_of_getElem? hat
    rw [SimpleGraph.Walk.length_concat]
    exact ih.hop (hname ▸ hentry) hpeer

/-- A way from peer to peer is a walk in the graph of the links. -/
theorem Founded.exists_walk (h : start.Founded config generators hasClock) {a hops : Nat}
    {name : NodeId} (hreach : start.world.wiring.Reaches (nodeId a) name hops) :
    ∃ b, name = nodeId b ∧ ∃ walk : (Topology.graph start.links).Walk a b, walk.length = hops := by
  induction hreach with
  | refl => exact ⟨a, rfl, .nil, rfl⟩
  | hop _ hentry hpeer ih =>
    obtain ⟨b, rfl, walk, hlength⟩ := ih
    obtain ⟨index, hat⟩ := List.mem_iff_getElem?.mp hentry
    obtain ⟨-, hname, hpeers⟩ := h.wiring_at hat
    have hneighbour := (hpeers _).mp hpeer
    rw [← nodeId_injective hname] at hneighbour
    obtain ⟨c, -, -, rfl⟩ := exists_of_neighbour h.within hneighbour
    refine ⟨c, rfl, walk.concat (neighbour_iff_adj.mp hneighbour), ?_⟩
    rw [SimpleGraph.Walk.length_concat, hlength]

/-- The least number of hops between two nodes is their distance. -/
theorem Founded.reaches_dist (h : start.Founded config generators hasClock) {a b : Nat}
    (ha : a < config.nodeCount) (hb : b < config.nodeCount) :
    start.world.wiring.Reaches (nodeId a) (nodeId b) ((Topology.graph start.links).dist a b) ∧
      ∀ hops, start.world.wiring.Reaches (nodeId a) (nodeId b) hops →
        (Topology.graph start.links).dist a b ≤ hops := by
  obtain ⟨shortest, hshortest⟩ :=
    (h.joined a ha b hb).reachable.exists_walk_length_eq_dist
  constructor
  · rw [← hshortest]
    exact h.reaches_of_walk shortest
  · intro hops hreach
    obtain ⟨c, hname, walk, hlength⟩ := h.exists_walk hreach
    cases nodeId_injective hname
    rw [← hlength]
    exact SimpleGraph.dist_le walk

/-- A reliable simulation that was set up knows no broadcast yet. -/
theorem Founded.wave (h : start.Founded config generators true) {delay : Nat}
    (htimely : start.world.Timely delay) (hdrop : config.dropRate.magnitude = 0)
    (hfanout : ∀ node ∈ start.world.nodes, node.peers.length ≤ config.fanout) :
    start.world.Wave start.world.wiring delay [] :=
  ⟨h.flood hdrop hfanout, htimely, fun _ hmem => absurd hmem List.not_mem_nil,
    fun _ hmem => absurd hmem List.not_mem_nil⟩

/-- The nodes of a flooded world have their places and names. -/
theorem Founded.exists_member_at (h : start.Founded config generators hasClock)
    {world : World σ 1} {made : List Message} (hflood : world.Flood start.world.wiring made [])
    {index : Nat} (hlt : index < config.nodeCount) :
    ∃ member, world.members[index]? = some member ∧ member.node.id = nodeId index := by
  obtain ⟨entry, hat, hname⟩ := h.exists_wiring_at hlt
  obtain ⟨member, hmember, hid⟩ := hflood.exists_member hat
  exact ⟨member, hmember, hid.trans hname⟩

end Founded

/-! ## The start -/

variable [Random.Source σ] {config : SimulationConfig} {generators : Generators σ} {wall : Nat}
  {start : Simulation σ}

/-- Rumor rounds that there are in a valid configuration are not repeated at once. -/
theorem rumorInterval_pos (h : config.check = .ok ()) (hrounds : 0 < config.rumorRounds) :
    0 < config.rumorIntervalMillis := by
  unfold SimulationConfig.check at h
  split at h
  · cases h
  · split at h
    · cases h
    · split at h
      · cases h
      · rename_i hrefused
        exact Nat.pos_of_ne_zero fun hzero => hrefused ⟨hrounds, hzero⟩

/-- A latency of 64 bits of microseconds, in milliseconds. -/
theorem millisCeil_ofMicros {micros : Nat} (h : micros < Width.words64) :
    (Duration.ofMicros micros).millisCeil = (micros + 999) / 1000 := by
  have hfits : 1000 * micros < Width.words64 * 1000000000 := by omega
  rw [Duration.ofMicros, Duration.clamp, dif_pos hfits, Duration.millisCeil]
  dsimp only
  omega

/-- Without a further delay, all sends in a simulation that was set up take the same time. -/
theorem timely_of_new (hvalid : config.check = .ok ()) (hjitter : config.jitterMicros = 0)
    (hlatency : config.latencyMicros < Width.words64) {hasClock : Bool}
    (hnew : Simulation.new config generators hasClock wall = .ok start) :
    start.world.Timely ((config.latencyMicros + 999) / 1000) := by
  rw [new_eq hvalid] at hnew
  cases hnew
  have hlinked (links : List Link) : (links.foldl connect (assembled
      (emptyNetwork config generators hasClock) #v[⟨config.fanout, none, generators.selection⟩]
        wall config.rumorRounds config.nodeCount)).Timely
          ((config.latencyMicros + 999) / 1000) := by
    rw [foldl_connect]
    refine ⟨?_, millisCeil_ofMicros hlatency, List.Pairwise.nil,
      fun _ hmem => absurd hmem List.not_mem_nil, fun _ hmem => absurd hmem List.not_mem_nil⟩
    have hnone : (Duration.ofMicros config.jitterMicros).micros = 0 := by
      rw [hjitter]
      rfl
    exact hnone
  unfold wired
  dsimp only
  split
  · rename_i hrounds
    rw [Bool.and_eq_true, decide_eq_true_eq] at hrounds
    have hpositive := rumorInterval_pos hvalid hrounds.1
    refine (hlinked _).keepsTime (World.keepsTime_schedule _ hpositive fun heq => ?_)
    exact absurd (Task.rounds.inj heq) (Nat.ne_of_gt hpositive)
  · exact hlinked _

/-! ## Punctual runs -/

/-- Whether everything that happens in a simulation is punctual: broadcasts are made, tasks have
their turn in any order, and time passes only when they have had it; delays, peers and endpoints
stay what they are, and no node is shut down. -/
def isPunctual (simulation : Simulation σ) : List Occurrence → Bool
  | [] => true
  | occurrence :: rest =>
    simulation.world.isPunctual (occurrence.moves simulation) &&
      (simulation.proceed occurrence).isPunctual rest

/-- The emissions of the broadcasts that are made on the way. -/
def emissions (simulation : Simulation σ) : List Occurrence → List Emission
  | [] => []
  | occurrence :: rest =>
    simulation.world.emissions (occurrence.moves simulation) ++
      (simulation.proceed occurrence).emissions rest

/-- They are those of the messages that are made. -/
theorem map_message_emissions (simulation : Simulation σ) (occurrences : List Occurrence) :
    (simulation.emissions occurrences).map (·.message) = simulation.broadcasts occurrences := by
  induction occurrences generalizing simulation with
  | nil => rfl
  | cons occurrence rest ih =>
    rw [emissions, broadcasts, List.map_append, ih, World.map_message_emissions]

/-- What happens later is emitted later. -/
theorem emissions_append (simulation : Simulation σ) (earlier later : List Occurrence) :
    simulation.emissions (earlier ++ later) =
      simulation.emissions earlier ++ (simulation.proceedAll earlier).emissions later := by
  induction earlier generalizing simulation with
  | nil => rfl
  | cons occurrence rest ih =>
    rw [List.cons_append, emissions, ih, emissions, List.append_assoc]
    rfl

/-- In a punctual run the waves go on. -/
theorem wave_proceedAll {simulation : Simulation σ} {wiring : Wiring} {delay : Nat}
    {past : List Emission} (h : simulation.world.Wave wiring delay past)
    {occurrences : List Occurrence} (hpunctual : simulation.isPunctual occurrences = true)
    (hdistinct : ((past ++ simulation.emissions occurrences).map (·.message.id)).Nodup) :
    (simulation.proceedAll occurrences).world.Wave wiring delay
      (past ++ simulation.emissions occurrences) := by
  induction occurrences generalizing simulation past with
  | nil =>
    rw [emissions, List.append_nil]
    exact h
  | cons occurrence rest ih =>
    rw [isPunctual, Bool.and_eq_true] at hpunctual
    rw [emissions, ← List.append_assoc] at hdistinct ⊢
    have hfirst := h.run hpunctual.1 (by
      rw [List.map_append] at hdistinct
      exact hdistinct.of_append_left)
    rw [← world_proceed] at hfirst
    exact ih hfirst hpunctual.2 hdistinct

/-- A run is punctual if its beginning is, and what happens after it. -/
theorem isPunctual_append (simulation : Simulation σ) (earlier later : List Occurrence) :
    simulation.isPunctual (earlier ++ later) =
      (simulation.isPunctual earlier && (simulation.proceedAll earlier).isPunctual later) := by
  induction earlier generalizing simulation with
  | nil => rfl
  | cons occurrence rest ih =>
    rw [List.cons_append, isPunctual, ih, isPunctual, Bool.and_assoc]
    rfl

/-- The broadcast of a node is emitted when it is made. -/
theorem emissions_broadcastFrom {simulation : Simulation σ} {wiring : Wiring} {delay : Nat}
    {past : List Emission} (hindexed : simulation.Indexed)
    (h : simulation.world.Wave wiring delay past) {member : Member 1}
    (hmember : member ∈ simulation.world.members) (id : MessageId) (kind : String)
    (payload : Payload) :
    simulation.world.emissions (Occurrence.moves simulation
        (.broadcastFrom member.node.id id kind payload)) =
      [⟨simulation.world.agenda.now,
        ⟨id, kind, member.node.id, payload, simulation.world.wall⟩⟩] := by
  have hknown : member.node.id ∈ simulation.nodeIds := by
    rw [nodeIds, World.nodes, List.map_map]
    exact List.mem_map_of_mem hmember
  obtain ⟨index, found, hindex, hat, hname⟩ := hindexed.exists_indexOf? hknown
  have hup := (h.flood.informed found (List.mem_of_getElem? hat)).up
  rw [← hname] at hindex ⊢
  simp only [Occurrence.moves, hindex, Option.map_some, Option.toList_some, World.emissions,
    World.emitted, World.originatedBy, World.originatedAt, hat, World.lifeOf, Life.originated?, hup]
  rfl

/-- When a node of a reliable simulation makes a broadcast in a punctual run, none of the broadcasts
before has its id, and it sets off one of the waves. -/
theorem Founded.wave_of_broadcastFrom (h : start.Founded config generators true) {delay : Nat}
    (hstart : start.world.Wave start.world.wiring delay []) {before after : List Occurrence}
    {origin : Nat} (horigin : origin < config.nodeCount) {id : MessageId} {kind : String}
    {payload : Payload}
    (hpunctual : start.isPunctual
      (before ++ .broadcastFrom (nodeId origin) id kind payload :: after) = true)
    (hdistinct : ((start.emissions
      (before ++ .broadcastFrom (nodeId origin) id kind payload :: after)).map
        (·.message.id)).Nodup) :
    (start.proceedAll before).world.Wave start.world.wiring delay (start.emissions before) ∧
      (∀ earlier ∈ start.emissions before, earlier.message.id ≠ id) ∧
      ⟨(start.proceedAll before).world.agenda.now,
        ⟨id, kind, nodeId origin, payload, (start.proceedAll before).world.wall⟩⟩ ∈
          start.emissions (before ++ .broadcastFrom (nodeId origin) id kind payload :: after) := by
  rw [emissions_append, emissions, List.map_append] at hdistinct
  rw [isPunctual_append, Bool.and_eq_true] at hpunctual
  have hmade := wave_proceedAll hstart hpunctual.1 hdistinct.of_append_left
  rw [List.nil_append] at hmade
  obtain ⟨source, hsource, hname⟩ := h.exists_member_at hmade.flood horigin
  have hone := emissions_broadcastFrom (h.indexed.proceedAll before) hmade
    (List.mem_of_getElem? hsource) id kind payload
  rw [hname] at hone
  rw [hone, List.singleton_append, List.map_cons] at hdistinct
  refine ⟨hmade, fun earlier hmem heq => ?_, ?_⟩
  · refine List.disjoint_of_nodup_append hdistinct (List.mem_map_of_mem hmem) ?_
    rw [heq]
    exact List.mem_cons_self
  · rw [emissions_append, emissions, hone]
    exact List.mem_append_right _ List.mem_cons_self

/-! ## The passage of time is punctual -/

/-- Ticks are punctual in a simulation if they are in its world. -/
theorem isPunctual_ticking (simulation : Simulation σ) {moves : List (Move 1)}
    (h : ∀ move ∈ moves, move.isTick = true) :
    simulation.isPunctual (ticking moves h) = simulation.world.isPunctual moves := by
  induction moves generalizing simulation with
  | nil => rfl
  | cons move rest ih =>
    have hfirst : simulation.world.isPunctual [move] = move.isPunctual simulation.world :=
      Bool.and_true _
    exact congrArg₂ (· && ·) hfirst (ih { simulation with world := simulation.world.step move }
      fun other hmem => h other (List.mem_cons_of_mem move hmem))

/-- What comes punctually of the world of a simulation comes of a punctual run in which no broadcast
is made. -/
theorem exists_punctual_of_isPromptlyLater {simulation : Simulation σ} {later : World σ 1}
    (h : simulation.world.IsPromptlyLater later) :
    ∃ occurrences, simulation.isPunctual occurrences = true ∧
      simulation.proceedAll occurrences = { simulation with world := later } ∧
      simulation.broadcasts occurrences = [] := by
  obtain ⟨moves, hticks, hpunctual, rfl⟩ := h
  refine ⟨ticking moves hticks, ?_, simulation.proceedAll_ticking hticks,
    simulation.broadcasts_ticking hticks⟩
  rw [isPunctual_ticking, hpunctual]

/-- The tasks that are ready, and the timers whose time has come, have their turn in a punctual run,
after which the simulation has caught up. -/
theorem exists_punctual_catchUp {simulation : Simulation σ} (h : simulation.world.Prompt) :
    (∃ occurrences, simulation.isPunctual occurrences = true ∧
      simulation.proceedAll occurrences = simulation.catchUp ∧
      simulation.broadcasts occurrences = []) ∧
    simulation.catchUp.world.agenda.isCaughtUp = true :=
  ⟨exists_punctual_of_isPromptlyLater h.catchUp.1, h.catchUp.2⟩

/-- When a simulation has caught up, the passage of time is a punctual run, after which it has
caught up again. -/
theorem exists_punctual_advance {simulation : Simulation σ} (h : simulation.world.Prompt)
    (hcaught : simulation.world.agenda.isCaughtUp = true) (millis : Nat) :
    (∃ occurrences, simulation.isPunctual occurrences = true ∧
      simulation.proceedAll occurrences = simulation.advance millis ∧
      simulation.broadcasts occurrences = []) ∧
    (simulation.advance millis).world.agenda.isCaughtUp = true :=
  have hadvance := h.advance hcaught millis
  ⟨exists_punctual_of_isPromptlyLater hadvance.1, hadvance.2⟩

/-- The wait for agreement is a punctual run. -/
theorem exists_punctual_wait {simulation : Simulation σ} (h : simulation.world.Prompt)
    (key : String) (timeout : Duration) :
    ∃ occurrences, simulation.isPunctual occurrences = true ∧
      simulation.proceedAll occurrences = (simulation.wait key timeout).2 ∧
      simulation.broadcasts occurrences = [] :=
  exists_punctual_of_isPromptlyLater (h.wait (simulation.watch key) _ 0)

/-! ## The distance -/

/-- Without losses and further delays, and with a fanout for all peers of every node, a broadcast is
seen by a node at some distance from its origin after so many times the latency, rounded up to
milliseconds. It is seen by nobody before it is made, by the node at no time before it is due there,
and as soon as the tasks of the millisecond in which it is due have had their turn, in whatever
order, it is seen by the node whatever happens later. Any number of broadcasts with different ids may
be under way. -/
theorem broadcasts_spread_at_distance {config : SimulationConfig} (hvalid : config.check = .ok ())
    (hdrop : config.dropRate.magnitude = 0) (hjitter : config.jitterMicros = 0)
    (hlatency : config.latencyMicros < Width.words64) (generators : Generators σ) (wall : Nat) :
    ∃ start, Simulation.new config generators true wall = .ok start ∧
      ((∀ node ∈ start.world.nodes, node.peers.length ≤ config.fanout) →
        ∀ before, ∀ origin < config.nodeCount, ∀ id kind payload after,
          let occurrences := before ++ .broadcastFrom (nodeId origin) id kind payload :: after
          start.isPunctual occurrences = true →
          ((start.broadcasts occurrences).map (·.id)).Nodup →
          let made := (start.proceedAll before).world
          let reached := (start.proceedAll occurrences).world
          (∀ node ∈ made.nodes, node.hasSeen id = false) ∧
          ∀ index < config.nodeCount,
            let due := made.agenda.now + (Topology.graph start.links).dist origin index *
              ((config.latencyMicros + 999) / 1000)
            (reached.agenda.now < due →
              reached.nodes[index]?.map (·.hasSeen id) = some false) ∧
            (due < reached.agenda.now ∨
                due = reached.agenda.now ∧ reached.agenda.isCaughtUp = true →
              ∀ later, (start.proceedAll (occurrences ++ later)).world.nodes[index]?.map
                (·.hasSeen id) = some true)) := by
  obtain ⟨start, hnew, hfounded⟩ := exists_founded hvalid generators true wall
  refine ⟨start, hnew, fun hfanout before origin horigin id kind payload after => ?_⟩
  intro occurrences hpunctual hdistinct made reached
  have hstart := hfounded.wave (timely_of_new hvalid hjitter hlatency hnew) hdrop hfanout
  have hids : ((start.emissions occurrences).map (·.message.id)).Nodup := by
    rw [← map_message_emissions, List.map_map] at hdistinct
    exact hdistinct
  have hreached := wave_proceedAll hstart hpunctual hids
  rw [List.nil_append] at hreached
  obtain ⟨hmade, hfresh, hemission⟩ := hfounded.wave_of_broadcastFrom hstart horigin hpunctual hids
  refine ⟨fun node hnode => ?_, fun index hindex => ?_⟩
  · obtain ⟨member, hmember, rfl⟩ := List.mem_map.mp hnode
    refine Bool.eq_false_iff.mpr fun hseen => ?_
    exact (hmade.fresh hfresh).1 _ ⟨member, hmember, rfl, List.contains_iff_mem.mp hseen⟩
  · obtain ⟨hreach, hshortest⟩ := hfounded.reaches_dist horigin hindex
    obtain ⟨member, hat, hname⟩ := hfounded.exists_member_at hreached.flood hindex
    have hmember := List.mem_of_getElem? hat
    rw [← hname] at hreach hshortest
    refine ⟨fun hearly => ?_, fun hdue later => ?_⟩
    · have hunseen := hreached.not_seen_of_lt hemission hmember hshortest hearly
      rw [map_hasSeen_eq hat, decide_eq_false hunseen]
    · have hseen := hreached.seen_of_due hemission hmember hreach hdue
      have hpassage := passage_proceedAll (start.proceedAll occurrences) later
      obtain ⟨last, hlast, hkept⟩ := hpassage.exists_seen hat hseen
      rw [proceedAll_append]
      exact (map_hasSeen_eq hlast id).trans (congrArg some (decide_eq_true hkept))

/-- A millisecond in the course of which up to five tasks have their turn. -/
def elapsed : List Occurrence :=
  ticking (.pass 1 :: .fire :: List.replicate 5 (.turn 0)) (by decide)

/-- Three milliseconds in the course of which nothing happens. -/
def earlier : List Occurrence := ticking [.pass 3] (by decide)

/-- One task has its turn. -/
def handedOver : List Occurrence := ticking [.turn 0] (by decide)

/-- A broadcast after three milliseconds, and some time for it. -/
def relayedFor (millis : Nat) : List Occurrence :=
  earlier ++ .broadcastFrom (nodeId 1) "first" "update" [("key", .int 1)] ::
    (handedOver ++ (List.replicate millis elapsed).flatten)

/-- From the second of three nodes it is two hops over the third one to the first one, which has not
seen the broadcast a millisecond later, and has seen it two milliseconds later, when a rumor round
comes in between. -/
theorem broadcasts_spread_at_distance_relayedFor :
    ∃ start,
      Simulation.new trio (⟨⟨[]⟩, ⟨[]⟩, ⟨[]⟩⟩ : Generators Random.Script) true 0 = .ok start ∧
      (start.proceedAll (relayedFor 1)).world.nodes[0]?.map (·.hasSeen "first") = some false ∧
      (start.proceedAll (relayedFor 2)).world.nodes[0]?.map (·.hasSeen "first") = some true := by
  have hvalid : trio.check = .ok () := rfl
  obtain ⟨start, hnew, hspread⟩ := broadcasts_spread_at_distance hvalid rfl rfl (by decide)
    (⟨⟨[]⟩, ⟨[]⟩, ⟨[]⟩⟩ : Generators Random.Script) 0
  have hfacts : (Simulation.new trio (⟨⟨[]⟩, ⟨[]⟩, ⟨[]⟩⟩ : Generators Random.Script) true
      0).toOption.map (fun start => decide
        (start.links = [⟨0, 2⟩, ⟨1, 2⟩] ∧ (∀ node ∈ start.world.nodes, node.peers.length ≤ 2) ∧
          (start.proceedAll earlier).world.agenda.now = 3 ∧
          (start.proceedAll (relayedFor 1)).world.agenda.now = 4 ∧
          (start.proceedAll (relayedFor 2)).world.agenda.now = 5 ∧
          (start.proceedAll (relayedFor 2)).world.agenda.isCaughtUp = true ∧
          ∀ millis ∈ [1, 2], start.isPunctual (relayedFor millis) = true ∧
            (start.broadcasts (relayedFor millis)).map (·.id) = ["first"])) = some true := by
    decide +kernel
  rw [hnew] at hfacts
  obtain ⟨hlinks, hfanout, hstart, hfour, hfive, hcaught, hruns⟩ :=
    of_decide_eq_true (Option.some.inj hfacts)
  -- The first and the second node are linked with the third one, and not with each other.
  have hdist : (Topology.graph start.links).dist 1 0 = 2 := by
    have hadj (a b : Nat) : (Topology.graph start.links).Adj a b ↔
        a ≠ b ∧ ((⟨a, b⟩ : Link) ∈ start.links ∨ ⟨b, a⟩ ∈ start.links) :=
      SimpleGraph.fromRel_adj _ a b
    rw [hlinks] at hadj ⊢
    have hfirst := (hadj 1 2).mpr (by decide)
    have hsecond := (hadj 2 0).mpr (by decide)
    have hle := SimpleGraph.dist_le (.cons hfirst (.cons hsecond .nil))
    have hlt := (hfirst.reachable.trans hsecond.reachable).one_lt_dist_of_ne_of_not_adj (by decide)
      fun h => absurd ((hadj 1 0).mp h) (by decide)
    exact Nat.le_antisymm hle hlt
  have hnodup (millis : Nat) (hmem : millis ∈ [1, 2]) :
      ((start.broadcasts (relayedFor millis)).map (·.id)).Nodup := by
    rw [(hruns millis hmem).2]
    exact List.nodup_singleton _
  obtain ⟨-, hearly⟩ := hspread hfanout earlier 1 (by decide) "first" "update"
    [("key", .int 1)] (handedOver ++ (List.replicate 1 elapsed).flatten)
    (hruns 1 (by decide)).1 (hnodup 1 (by decide))
  obtain ⟨-, hlate⟩ := hspread hfanout earlier 1 (by decide) "first" "update"
    [("key", .int 1)] (handedOver ++ (List.replicate 2 elapsed).flatten)
    (hruns 2 (by decide)).1 (hnodup 2 (by decide))
  obtain ⟨hbefore, -⟩ := hearly 0 (by decide)
  obtain ⟨-, hafter⟩ := hlate 0 (by decide)
  have hdue : 3 + 2 * ((trio.latencyMicros + 999) / 1000) = 5 := rfl
  rw [relayedFor] at hfour hfive hcaught
  rw [hstart, hdist, hdue, hfour] at hbefore
  rw [hstart, hdist, hdue, hfive, hcaught] at hafter
  have hseen := hafter (Or.inr ⟨rfl, rfl⟩) []
  rw [List.append_nil] at hseen
  exact ⟨start, hnew, hbefore (by decide), hseen⟩

end Simulation

end Epidemic
