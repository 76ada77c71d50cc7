import Epidemic.Proofs.Simulation.Union
import Epidemic.Proofs.World.Draining
import Epidemic.Proofs.World.Traffic

/-!
# The traffic of a simulation

However long a simulation runs, its traffic is bounded by the number of broadcasts. For each of
them a node hands over one batch, and one more for each rumor round, so the number of sends is at
most the product of fanout, batches, nodes and broadcasts. The queue can therefore be drained while
the clock stands still, in any order.
-/

namespace Epidemic.Simulation

variable {σ : Type}

section Founded

variable {config : SimulationConfig} {generators : Generators σ} {hasClock : Bool}
  {simulation : Simulation σ}

/-- The sum of counters that are zero is zero. -/
theorem total_eq_zero {count : Node → Nat} {nodes : List Node} (h : ∀ node ∈ nodes, count node = 0) :
    total count nodes = 0 := by
  induction nodes with
  | nil => rfl
  | cons node rest ih =>
    rw [total, h node List.mem_cons_self, ih fun other hmem => h other (List.mem_cons_of_mem node hmem)]

/-- At first there is no traffic. -/
theorem Founded.traffic (h : simulation.Founded config generators hasClock) :
    simulation.world.Traffic ((List.range config.nodeCount).map nodeId) config.fanout
      config.rumorRounds [] [] where
  knowledge := h.knowledge
  named := h.nodeIds_eq
  rules member := by
    rw [protocolOf_eq h.protocols]
  keeping member hmember := by
    obtain ⟨index, -, peers, hnode⟩ := h.exists_new hmember
    rw [hnode]
    rfl
  thrifty member hmember := by
    obtain ⟨index, -, peers, hnode⟩ := h.exists_new hmember
    rw [hnode]
    exact ⟨fun _ hmem => absurd hmem List.not_mem_nil, fun id => Nat.zero_le _⟩
  pushes batch hbatch := absurd hbatch List.not_mem_nil
  posted := by
    rw [World.posted, h.journal]
    rfl
  sent := by
    rw [World.posted, h.journal, h.network]
    rfl
  forwards := by
    refine total_eq_zero fun node hnode => ?_
    obtain ⟨member, hmember, rfl⟩ := List.mem_map.mp hnode
    obtain ⟨index, -, peers, hnew⟩ := h.exists_new hmember
    rw [hnew]
    rfl

end Founded

variable [Random.Source σ]

/-- Whatever happens in a simulation, its nodes keep to the traffic that they are entitled to. -/
theorem Founded.traffic_proceedAll {config : SimulationConfig} {generators : Generators σ}
    {hasClock : Bool} {start : Simulation σ} (h : start.Founded config generators hasClock)
    {occurrences : List Occurrence}
    (hdistinct : ((start.broadcasts occurrences).map (·.id)).Nodup) :
    (start.proceedAll occurrences).world.Traffic ((List.range config.nodeCount).map nodeId)
      config.fanout config.rumorRounds (start.broadcasts occurrences) (start.batches occurrences) :=
  h.traffic.passage (nodup_map_nodeId _) hdistinct (start.passage_proceedAll occurrences)

/-- Whatever happens, there are as many nodes as were to be. -/
theorem Founded.length_nodes {config : SimulationConfig} {generators : Generators σ}
    {hasClock : Bool} {start : Simulation σ} (h : start.Founded config generators hasClock)
    {occurrences : List Occurrence}
    (hdistinct : ((start.broadcasts occurrences).map (·.id)).Nodup) :
    (start.proceedAll occurrences).world.nodes.length = config.nodeCount := by
  have hnames := congrArg List.length (h.traffic_proceedAll hdistinct).named
  rwa [List.length_map, List.length_map, List.length_range] at hnames

/-- Tasks that have their turn while the clock stands still are bounded in number, whatever has
happened before and in whatever order they have it. -/
theorem length_le_of_drains {names : List NodeId} (hnames : names.Nodup) {fanout rounds : Nat}
    {made : List Message} {batches : List Batch} {world : World σ 1}
    (h : world.Traffic names fanout rounds made batches) (hdistinct : (made.map (·.id)).Nodup)
    {positions : List Nat} (hdrains : world.Drains positions) :
    positions.length + world.network.stats.sent ≤
      world.agenda.ready.length + fanout * (1 + rounds) * names.length * made.length := by
  have hpassage := world.passage_run (positions.map .turn) fun move hmove => by
    obtain ⟨position, -, rfl⟩ := List.mem_map.mp hmove
    rfl
  rw [World.broadcasts_turns] at hpassage
  have hafter := h.passage hnames (by rwa [List.append_nil]) hpassage
  rw [List.append_nil] at hafter
  have hsent := hafter.sent_le
  have hlength := World.length_le_of_drains hdrains
  omega

/-- Whatever happens in a simulation whose broadcasts have different ids, all that nodes send are
batches, each of them one message from one node to no more targets than the fanout. For every
message a node hands over no more than one batch, and one more for each rumor round. So the number of
sends is bounded by the numbers of nodes and broadcasts; and when ready tasks have their turn while
the clock stands still, there are no more turns than this, in whatever order they are taken, until no
task is ready any more. -/
theorem traffic_is_bounded {config : SimulationConfig} (hvalid : config.check = .ok ())
    (generators : Generators σ) (hasClock : Bool) (wall : Nat) :
    ∃ start, Simulation.new config generators hasClock wall = .ok start ∧
      ∀ occurrences, ((start.broadcasts occurrences).map (·.id)).Nodup →
        let made := start.broadcasts occurrences
        let batches := start.batches occurrences
        let after := start.proceedAll occurrences
        let bound := config.fanout * (1 + config.rumorRounds) * config.nodeCount * made.length
        after.world.posted = batches.flatten ∧
        after.stats.forwardCount = batches.length ∧
        (∀ batch ∈ batches, ∃ node ∈ after.world.nodes, ∃ message ∈ made,
          batch.IsPush node.id message config.fanout) ∧
        (∀ node ∈ after.world.nodes, ∀ id,
          batches.countP (fun batch => batch.isFrom node.id && batch.carries id) ≤
            1 + config.rumorRounds) ∧
        after.stats.messageCount ≤ bound ∧
        (∀ positions, after.world.Drains positions →
          positions.length + after.stats.messageCount ≤
            after.world.agenda.ready.length + bound) ∧
        ∃ positions, after.world.Drains positions ∧
          after.world.run (positions.map .turn) = after.world.settle ∧
          after.world.settle.agenda.ready = [] := by
  obtain ⟨start, hnew, hfounded⟩ := exists_founded hvalid generators hasClock wall
  refine ⟨start, hnew, fun occurrences hdistinct => ?_⟩
  intro made batches after bound
  have htraffic : after.world.Traffic ((List.range config.nodeCount).map nodeId) config.fanout
      config.rumorRounds made batches := hfounded.traffic_proceedAll hdistinct
  have hlength : ((List.range config.nodeCount).map nodeId).length = config.nodeCount := by
    rw [List.length_map, List.length_range]
  refine ⟨htraffic.posted, htraffic.forwards, fun batch hbatch => ?_, fun node hnode id => ?_, ?_,
    fun positions hdrains => ?_, after.world.exists_drains_settle⟩
  · obtain ⟨name, hname, message, hmessage, hpush⟩ := htraffic.pushes batch hbatch
    rw [← htraffic.named, List.mem_map] at hname
    obtain ⟨node, hnode, rfl⟩ := hname
    exact ⟨node, hnode, message, hmessage, hpush⟩
  · obtain ⟨member, hmember, rfl⟩ := List.mem_map.mp hnode
    exact htraffic.countP_le hmember id
  · have hsent := htraffic.sent_le
    rw [hlength] at hsent
    exact hsent
  · have hturns := length_le_of_drains (nodup_map_nodeId _) htraffic hdistinct hdrains
    rw [hlength] at hturns
    exact hturns

/-- Two broadcasts that cross each other, and two rumor rounds of the node that made the first. -/
def retold : List Occurrence :=
  crossed ++ [.happens (.gossipRound 0) rfl, .happens (.gossipRound 0) rfl]

/-- The node hands over its message twice, which is all that its one rumor round allows. -/
theorem traffic_is_bounded_retold :
    ∃ start,
      Simulation.new trio (⟨⟨[]⟩, ⟨[]⟩, ⟨[]⟩⟩ : Generators Random.Script) true 0 = .ok start ∧
      (start.batches retold).countP (fun batch => batch.isFrom "node-0" && batch.carries "first") =
        2 ∧
      (∀ node ∈ (start.proceedAll retold).world.nodes, ∀ id,
        (start.batches retold).countP (fun batch => batch.isFrom node.id && batch.carries id) ≤ 2) ∧
      (start.proceedAll retold).stats.messageCount ≤ 24 := by
  have hvalid : trio.check = .ok () := rfl
  obtain ⟨start, hnew, hbounded⟩ := traffic_is_bounded hvalid
    (⟨⟨[]⟩, ⟨[]⟩, ⟨[]⟩⟩ : Generators Random.Script) true 0
  have hfacts : (Simulation.new trio (⟨⟨[]⟩, ⟨[]⟩, ⟨[]⟩⟩ : Generators Random.Script) true
      0).toOption.map (fun start => ((start.broadcasts retold).map (·.id),
        (start.batches retold).countP fun batch =>
          batch.isFrom "node-0" && batch.carries "first")) = some (["first", "second"], 2) := by
    decide +kernel
  rw [hnew] at hfacts
  obtain ⟨hids, htwice⟩ := Prod.mk.inj (Option.some.inj hfacts)
  have hdistinct : ((start.broadcasts retold).map (·.id)).Nodup := by
    rw [hids]
    decide
  have hmade : (start.broadcasts retold).length = 2 := by
    have hlength := congrArg List.length hids
    rwa [List.length_map] at hlength
  obtain ⟨-, -, -, hper, hsent, -⟩ := hbounded retold hdistinct
  rw [hmade] at hsent
  exact ⟨start, hnew, htwice, hper, hsent⟩

end Epidemic.Simulation
