import Epidemic.Proofs.Simulation.Traffic
import Epidemic.Proofs.World.Counters

/-!
# The statistics of a simulation

The counters that a simulation ends with come from its network and from its nodes. They agree: what
was delivered was accepted, received again or refused; what nodes have seen they have accepted or
made; nobody accepts its own broadcast; and batches and sends go together.
-/

namespace Epidemic.Simulation

variable {σ : Type}

/-- Sums of counters that belong together node by node. -/
theorem total_eq_add {first second third : Node → Nat} {nodes : List Node}
    (h : ∀ node ∈ nodes, first node = second node + third node) :
    total first nodes = total second nodes + total third nodes := by
  induction nodes with
  | nil => rfl
  | cons node rest ih =>
    have hnode := h node List.mem_cons_self
    have hrest := ih fun other hmem => h other (List.mem_cons_of_mem node hmem)
    rw [total, total, total]
    omega

/-- A sum of bounded counters. -/
theorem total_le {count : Node → Nat} {bound : Nat} {nodes : List Node}
    (h : ∀ node ∈ nodes, count node ≤ bound) : total count nodes ≤ nodes.length * bound := by
  induction nodes with
  | nil => exact Nat.zero_le _
  | cons node rest ih =>
    have hnode := h node List.mem_cons_self
    have hrest := ih fun other hmem => h other (List.mem_cons_of_mem node hmem)
    rw [total, List.length_cons, Nat.succ_mul]
    omega

/-- A counter is no greater than its sum over several nodes. -/
theorem le_total (count : Node → Nat) {nodes : List Node} {node : Node} (h : node ∈ nodes) :
    count node ≤ total count nodes := by
  induction nodes with
  | nil => cases h
  | cons first rest ih =>
    rw [total]
    rcases List.mem_cons.mp h with rfl | hlater
    · exact Nat.le_add_right _ _
    · exact Nat.le_add_left_of_le (ih hlater)

/-- At first all counters are zero. -/
theorem Founded.counters {config : SimulationConfig} {generators : Generators σ} {hasClock : Bool}
    {simulation : Simulation σ} (h : simulation.Founded config generators hasClock) :
    simulation.world.Counters [] := by
  have hzero : ∀ node ∈ simulation.world.nodes, node.stats = .none := by
    intro node hnode
    obtain ⟨member, hmember, rfl⟩ := List.mem_map.mp hnode
    obtain ⟨index, -, peers, hnew⟩ := h.exists_new hmember
    rw [hnew]
    rfl
  have hreceptions : simulation.world.receptions = [] := by
    rw [World.receptions, h.journal]
    rfl
  refine ⟨fun entry hentry => ?_, ?_, ?_, ?_, ?_, fun hrefused => ?_⟩
  · rw [h.network] at hentry
    obtain ⟨index, hindex, rfl⟩ := List.mem_map.mp hentry
    rw [h.meshed.length]
    exact ⟨index, List.mem_range.mp hindex, rfl⟩
  · rw [hreceptions]
    exact total_eq_zero fun node hnode => by rw [hzero node hnode]; rfl
  · rw [hreceptions]
    exact total_eq_zero fun node hnode => by rw [hzero node hnode]; rfl
  · exact total_eq_zero fun node hnode => by rw [hzero node hnode]; rfl
  · rw [hreceptions, h.network]
    rfl
  · rw [hreceptions] at hrefused
    cases hrefused

variable [Random.Source σ]

/-- If the sends of a simulation and its broadcasts are no more than a word of 64 bits counts, every
counter of the network and of the nodes is such a word, and so are their sums. So a counter of 64 bits
never comes to its end before these two numbers do, and until then it shows the number that is counted
here. -/
theorem Founded.counters_lt {config : SimulationConfig} {generators : Generators σ}
    {hasClock : Bool} {start : Simulation σ} (h : start.Founded config generators hasClock)
    {occurrences : List Occurrence} (hdistinct : ((start.broadcasts occurrences).map (·.id)).Nodup)
    (hsent : (start.proceedAll occurrences).stats.messageCount < Width.words64)
    (hmade : (start.broadcasts occurrences).length < Width.words64) :
    let after := start.proceedAll occurrences
    (∀ outcome, after.world.network.stats.count outcome < Width.words64) ∧
    (∀ node ∈ after.world.nodes,
      node.stats.originated < Width.words64 ∧ node.stats.received < Width.words64 ∧
        node.stats.duplicates < Width.words64 ∧ node.stats.forwards < Width.words64) ∧
    after.stats.acceptedCount < Width.words64 ∧ after.stats.duplicateCount < Width.words64 ∧
      after.stats.forwardCount < Width.words64 := by
  intro after
  have haccounts : World.Accounts [] after.world := accounts_proceedAll h.accounts occurrences
  have hsum := haccounts.sent_eq
  have hsent : after.world.network.stats.sent < Width.words64 := hsent
  have hcounters : after.world.Counters (start.broadcasts occurrences) :=
    h.counters.passage hdistinct (start.passage_proceedAll occurrences)
  have htraffic := h.traffic_proceedAll hdistinct
  have hkinds := Reception.length_eq_counts after.world.receptions
  have hdelivered := hcounters.delivered
  have hreceived := hcounters.received
  have hduplicates := hcounters.duplicates
  have horiginated := hcounters.originated
  have hforwards : total (·.stats.forwards) after.world.nodes = (start.batches occurrences).length :=
    htraffic.forwards
  have hbatches : (start.batches occurrences).length ≤ after.world.network.stats.sent :=
    htraffic.sent_bounds.1
  refine ⟨fun outcome => ?_, fun node hnode => ?_, ?_, ?_, ?_⟩
  · cases outcome <;> simp only [NetworkStats.count] <;> omega
  · have hown := le_total (·.stats.originated) hnode
    have hnew := le_total (·.stats.received) hnode
    have hagain := le_total (·.stats.duplicates) hnode
    have hpushed := le_total (·.stats.forwards) hnode
    omega
  · show total (·.stats.received) after.world.nodes < Width.words64
    omega
  · show total (·.stats.duplicates) after.world.nodes < Width.words64
    omega
  · show total (·.stats.forwards) after.world.nodes < Width.words64
    omega

/-- Whatever happens in a simulation whose broadcasts have different ids, its statistics agree. What
was delivered was accepted or received again, unless it was refused by a node that is down; what the
nodes have seen, each of them no id twice, they have accepted or made themselves; each broadcast is
accepted by the other nodes at most; and there are as many sends as batches at least, and at most
that many times the fanout. -/
theorem statistics_agree {config : SimulationConfig} (hvalid : config.check = .ok ())
    (generators : Generators σ) (hasClock : Bool) (wall : Nat) :
    ∃ start, Simulation.new config generators hasClock wall = .ok start ∧
      ∀ occurrences, ((start.broadcasts occurrences).map (·.id)).Nodup →
        let after := start.proceedAll occurrences
        let nodes := after.world.nodes
        after.stats.acceptedCount + after.stats.duplicateCount +
            after.world.receptions.count .refused = after.stats.deliveredCount ∧
        ((∀ node ∈ nodes, node.isDown = false) →
          after.stats.acceptedCount + after.stats.duplicateCount = after.stats.deliveredCount) ∧
        (∀ node ∈ nodes, node.seen.Nodup) ∧
        total (·.seen.length) nodes =
          after.stats.acceptedCount + total (·.stats.originated) nodes ∧
        total (·.stats.originated) nodes = (start.broadcasts occurrences).length ∧
        after.stats.acceptedCount ≤
          (config.nodeCount - 1) * (start.broadcasts occurrences).length ∧
        after.stats.forwardCount ≤ after.stats.messageCount ∧
        after.stats.messageCount ≤ config.fanout * after.stats.forwardCount := by
  obtain ⟨start, hnew, hfounded⟩ := exists_founded hvalid generators hasClock wall
  refine ⟨start, hnew, fun occurrences hdistinct => ?_⟩
  intro after nodes
  have htraffic := hfounded.traffic_proceedAll hdistinct
  have hcounters : after.world.Counters (start.broadcasts occurrences) :=
    hfounded.counters.passage hdistinct (start.passage_proceedAll occurrences)
  have hknows : ∀ node ∈ nodes, node.Knows (start.broadcasts occurrences) := by
    intro node hnode
    obtain ⟨member, hmember, rfl⟩ := List.mem_map.mp hnode
    exact htraffic.knowledge.knows member hmember
  have hdelivered : after.stats.acceptedCount + after.stats.duplicateCount +
      after.world.receptions.count .refused = after.stats.deliveredCount := by
    have hkinds := Reception.length_eq_counts after.world.receptions
    have haccepted : after.stats.acceptedCount = after.world.receptions.count .accepted :=
      hcounters.received
    have hduplicate : after.stats.duplicateCount = after.world.receptions.count .repeated :=
      hcounters.duplicates
    have hlength : after.stats.deliveredCount = after.world.receptions.length :=
      hcounters.delivered
    omega
  have hseen : total (·.seen.length) nodes =
      after.stats.acceptedCount + total (·.stats.originated) nodes := by
    rw [Nat.add_comm]
    exact total_eq_add fun node hnode => (hknows node hnode).length_seen
  have hcount : nodes.length = config.nodeCount := by
    have hlengths := congrArg List.length htraffic.named
    rwa [List.length_map, List.length_map, List.length_range] at hlengths
  have hbound : total (·.seen.length) nodes ≤
      config.nodeCount * (start.broadcasts occurrences).length := by
    rw [← hcount]
    exact total_le fun node hnode => (hknows node hnode).length_seen_le
  have hforwards : after.stats.forwardCount = (start.batches occurrences).length :=
    htraffic.forwards
  obtain ⟨hlower, hupper⟩ := htraffic.sent_bounds
  rw [← hforwards] at hlower hupper
  refine ⟨hdelivered, fun hup => ?_, fun node hnode => (hknows node hnode).nodup, hseen,
    hcounters.originated, ?_, hlower, hupper⟩
  · have hnone : .refused ∉ after.world.receptions := by
      intro hrefused
      obtain ⟨node, hnode, hdown⟩ := hcounters.refused hrefused
      exact ne_true_of_eq_false (hup node hnode) hdown
    have hzero := List.count_eq_zero.mpr hnone
    omega
  · have horiginated : total (·.stats.originated) nodes = (start.broadcasts occurrences).length :=
      hcounters.originated
    rw [Nat.sub_one_mul]
    omega

/-- A broadcast while a second one, which was made before, is on its way to a node that has been shut
down meanwhile. In the end the whole simulation is shut down. -/
def cutShort : List Occurrence :=
  .broadcastFrom "node-2" "first" "update" [("key", .int 1)] ::
    (interval ++ .happens (.shutdown 1) rfl ::
      .broadcastFrom "node-2" "second" "update" [("key", .int 2)] ::
        (interval ++ .shutdown :: (interval ++ interval)))

/-- Then one message was accepted and three were refused. If nobody is shut down, as when two
broadcasts cross each other, all that was delivered was accepted or received again. -/
theorem statistics_agree_cutShort :
    ∃ start,
      Simulation.new trio (⟨⟨[]⟩, ⟨[]⟩, ⟨[]⟩⟩ : Generators Random.Script) true 0 = .ok start ∧
      (start.proceedAll cutShort).world.receptions.count .refused = 3 ∧
      (start.proceedAll cutShort).stats.acceptedCount = 1 ∧
      1 + (start.proceedAll cutShort).stats.duplicateCount + 3 =
        (start.proceedAll cutShort).stats.deliveredCount ∧
      (start.proceedAll crossed).stats.acceptedCount +
          (start.proceedAll crossed).stats.duplicateCount =
        (start.proceedAll crossed).stats.deliveredCount := by
  have hvalid : trio.check = .ok () := rfl
  obtain ⟨start, hnew, hagree⟩ := statistics_agree hvalid
    (⟨⟨[]⟩, ⟨[]⟩, ⟨[]⟩⟩ : Generators Random.Script) true 0
  have hfacts : (Simulation.new trio (⟨⟨[]⟩, ⟨[]⟩, ⟨[]⟩⟩ : Generators Random.Script) true
      0).toOption.map (fun start =>
        (((start.broadcasts cutShort).map (·.id), (start.broadcasts crossed).map (·.id)),
          ((start.proceedAll cutShort).world.receptions.count .refused,
            (start.proceedAll cutShort).stats.acceptedCount),
          (start.proceedAll crossed).world.nodes.map (·.isDown))) =
      some ((["first", "second"], ["first", "second"]), (3, 1), [false, false, false]) := by
    decide +kernel
  rw [hnew] at hfacts
  have hfacts := Option.some.inj hfacts
  rw [Prod.mk.injEq, Prod.mk.injEq, Prod.mk.injEq, Prod.mk.injEq] at hfacts
  obtain ⟨⟨hids, hids'⟩, ⟨hrefused, haccepted⟩, hup⟩ := hfacts
  have hcut := (hagree cutShort (by rw [hids]; decide)).1
  have hall := (hagree crossed (by rw [hids']; decide)).2.1
  have hnobody : ∀ node ∈ (start.proceedAll crossed).world.nodes, node.isDown = false := by
    intro node hnode
    have hmem : node.isDown ∈ [false, false, false] := by
      rw [← hup]
      exact List.mem_map_of_mem hnode
    simpa only [List.mem_cons, List.not_mem_nil, or_false, or_self] using hmem
  rw [hrefused, haccepted] at hcut
  exact ⟨start, hnew, hrefused, haccepted, hcut, hall hnobody⟩

end Epidemic.Simulation
