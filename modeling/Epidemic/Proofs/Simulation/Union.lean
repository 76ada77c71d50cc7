import Epidemic.Proofs.Simulation.Occurrence
import Epidemic.Proofs.World.Knowledge
import Epidemic.Random.Script

/-!
# What the nodes of a simulation hold

If the broadcasts of a simulation have different ids, every node knows some of them and nothing
else. If no two of them give one key different values, a node holds the values of exactly those that
it has seen, whatever the order in which they have reached it.
-/

namespace Epidemic.Simulation

variable {σ : Type}

section Founded

variable {config : SimulationConfig} {generators : Generators σ} {hasClock : Bool}
  {simulation : Simulation σ}

/-- At first every node is new, but for its peers. -/
theorem Founded.exists_new (h : simulation.Founded config generators hasClock) {member : Member 1}
    (hmember : member ∈ simulation.world.members) :
    ∃ index < config.nodeCount, ∃ peers,
      member.node = { Node.new (nodeId index) config.rumorRounds with peers } := by
  obtain ⟨index, hat⟩ := List.mem_iff_getElem?.mp hmember
  obtain ⟨peers, hnode, -, -⟩ := h.meshed.node index member hat
  obtain ⟨hlt, -⟩ := List.getElem?_eq_some_iff.mp hat
  rw [h.meshed.length] at hlt
  exact ⟨index, hlt, peers, hnode⟩

/-- At first nothing is in transit. -/
theorem Founded.transit (h : simulation.Founded config generators hasClock) :
    simulation.world.transit = [] := by
  rw [World.transit, h.pending]
  rfl

/-- At first nothing is known. -/
theorem Founded.knowledge (h : simulation.Founded config generators hasClock) :
    simulation.world.Knowledge [] where
  knows member hmember := by
    obtain ⟨index, -, peers, hnode⟩ := h.exists_new hmember
    rw [hnode]
    exact ⟨⟨[], fun _ hmem => absurd hmem List.not_mem_nil, rfl, rfl, rfl⟩, List.nodup_nil,
      fun _ hmem => absurd hmem List.not_mem_nil⟩
  transit envelope hmem := by
    rw [h.transit] at hmem
    cases hmem

end Founded

variable [Random.Source σ]

/-- Whatever happens in a simulation, nodes know nothing but the broadcasts that were made. -/
theorem Founded.knowledge_proceedAll {config : SimulationConfig} {generators : Generators σ}
    {hasClock : Bool} {start : Simulation σ} (h : start.Founded config generators hasClock)
    {occurrences : List Occurrence}
    (hdistinct : ((start.broadcasts occurrences).map (·.id)).Nodup) :
    (start.proceedAll occurrences).world.Knowledge (start.broadcasts occurrences) :=
  h.knowledge.passage hdistinct (start.passage_proceedAll occurrences)

/-- Whatever happens in a simulation whose broadcasts have different ids, its nodes have seen none
but these. If no two of them give one key different values, every node holds the values of exactly
the broadcasts that it has seen, and two nodes that have seen the same hold the same. Values may be
told apart exactly, or in the way in which values are compared, so that the two zeros are equal. -/
theorem state_is_union_of_seen {config : SimulationConfig} (hvalid : config.check = .ok ())
    (generators : Generators σ) (hasClock : Bool) (wall : Nat) :
    ∃ start, Simulation.new config generators hasClock wall = .ok start ∧
      ∀ occurrences, ((start.broadcasts occurrences).map (·.id)).Nodup →
        let made := start.broadcasts occurrences
        let nodes := (start.proceedAll occurrences).world.nodes
        (∀ node ∈ nodes, ∀ id ∈ node.seen, ∃ message ∈ made, message.id = id) ∧
        (∀ same, Message.Agree same made → ∀ node ∈ nodes,
          node.HoldsUnion same (made.filter fun message => node.hasSeen message.id)) ∧
        (Message.Agree (· = ·) made → ∀ node ∈ nodes, ∀ other ∈ nodes,
          (∀ id, id ∈ node.seen ↔ id ∈ other.seen) → node.state = other.state) ∧
        (Message.Agree (fun value value' => value.equals value' = true) made →
          ∀ node ∈ nodes, ∀ other ∈ nodes, (∀ id, id ∈ node.seen ↔ id ∈ other.seen) →
            Json.Value.membersEqual node.state other.state = true) := by
  obtain ⟨start, hnew, hfounded⟩ := exists_founded hvalid generators hasClock wall
  refine ⟨start, hnew, fun occurrences hdistinct => ?_⟩
  intro made nodes
  have hknowledge := hfounded.knowledge_proceedAll hdistinct
  have hknows : ∀ node ∈ nodes, node.Knows made := by
    intro node hnode
    obtain ⟨member, hmember, rfl⟩ := List.mem_map.mp hnode
    exact hknowledge.knows member hmember
  refine ⟨fun node hnode id hseen => (hknows node hnode).exists_made hseen,
    fun same hagree node hnode => (hknows node hnode).holdsUnion hdistinct hagree,
    fun hagree node hnode other hother hseen => ?_, fun hagree node hnode other hother hseen => ?_⟩
  · exact Json.Members.eq_of_alike
      ((hknows node hnode).alike_of_seen (hknows other hother) hdistinct hagree hseen)
  · exact Json.Members.membersEqual_of_alike
      ((hknows node hnode).alike_of_seen (hknows other hother) hdistinct hagree hseen)

/-- A millisecond, in the course of which up to four tasks have their turn. -/
def interval : List Occurrence :=
  [.happens (.turn 0) rfl, .happens (.turn 0) rfl, .happens (.turn 0) rfl, .happens (.turn 0) rfl,
    .happens (.pass 1) rfl, .happens .fire rfl]

/-- Two broadcasts that give one key the same value, and time for them to cross each other. -/
def crossed : List Occurrence :=
  .broadcastFrom "node-0" "first" "update" [("all", .int 7), ("first", .int 1)] ::
    .broadcastFrom "node-2" "second" "update" [("all", .int 7), ("second", .int 2)] ::
      (interval ++ interval ++ interval)

/-- Both broadcasts are made. -/
theorem broadcasts_crossed {start : Simulation Random.Script}
    (hnew : Simulation.new trio (⟨⟨[]⟩, ⟨[]⟩, ⟨[]⟩⟩ : Generators Random.Script) true 0 = .ok start) :
    start.broadcasts crossed =
      [⟨"first", "update", "node-0", [("all", .int 7), ("first", .int 1)], 0⟩,
        ⟨"second", "update", "node-2", [("all", .int 7), ("second", .int 2)], 0⟩] := by
  have hfacts : (Simulation.new trio (⟨⟨[]⟩, ⟨[]⟩, ⟨[]⟩⟩ : Generators Random.Script) true
      0).toOption.map (fun start =>
        ((start.indexOf? "node-0", start.world.nodes.map (·.isDown), start.world.wall),
          ((start.proceed (crossed.headD .shutdown)).indexOf? "node-2",
            (start.proceed (crossed.headD .shutdown)).world.nodes.map (·.isDown),
            (start.proceed (crossed.headD .shutdown)).world.wall))) =
      some ((some 0, [false, false, false], 0), (some 2, [false, false, false], 0)) := by
    decide +kernel
  have hindexed : start.Indexed := (founded_of_new hnew).indexed
  have hlater : (start.proceed (crossed.headD .shutdown)).Indexed :=
    hindexed.proceedAll [crossed.headD .shutdown]
  rw [hnew] at hfacts
  have hfacts := Option.some.inj hfacts
  rw [Prod.mk.injEq, Prod.mk.injEq, Prod.mk.injEq, Prod.mk.injEq, Prod.mk.injEq] at hfacts
  obtain ⟨⟨hindex, hup, hwall⟩, hindex', hup', hwall'⟩ := hfacts
  have hfirst := broadcasts_cons_broadcastFrom hindexed hindex (by rw [hup]; rfl) "first" "update"
    [("all", .int 7), ("first", .int 1)] (crossed.drop 1)
  have hrest := broadcasts_cons_broadcastFrom hlater hindex' (by rw [hup']; rfl) "second" "update"
    [("all", .int 7), ("second", .int 2)] (interval ++ interval ++ interval)
  rw [hwall] at hfirst
  rw [hwall'] at hrest
  exact hfirst.trans (congrArg (List.cons _) hrest)

/-- Then the three nodes hold the same, although one of them has learned the second message before
the first one. -/
theorem state_is_union_of_seen_crossed :
    ∃ start,
      Simulation.new trio (⟨⟨[]⟩, ⟨[]⟩, ⟨[]⟩⟩ : Generators Random.Script) true 0 = .ok start ∧
      (start.proceedAll crossed).world.nodes.map (·.seen) =
        [["second", "first"], ["first", "second"], ["first", "second"]] ∧
      ∀ node ∈ (start.proceedAll crossed).world.nodes,
        ∀ other ∈ (start.proceedAll crossed).world.nodes, node.state = other.state := by
  have hvalid : trio.check = .ok () := rfl
  obtain ⟨start, hnew, hunion⟩ := state_is_union_of_seen hvalid
    (⟨⟨[]⟩, ⟨[]⟩, ⟨[]⟩⟩ : Generators Random.Script) true 0
  have hfacts : (Simulation.new trio (⟨⟨[]⟩, ⟨[]⟩, ⟨[]⟩⟩ : Generators Random.Script) true
      0).toOption.map (fun start => (start.proceedAll crossed).world.nodes.map (·.seen)) =
      some [["second", "first"], ["first", "second"], ["first", "second"]] := by
    decide +kernel
  rw [hnew] at hfacts
  have hseen : (start.proceedAll crossed).world.nodes.map (·.seen) =
      [["second", "first"], ["first", "second"], ["first", "second"]] := Option.some.inj hfacts
  have hmade := broadcasts_crossed hnew
  -- Every key has one value, whichever of the two messages sets it.
  have hagree : Message.Agree (· = ·) (start.broadcasts crossed) := by
    have hvalue : ∀ message ∈ start.broadcasts crossed, ∀ key value,
        (key, value) ∈ message.payload → value =
          if key = "all" then .int 7 else if key = "first" then .int 1 else .int 2 := by
      rw [hmade]
      intro message hmem key value hentry
      simp only [List.mem_cons, List.not_mem_nil, or_false] at hmem
      rcases hmem with rfl | rfl
      · simp only [List.mem_cons, Prod.mk.injEq, List.not_mem_nil, or_false] at hentry
        rcases hentry with ⟨rfl, rfl⟩ | ⟨rfl, rfl⟩ <;> rfl
      · simp only [List.mem_cons, Prod.mk.injEq, List.not_mem_nil, or_false] at hentry
        rcases hentry with ⟨rfl, rfl⟩ | ⟨rfl, rfl⟩ <;> rfl
    intro a ha b hb key value value' hlast hlast'
    have hfirst := hvalue a ha key value (Json.Members.mem_of_last?_eq_some hlast)
    have hsecond := hvalue b hb key value' (Json.Members.mem_of_last?_eq_some hlast')
    rw [hfirst, hsecond]
  have hids : (start.broadcasts crossed).map (·.id) = ["first", "second"] := by
    rw [hmade]
    rfl
  have hdistinct : ((start.broadcasts crossed).map (·.id)).Nodup := by
    rw [hids]
    decide
  have hsame := (hunion crossed hdistinct).2.2.1 hagree
  have hboth : ∀ node ∈ (start.proceedAll crossed).world.nodes, ∀ id,
      id ∈ node.seen ↔ id = "first" ∨ id = "second" := by
    intro node hnode id
    have hmem : node.seen ∈ [["second", "first"], ["first", "second"], ["first", "second"]] := by
      rw [← hseen]
      exact List.mem_map_of_mem hnode
    simp only [List.mem_cons, List.not_mem_nil, or_false] at hmem
    rcases hmem with heq | heq | heq
    · rw [heq, List.mem_pair]
      exact or_comm
    · rw [heq, List.mem_pair]
    · rw [heq, List.mem_pair]
  refine ⟨start, hnew, hseen, fun node hnode other hother => hsame node hnode other hother ?_⟩
  exact fun id => (hboth node hnode id).trans (hboth other hother id).symm

end Epidemic.Simulation
