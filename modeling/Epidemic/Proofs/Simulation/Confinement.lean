import Epidemic.Proofs.Simulation.Union
import Epidemic.Proofs.World.Confinement

/-!
# Traffic runs along the links

In a simulation that keeps its peers, and whose broadcasts have different ids, every message that is
in transit or kept for rumor rounds is one of the broadcasts, unchanged. It is in transit along a
link of the topology, from a node that has seen it. A node keeps no message twice, and none that it
has not seen.
-/

namespace Epidemic

/-- If messages have different ids, one of them is the only one with its id. -/
theorem Message.filter_id_eq {made : List Message} (hdistinct : (made.map (·.id)).Nodup)
    {message : Message} (h : message ∈ made) :
    made.filter (fun other => other.id = message.id) = [message] := by
  induction made with
  | nil => cases h
  | cons first rest ih =>
    obtain ⟨hfirst, hrest⟩ := List.nodup_cons.mp hdistinct
    rcases List.mem_cons.mp h with rfl | hmem
    · have hnone : rest.filter (fun other => other.id = message.id) = [] := by
        refine List.filter_eq_nil_iff.mpr fun other hother heq => hfirst ?_
        have heq : other.id = message.id := of_decide_eq_true heq
        exact List.mem_map.mpr ⟨other, hother, heq⟩
      rw [List.filter_cons, if_pos (decide_eq_true rfl), hnone]
    · have hne : first.id ≠ message.id := fun heq =>
        hfirst (List.mem_map.mpr ⟨message, hmem, heq.symm⟩)
      rw [List.filter_cons, if_neg (by rwa [decide_eq_true_eq]), ih hrest hmem]

namespace Simulation

variable {σ : Type}

/-- Whether something that happens gives a node a peer. -/
def Occurrence.addsPeer : Occurrence → Bool
  | .happens move _ => move.addsPeer
  | _ => false

/-- If it gives no node a peer, none of its moves does. -/
theorem Occurrence.addsPeer_of_mem_moves {simulation : Simulation σ} {occurrence : Occurrence}
    (h : occurrence.addsPeer = false) {move : Move 1} (hmove : move ∈ occurrence.moves simulation) :
    move.addsPeer = false := by
  cases occurrence with
  | broadcastFrom origin id kind payload =>
    rw [moves, Option.mem_toList, Option.map_eq_some_iff] at hmove
    obtain ⟨index, -, rfl⟩ := hmove
    rfl
  | shutdown =>
    rcases List.mem_cons.mp hmove with rfl | hshutdown
    · rfl
    · obtain ⟨index, -, rfl⟩ := List.mem_map.mp hshutdown
      rfl
  | happens other _ =>
    rw [List.mem_singleton.mp hmove]
    exact h

/-- Neighbours are the ends of a link, and different nodes. -/
theorem mem_topology_of_neighbour {simulation : Simulation σ} {index : Nat} {name : NodeId}
    (h : Neighbour simulation.links index name) :
    nodeId index ≠ name ∧ ((nodeId index, name) ∈ simulation.topology ∨
      (name, nodeId index) ∈ simulation.topology) := by
  obtain ⟨link, hlink, hne, ⟨rfl, rfl⟩ | ⟨rfl, rfl⟩⟩ := h
  · exact ⟨nodeId_ne hne, Or.inl (List.mem_map_of_mem hlink)⟩
  · exact ⟨nodeId_ne hne.symm, Or.inr (List.mem_map_of_mem hlink)⟩

/-- At first traffic is confined: there is none. -/
theorem Founded.confined {config : SimulationConfig} {generators : Generators σ} {hasClock : Bool}
    {simulation : Simulation σ} (h : simulation.Founded config generators hasClock) :
    simulation.world.Confined where
  keeps member hmember := by
    obtain ⟨index, -, peers, hnode⟩ := h.exists_new hmember
    rw [hnode]
    exact ⟨List.nodup_nil, fun _ hmem => absurd hmem List.not_mem_nil⟩
  carried envelope hmem := by
    rw [h.transit] at hmem
    cases hmem

variable [Random.Source σ]

/-- Whatever happens, the links stay. -/
theorem topology_proceedAll (simulation : Simulation σ) (occurrences : List Occurrence) :
    (simulation.proceedAll occurrences).topology = simulation.topology := by
  induction occurrences generalizing simulation with
  | nil => rfl
  | cons occurrence rest ih =>
    have hfirst : (simulation.proceed occurrence).topology = simulation.topology := by
      rw [proceed_eq]
      rfl
    exact (ih _).trans hfirst

/-- Who is whose peer stays, if no node gets a peer. -/
theorem wiring_proceedAll (simulation : Simulation σ) {occurrences : List Occurrence}
    (h : ∀ occurrence ∈ occurrences, occurrence.addsPeer = false) :
    (simulation.proceedAll occurrences).world.wiring = simulation.world.wiring := by
  rw [world_proceedAll]
  refine World.wiring_run _ fun move hmove => ⟨isInternal_of_mem_movesOfAll hmove, ?_⟩
  obtain ⟨occurrence, hoccurrence, before, hmove⟩ := exists_of_mem_movesOfAll hmove
  exact Occurrence.addsPeer_of_mem_moves (h occurrence hoccurrence) hmove

/-- Whatever happens in a simulation in which no node gets a peer, and whose broadcasts have
different ids: every message in transit is a broadcast, the only one with its id; it goes from a node
that has seen it to another one, and these are the ends of a link. All that nodes have seen are
broadcasts. What they keep for rumor rounds are broadcasts that they have seen, each of them once. -/
theorem traffic_is_confined {config : SimulationConfig} (hvalid : config.check = .ok ())
    (generators : Generators σ) (hasClock : Bool) (wall : Nat) :
    ∃ start, Simulation.new config generators hasClock wall = .ok start ∧
      ∀ occurrences, (∀ occurrence ∈ occurrences, occurrence.addsPeer = false) →
        ((start.broadcasts occurrences).map (·.id)).Nodup →
        let made := start.broadcasts occurrences
        let reached := start.proceedAll occurrences
        (∀ envelope ∈ reached.world.transit,
          made.filter (fun message => message.id = envelope.message.id) = [envelope.message] ∧
          (∃ node ∈ reached.world.nodes, node.id = envelope.sender ∧
            envelope.message.id ∈ node.seen) ∧
          envelope.sender ≠ envelope.target ∧
          ((envelope.sender, envelope.target) ∈ reached.topology ∨
            (envelope.target, envelope.sender) ∈ reached.topology)) ∧
        ∀ node ∈ reached.world.nodes,
          (∀ id ∈ node.seen, ∃ message ∈ made, message.id = id) ∧
          (∀ rumor ∈ node.rumors,
            made.filter (fun message => message.id = rumor.message.id) = [rumor.message] ∧
            rumor.message.id ∈ node.seen) ∧
          (node.rumors.map (·.message.id)).Nodup := by
  obtain ⟨start, hnew, hfounded⟩ := exists_founded hvalid generators hasClock wall
  refine ⟨start, hnew, fun occurrences hpeers hdistinct => ?_⟩
  intro made reached
  have hknowledge : reached.world.Knowledge made := hfounded.knowledge_proceedAll hdistinct
  have hconfined : reached.world.Confined :=
    hfounded.confined.passage hfounded.knowledge hdistinct (start.passage_proceedAll occurrences)
  have hwiring : reached.world.wiring = start.world.wiring := start.wiring_proceedAll hpeers
  have htopology : reached.topology = start.topology := start.topology_proceedAll occurrences
  refine ⟨fun envelope henvelope => ?_, fun node hnode => ?_⟩
  · obtain ⟨member, hmember, hsender, hseen, htarget⟩ := hconfined.carried envelope henvelope
    refine ⟨Message.filter_id_eq hdistinct (hknowledge.transit envelope henvelope),
      ⟨member.node, List.mem_map_of_mem hmember, hsender, hseen⟩, ?_⟩
    have hentry : (member.node.id, member.node.peers) ∈ start.world.wiring := by
      rw [← hwiring]
      exact List.mem_map_of_mem hmember
    obtain ⟨index, hat⟩ := List.mem_iff_getElem?.mp hentry
    obtain ⟨-, hname, hneighbours⟩ := hfounded.wiring_at hat
    have hlinked := mem_topology_of_neighbour ((hneighbours envelope.target).mp htarget)
    rw [← hname] at hlinked
    rw [htopology, ← hsender]
    exact hlinked
  · obtain ⟨member, hmember, rfl⟩ := List.mem_map.mp hnode
    have hknows := hknowledge.knows member hmember
    have hkeeps := hconfined.keeps member hmember
    refine ⟨fun id hseen => hknows.exists_made hseen, fun rumor hrumor => ?_, hkeeps.nodup⟩
    exact ⟨Message.filter_id_eq hdistinct (hknows.kept rumor hrumor), hkeeps.seen rumor hrumor⟩

/-- A broadcast that has gone along the first of two links and is on its way along the second one,
when the endpoint at which it will arrive is taken away and its origin is shut down. -/
def passedOn : List Occurrence :=
  .broadcastFrom "node-0" "first" "update" [("key", .int 1)] ::
    (ticking [.turn 0, .pass 1, .fire, .turn 0] (by decide) ++
      [.happens (.unregister "node-1") rfl, .happens (.shutdown 0) rfl])

/-- Then the one message in transit is the broadcast, and it is on its way along a link. -/
theorem traffic_is_confined_passedOn :
    ∃ start,
      Simulation.new trio (⟨⟨[]⟩, ⟨[]⟩, ⟨[]⟩⟩ : Generators Random.Script) true 0 = .ok start ∧
      (∀ occurrence ∈ passedOn, occurrence.addsPeer = false) ∧
      ((start.broadcasts passedOn).map (·.id)).Nodup ∧
      (start.proceedAll passedOn).world.transit.map
        (fun envelope => (envelope.sender, envelope.target)) = [("node-2", "node-1")] ∧
      (start.proceedAll passedOn).topology = [("node-0", "node-2"), ("node-1", "node-2")] ∧
      (start.proceedAll passedOn).world.nodes.map (·.rumors.map (·.message.id)) =
        [["first"], [], ["first"]] ∧
      (∀ envelope ∈ (start.proceedAll passedOn).world.transit,
        envelope.message =
          ⟨"first", "update", "node-0", [("key", .int 1)], start.world.wall⟩ ∧
        ∃ node ∈ (start.proceedAll passedOn).world.nodes, node.id = envelope.sender ∧
          envelope.message.id ∈ node.seen) ∧
      ∀ node ∈ (start.proceedAll passedOn).world.nodes, ∀ rumor ∈ node.rumors,
        rumor.message = ⟨"first", "update", "node-0", [("key", .int 1)], start.world.wall⟩ := by
  have hvalid : trio.check = .ok () := rfl
  obtain ⟨start, hnew, hconfined⟩ := traffic_is_confined hvalid
    (⟨⟨[]⟩, ⟨[]⟩, ⟨[]⟩⟩ : Generators Random.Script) true 0
  have hfacts : (Simulation.new trio (⟨⟨[]⟩, ⟨[]⟩, ⟨[]⟩⟩ : Generators Random.Script) true
      0).toOption.map (fun start =>
        ((start.proceedAll passedOn).world.transit.map
            (fun envelope => (envelope.sender, envelope.target)),
          (start.proceedAll passedOn).topology,
          (start.proceedAll passedOn).world.nodes.map (·.rumors.map (·.message.id)))) =
      some ([("node-2", "node-1")], [("node-0", "node-2"), ("node-1", "node-2")],
        [["first"], [], ["first"]]) := by
    decide +kernel
  have horigin : (Simulation.new trio (⟨⟨[]⟩, ⟨[]⟩, ⟨[]⟩⟩ : Generators Random.Script) true
      0).toOption.map (fun start => (start.indexOf? "node-0", start.world.nodes.map (·.isDown))) =
      some (some 0, [false, false, false]) := by
    decide +kernel
  have hindexed : start.Indexed := (founded_of_new hnew).indexed
  rw [hnew] at hfacts horigin
  have hfacts := Option.some.inj hfacts
  rw [Prod.mk.injEq, Prod.mk.injEq] at hfacts
  obtain ⟨htransit, htopology, hrumors⟩ := hfacts
  obtain ⟨hindex, hup⟩ := Prod.mk.inj (Option.some.inj horigin)
  have hmade : start.broadcasts passedOn =
      [⟨"first", "update", "node-0", [("key", .int 1)], start.world.wall⟩] := by
    rw [passedOn, broadcasts_cons_broadcastFrom hindexed hindex (by rw [hup]; rfl)]
    rfl
  have hpeers : ∀ occurrence ∈ passedOn, occurrence.addsPeer = false := by decide
  have hdistinct : ((start.broadcasts passedOn).map (·.id)).Nodup := by
    rw [hmade]
    exact List.nodup_singleton _
  obtain ⟨hcarried, hkept⟩ := hconfined passedOn hpeers hdistinct
  have honly : ∀ {message : Message},
      (start.broadcasts passedOn).filter (fun other => other.id = message.id) = [message] →
        message = ⟨"first", "update", "node-0", [("key", .int 1)], start.world.wall⟩ := by
    intro message hone
    have hmem : message ∈ (start.broadcasts passedOn).filter fun other => other.id = message.id := by
      rw [hone]
      exact List.mem_cons_self
    rw [hmade] at hmem
    exact List.mem_singleton.mp (List.mem_filter.mp hmem).1
  refine ⟨start, hnew, hpeers, hdistinct, htransit, htopology, hrumors, fun envelope hmem => ?_,
    fun node hnode rumor hrumor => ?_⟩
  · obtain ⟨hone, hsender, -⟩ := hcarried envelope hmem
    exact ⟨honly hone, hsender⟩
  · exact honly ((hkept node hnode).2.1 rumor hrumor).1

end Simulation

end Epidemic
