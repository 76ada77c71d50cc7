import Epidemic.Proofs.Simulation.Flooding
import Epidemic.Proofs.World.Passage

/-!
# Everything that can happen in a simulation

Broadcasts are made, messages are delivered in any order, nodes have rumor rounds, the network is
set otherwise, endpoints are taken away, and nodes or the whole simulation are shut down. Only sends
and deliveries from outside are left out, and endpoints that are added. All of this comes down to
internal moves of the world; so do the passage of time and the wait for agreement.
-/

namespace Epidemic

namespace World

variable {σ : Type} {k : Nat} [Random.Source σ]

/-- What is changed under the first indexes is changed in the first elements. -/
theorem getElem?_foldl_modify {α : Type} (change : α → α) (elements : List α) (count index : Nat) :
    ((List.range count).foldl (fun elements index => elements.modify index change) elements)[index]?
      = if index < count then elements[index]?.map change else elements[index]? := by
  induction count with
  | zero => rfl
  | succ count ih =>
    rw [List.range_succ, List.foldl_append, List.foldl_cons, List.foldl_nil, List.getElem?_modify,
      ih]
    by_cases heq : count = index
    · simp only [heq, Nat.lt_irrefl, if_false, Nat.lt_succ_self, if_true]
      rfl
    · have hiff : index < count + 1 ↔ index < count := by omega
      simp only [heq, if_false, hiff, Option.map_eq_map, Option.map_id']

/-- Shutting down all nodes one after the other is shutting down every node. -/
theorem run_shutdown (world : World σ k) :
    world.run ((List.range world.members.length).map .shutdown) =
      { world with
        members := world.members.map fun member => { member with node := member.node.shutdown } } := by
  have hrun : ∀ (indexes : List Nat) (world : World σ k),
      world.run (indexes.map .shutdown) =
        { world with
          members := indexes.foldl (fun members index => members.modify index fun member =>
            { member with node := member.node.shutdown }) world.members } := by
    intro indexes
    induction indexes with
    | nil => exact fun world => rfl
    | cons index rest ih => exact fun world => ih (world.step (.shutdown index))
  have hmembers : (List.range world.members.length).foldl (fun members index =>
      members.modify index fun member => { member with node := member.node.shutdown })
        world.members =
      world.members.map fun member => { member with node := member.node.shutdown } := by
    refine List.ext_getElem? fun index => ?_
    rw [getElem?_foldl_modify, List.getElem?_map]
    split
    · rfl
    · rename_i hout
      rw [List.getElem?_eq_none (Nat.le_of_not_lt hout)]
      rfl
  rw [hrun, hmembers]

end World

namespace Simulation

/-- Something that happens in a simulation without sends and deliveries from outside. -/
inductive Occurrence where
  /-- The node of a name is to make a broadcast. -/
  | broadcastFrom (origin : NodeId) (id : MessageId) (kind : String) (payload : Payload)
  /-- The simulation is shut down. -/
  | shutdown
  /-- Something that happens in its world. -/
  | happens (move : Move 1) (isInternal : move.isInternal = true)

variable {σ : Type}

/-- The moves that something comes down to. -/
def Occurrence.moves (simulation : Simulation σ) : Occurrence → List (Move 1)
  | .broadcastFrom origin id kind payload =>
    ((simulation.indexOf? origin).map fun index => .broadcast index id kind payload).toList
  | .shutdown => .stopRounds :: (List.range simulation.world.members.length).map .shutdown
  | .happens move _ => [move]

/-- All of them are internal. -/
theorem Occurrence.isInternal_of_mem_moves {simulation : Simulation σ} {occurrence : Occurrence}
    {move : Move 1} (h : move ∈ occurrence.moves simulation) : move.isInternal = true := by
  cases occurrence with
  | broadcastFrom origin id kind payload =>
    rw [moves, Option.mem_toList, Option.map_eq_some_iff] at h
    obtain ⟨index, -, rfl⟩ := h
    rfl
  | shutdown =>
    rcases List.mem_cons.mp h with rfl | hshutdown
    · rfl
    · obtain ⟨index, -, rfl⟩ := List.mem_map.mp hshutdown
      rfl
  | happens other hinternal =>
    rw [List.mem_singleton.mp h]
    exact hinternal

variable [Random.Source σ]

/-- What comes of something that happens. -/
def proceed (simulation : Simulation σ) : Occurrence → Simulation σ
  | .broadcastFrom origin id kind payload => (simulation.broadcastFrom origin id kind payload).2
  | .shutdown => simulation.shutdown
  | .happens move _ => { simulation with world := simulation.world.step move }

/-- What comes of one thing after the other. -/
def proceedAll (simulation : Simulation σ) (occurrences : List Occurrence) : Simulation σ :=
  occurrences.foldl proceed simulation

/-- The messages of the broadcasts that live nodes make on the way. -/
def broadcasts (simulation : Simulation σ) : List Occurrence → List Message
  | [] => []
  | occurrence :: rest =>
    simulation.world.broadcasts (occurrence.moves simulation) ++
      (simulation.proceed occurrence).broadcasts rest

/-- The batches that nodes hand over on the way. -/
def batches (simulation : Simulation σ) : List Occurrence → List Batch
  | [] => []
  | occurrence :: rest =>
    simulation.world.batches (occurrence.moves simulation) ++
      (simulation.proceed occurrence).batches rest

/-- The broadcasts of one part of a run come before those of the next one. -/
theorem broadcasts_append (simulation : Simulation σ) (earlier later : List Occurrence) :
    simulation.broadcasts (earlier ++ later) =
      simulation.broadcasts earlier ++ (simulation.proceedAll earlier).broadcasts later := by
  induction earlier generalizing simulation with
  | nil => rfl
  | cons occurrence rest ih =>
    rw [List.cons_append, broadcasts, broadcasts, ih, List.append_assoc]
    rfl

/-- A run goes on where another one has ended. -/
theorem proceedAll_append (simulation : Simulation σ) (earlier later : List Occurrence) :
    simulation.proceedAll (earlier ++ later) =
      (simulation.proceedAll earlier).proceedAll later := List.foldl_append

/-- A broadcast by a live node is one of the broadcasts. -/
theorem broadcasts_cons_broadcastFrom {simulation : Simulation σ} (h : simulation.Indexed)
    {origin : NodeId} {index : Nat} (hindex : simulation.indexOf? origin = some index)
    (hup : (simulation.world.nodes.map (·.isDown))[index]? = some false) (id : MessageId)
    (kind : String) (payload : Payload) (rest : List Occurrence) :
    simulation.broadcasts (.broadcastFrom origin id kind payload :: rest) =
      ⟨id, kind, origin, payload, simulation.world.wall⟩ ::
        (simulation.proceed (.broadcastFrom origin id kind payload)).broadcasts rest := by
  obtain ⟨member, hat, hname⟩ := h.exists_member hindex
  have hup : member.node.isDown = false := by
    rw [World.nodes, List.getElem?_map, List.getElem?_map, hat] at hup
    exact Option.some.inj hup
  have hmoves : Occurrence.moves simulation (.broadcastFrom origin id kind payload) =
      [.broadcast index id kind payload] := by
    rw [Occurrence.moves, hindex]
    rfl
  have hmade : (simulation.world.lifeOf member).originated? simulation.world.wall
      (.broadcast id kind payload) = some ⟨id, kind, origin, payload, simulation.world.wall⟩ := by
    rw [Life.originated?, World.lifeOf, hup, ← hname]
    rfl
  rw [broadcasts, hmoves, World.broadcasts, World.originatedBy, World.originatedAt, hat]
  dsimp only
  rw [hmade]
  rfl

/-- What happens in a simulation happens in its world, move by move, and nowhere else. -/
theorem proceed_eq (simulation : Simulation σ) (occurrence : Occurrence) :
    simulation.proceed occurrence =
      { simulation with world := simulation.world.run (occurrence.moves simulation) } := by
  cases occurrence with
  | broadcastFrom origin id kind payload =>
    rw [proceed, broadcastFrom, Occurrence.moves]
    cases simulation.indexOf? origin with
    | none => rfl
    | some index =>
      have hstep : simulation.world.run [.broadcast index id kind payload] =
          simulation.world.afterwards (simulation.world.broadcast index id kind payload) := rfl
      dsimp only [Option.map_some, Option.toList_some]
      rw [hstep]
      cases simulation.world.broadcast index id kind payload <;> rfl
  | shutdown =>
    exact congrArg (mk _ _ _) simulation.world.stopRounds.run_shutdown.symm
  | happens move hinternal => rfl

/-- The world of a simulation in which something has happened. -/
theorem world_proceed (simulation : Simulation σ) (occurrence : Occurrence) :
    (simulation.proceed occurrence).world =
      simulation.world.run (occurrence.moves simulation) :=
  congrArg Simulation.world (simulation.proceed_eq occurrence)

/-- The moves that one thing after the other comes down to. -/
def movesOfAll (simulation : Simulation σ) : List Occurrence → List (Move 1)
  | [] => []
  | occurrence :: rest =>
    occurrence.moves simulation ++ (simulation.proceed occurrence).movesOfAll rest

/-- Each of them is a move of something that happens. -/
theorem exists_of_mem_movesOfAll {simulation : Simulation σ} {occurrences : List Occurrence}
    {move : Move 1} (h : move ∈ simulation.movesOfAll occurrences) :
    ∃ occurrence ∈ occurrences, ∃ before : Simulation σ, move ∈ occurrence.moves before := by
  induction occurrences generalizing simulation with
  | nil => cases h
  | cons occurrence rest ih =>
    rcases List.mem_append.mp h with hfirst | hrest
    · exact ⟨occurrence, List.mem_cons_self, simulation, hfirst⟩
    · obtain ⟨other, hother, hbefore⟩ := ih hrest
      exact ⟨other, List.mem_cons_of_mem occurrence hother, hbefore⟩

/-- All of them are internal. -/
theorem isInternal_of_mem_movesOfAll {simulation : Simulation σ} {occurrences : List Occurrence}
    {move : Move 1} (h : move ∈ simulation.movesOfAll occurrences) : move.isInternal = true := by
  obtain ⟨occurrence, -, before, hmove⟩ := exists_of_mem_movesOfAll h
  exact Occurrence.isInternal_of_mem_moves hmove

/-- What comes of one thing after the other comes of their moves. -/
theorem world_proceedAll (simulation : Simulation σ) (occurrences : List Occurrence) :
    (simulation.proceedAll occurrences).world =
      simulation.world.run (simulation.movesOfAll occurrences) := by
  induction occurrences generalizing simulation with
  | nil => rfl
  | cons occurrence rest ih =>
    rw [movesOfAll, World.run_append, ← world_proceed]
    exact ih (simulation.proceed occurrence)

/-- Whatever happens, the index stays the same. -/
theorem index_proceedAll (simulation : Simulation σ) (occurrences : List Occurrence) :
    (simulation.proceedAll occurrences).index = simulation.index := by
  induction occurrences generalizing simulation with
  | nil => rfl
  | cons occurrence rest ih =>
    refine (ih (simulation.proceed occurrence)).trans ?_
    rw [proceed_eq]

/-- As no node joins, it stays right. -/
theorem Indexed.proceedAll {simulation : Simulation σ} (h : simulation.Indexed)
    (occurrences : List Occurrence) : (simulation.proceedAll occurrences).Indexed := by
  induction occurrences generalizing simulation with
  | nil => exact h
  | cons occurrence rest ih =>
    have hjoins : ∀ move ∈ occurrence.moves simulation, move.joins = false := fun move hmem =>
      Move.joins_of_isInternal (Occurrence.isInternal_of_mem_moves hmem)
    have hfirst := h.run hjoins
    rw [← proceed_eq] at hfirst
    exact ih hfirst

/-- Whatever happens, the books are kept. -/
theorem accounts_proceedAll {simulation : Simulation σ} (h : World.Accounts [] simulation.world)
    (occurrences : List Occurrence) :
    World.Accounts [] (simulation.proceedAll occurrences).world := by
  rw [world_proceedAll]
  exact h.run _

/-- Whatever happens in a simulation is a passage of its world. -/
theorem passage_proceedAll (simulation : Simulation σ) (occurrences : List Occurrence) :
    simulation.world.Passage (simulation.broadcasts occurrences) (simulation.batches occurrences)
      (simulation.proceedAll occurrences).world := by
  induction occurrences generalizing simulation with
  | nil => exact .refl
  | cons occurrence rest ih =>
    have hfirst := simulation.world.passage_run (occurrence.moves simulation)
      fun move hmem => Occurrence.isInternal_of_mem_moves hmem
    rw [← world_proceed] at hfirst
    exact hfirst.trans (ih (simulation.proceed occurrence))

/-- Ticks happen one after the other. -/
def ticking (moves : List (Move 1)) (h : ∀ move ∈ moves, move.isTick = true) : List Occurrence :=
  moves.pmap (fun move htick => .happens move (Move.isInternal_of_isTick htick)) h

/-- Ticks make of a simulation what they make of its world. -/
theorem proceedAll_ticking (simulation : Simulation σ) {moves : List (Move 1)}
    (h : ∀ move ∈ moves, move.isTick = true) :
    simulation.proceedAll (ticking moves h) =
      { simulation with world := simulation.world.run moves } := by
  induction moves generalizing simulation with
  | nil => rfl
  | cons move rest ih =>
    exact ih { simulation with world := simulation.world.step move }
      fun other hmem => h other (List.mem_cons_of_mem move hmem)

/-- No broadcasts are made in the meantime. -/
theorem broadcasts_ticking (simulation : Simulation σ) {moves : List (Move 1)}
    (h : ∀ move ∈ moves, move.isTick = true) : simulation.broadcasts (ticking moves h) = [] := by
  induction moves generalizing simulation with
  | nil => rfl
  | cons move rest ih =>
    have hmove := h move List.mem_cons_self
    have hfirst : simulation.world.broadcasts [move] = [] := by
      cases move with
      | turn _ | fire | pass _ => rfl
      | _ => cases hmove
    exact congrArg₂ (· ++ ·) hfirst (ih { simulation with world := simulation.world.step move }
      fun other hmem => h other (List.mem_cons_of_mem move hmem))

/-- What ticks make of the world of a simulation comes of what happens in it. -/
theorem exists_proceedAll_of_isLater {simulation : Simulation σ} {later : World σ 1}
    (h : simulation.world.IsLater later) :
    ∃ occurrences, simulation.proceedAll occurrences = { simulation with world := later } ∧
      simulation.broadcasts occurrences = [] := by
  obtain ⟨moves, hticks, rfl⟩ := h
  exact ⟨ticking moves hticks, simulation.proceedAll_ticking hticks,
    simulation.broadcasts_ticking hticks⟩

/-- The passage of time is something that happens in a simulation. -/
theorem exists_proceedAll_advance (simulation : Simulation σ) (millis : Nat) :
    ∃ occurrences, simulation.proceedAll occurrences = simulation.advance millis ∧
      simulation.broadcasts occurrences = [] :=
  exists_proceedAll_of_isLater (simulation.world.isLater_advance millis)

/-- So is the wait for agreement. -/
theorem exists_proceedAll_wait (simulation : Simulation σ) (key : String) (timeout : Duration) :
    ∃ occurrences, simulation.proceedAll occurrences = (simulation.wait key timeout).2 ∧
      simulation.broadcasts occurrences = [] :=
  exists_proceedAll_of_isLater (World.isLater_wait (simulation.watch key) _ 0 simulation.world)

end Simulation

end Epidemic
