import Epidemic.Proofs.Simulation.Blank

/-!
# Routing does not depend on content

Two simulations are set up from the same configuration and go through the same stages, but for what is
broadcast in them: other values under other labels, in messages with other ids. Then messages take the
same ways. Broadcast by broadcast, the same sends are handed over in the same order, the same of them are
lost and the others are delayed as long, the same nodes know and keep the same, and all draws and all
counters are the same.

The broadcasts of a run are told apart by their numbers, which are the places of their ids.
-/

namespace Epidemic

/-- What has become of a send, whatever its message says. -/
structure Route where
  /-- When it was handed over. -/
  time : Nat
  /-- How many sends were handed over before it. -/
  serial : Nat
  /-- The node that has sent it. -/
  sender : NodeId
  /-- The node to which it is sent. -/
  target : NodeId
  /-- The number of the broadcast that is sent. -/
  broadcast : Nat
  /-- What the network did with it: how long it is delayed, if it is not lost. -/
  fate : Fate

/-- How a node stands, whatever it has learned. -/
structure Standing where
  /-- Its name. -/
  id : NodeId
  /-- Its peers. -/
  peers : List NodeId
  /-- Whether it is shut down. -/
  isDown : Bool
  /-- Its counters. -/
  stats : NodeStats
  /-- The numbers of the broadcasts that it has seen. -/
  seen : List Nat
  /-- The numbers of the broadcasts that it keeps, each with the rumor rounds that it has left. -/
  rumors : List (Nat × Nat)

/-- How a simulation stands, whatever is broadcast in it. -/
structure Routing (σ : Type) where
  /-- What has become of every send, last first. -/
  routes : List Route
  /-- How its nodes stand. -/
  standings : List Standing
  /-- Its protocol, with the state from which peers are drawn. -/
  protocols : Vector (Protocol σ) 1
  /-- Its network, with the state from which losses and delays are drawn. -/
  network : Network σ
  /-- Its counters. -/
  stats : SimulationStats

section Numbers

variable (number : MessageId → Nat)

/-- What has become of a send, the broadcasts being numbered. -/
def Event.route? : Event → Option Route
  | .posted time parcel fate =>
    some ⟨time, parcel.serial, parcel.envelope.sender, parcel.envelope.target,
      number parcel.envelope.message.id, fate⟩
  | _ => none

/-- How a node stands, the broadcasts being numbered. -/
def Node.standing (node : Node) : Standing where
  id := node.id
  peers := node.peers
  isDown := node.isDown
  stats := node.stats
  seen := node.seen.map number
  rumors := node.rumors.map fun rumor => (number rumor.message.id, rumor.roundsLeft)

/-- How a simulation stands, the broadcasts being numbered. -/
def Simulation.routing {σ : Type} (simulation : Simulation σ) : Routing σ where
  routes := simulation.world.journal.filterMap (Event.route? number)
  standings := simulation.world.nodes.map (Node.standing number)
  protocols := simulation.world.protocols
  network := simulation.world.network
  stats := simulation.stats

end Numbers

namespace Simulation

/-! ## Content is not looked at -/

section Blank

variable {σ : Type} (number : MessageId → Nat) (rename : MessageId → MessageId)

/-- A counter is summed up over what has become of nodes. -/
theorem total_map (count : Node → Nat) (change : Node → Node) (nodes : List Node) :
    total count (nodes.map change) = total (fun node => count (change node)) nodes := by
  induction nodes with
  | nil => rfl
  | cons node rest ih => rw [List.map_cons, total, total, ih]

/-- The nodes of a simulation without content. -/
theorem nodes_blank (simulation : Simulation σ) :
    (simulation.blank rename).world.nodes =
      simulation.world.nodes.map (Node.blank rename) := by
  simp only [World.nodes, blank, World.blank, List.map_map]
  rfl

/-- The counters of a simulation have nothing to do with content. -/
theorem stats_blank (simulation : Simulation σ) :
    (simulation.blank rename).stats = simulation.stats := by
  simp only [stats, nodes_blank, total_map, List.length_map]
  rfl

/-- How a simulation stands is seen without content as well, by what the ids have been replaced by. -/
theorem routing_blank (simulation : Simulation σ) :
    (simulation.blank rename).routing number =
      simulation.routing fun id => number (rename id) := by
  have hroutes : (simulation.blank rename).world.journal.filterMap (Event.route? number) =
      simulation.world.journal.filterMap (Event.route? fun id => number (rename id)) := by
    simp only [blank, World.blank, List.filterMap_map]
    refine List.filterMap_congr fun event _ => ?_
    cases event <;> rfl
  have hstandings : (simulation.blank rename).world.nodes.map (Node.standing number) =
      simulation.world.nodes.map (Node.standing fun id => number (rename id)) := by
    rw [nodes_blank, List.map_map]
    refine List.map_congr_left fun node _ => ?_
    simp only [Function.comp_apply, Node.standing, Node.blank, List.map_map]
    rfl
  rw [routing, routing, hroutes, hstandings, stats_blank]
  rfl

end Blank

end Simulation

/-! ## The plan of a run -/

/-- The id of the broadcast that a move makes. -/
def Move.broadcastId? {k : Nat} : Move k → Option MessageId
  | .broadcast _ id _ _ => some id
  | _ => none

namespace Simulation

/-- The id of the broadcast that is made when something happens. -/
def Occurrence.broadcastId? : Occurrence → Option MessageId
  | .broadcastFrom _ id _ _ => some id
  | .shutdown => none
  | .happens move _ => move.broadcastId?

/-- The id of the broadcast that is made in a stage. -/
def Stage.broadcastId? : Stage → Option MessageId
  | .occurs occurrence => occurrence.broadcastId?
  | _ => none

/-- The ids of the broadcasts of a run, in the order of its stages. -/
def broadcastIds (stages : List Stage) : List MessageId := stages.filterMap Stage.broadcastId?

/-- The number of a broadcast in a run. -/
def number (stages : List Stage) (id : MessageId) : Nat := (broadcastIds stages).idxOf id

/-- A number as an id. -/
def tag (number : Nat) : MessageId := "#" ++ String.ofList (Decimal.natText number)

/-- The plan of a run: its stages without what its broadcasts say, which are numbered instead. Runs of
one plan differ in content only, and in the ids of their broadcasts. -/
def plan (stages : List Stage) : List Stage :=
  stages.map (Stage.blank fun id => tag (number stages id))

section Plan

variable {rename rename' : MessageId → MessageId}

/-- Only the id of the broadcast that is made in a stage is replaced. -/
theorem Stage.blank_congr {stage : Stage}
    (h : ∀ id, stage.broadcastId? = some id → rename id = rename' id) :
    stage.blank rename = stage.blank rename' := by
  cases stage with
  | occurs occurrence =>
    cases occurrence with
    | broadcastFrom origin id kind payload => simp only [blank, Occurrence.blank, h id rfl]
    | shutdown => rfl
    | happens move hinternal =>
      have hmove : move.blank rename = move.blank rename' := by
        cases move with
        | broadcast index id kind payload => simp only [Move.blank, h id rfl]
        | send | receive | join | register => cases hinternal
        | _ => rfl
      simp only [blank, Occurrence.blank, hmove]
  | catchUp | advance => rfl

/-- A stage without content makes a broadcast under the other id. -/
theorem Stage.broadcastId?_blank (stage : Stage) :
    (stage.blank rename).broadcastId? = stage.broadcastId?.map rename := by
  cases stage with
  | occurs occurrence =>
    cases occurrence with
    | broadcastFrom | shutdown => rfl
    | happens move hinternal => cases move <;> rfl
  | catchUp | advance => rfl

/-- Runs of one plan make as many broadcasts. -/
theorem length_broadcastIds_plan (stages : List Stage) :
    (broadcastIds (plan stages)).length = (broadcastIds stages).length := by
  have hids : broadcastIds (plan stages) =
      (broadcastIds stages).map fun id => tag (number stages id) := by
    rw [broadcastIds, plan, List.filterMap_map, broadcastIds, List.map_filterMap]
    exact List.filterMap_congr fun stage _ => stage.broadcastId?_blank
  rw [hids, List.length_map]

end Plan

/-! ## Labels

Numbers alone do not tell all ids apart, since an id that does not occur in a run has none. Such an id
keeps itself instead. -/

/-- An id that tells the number of the broadcast, if there is one. -/
def label (stages : List Stage) (id : MessageId) : MessageId :=
  if id ∈ broadcastIds stages then tag (number stages id) else "?" ++ id

/-- Different numbers are different ids. -/
theorem tag_injective : Function.Injective tag := by
  intro a b h
  rw [tag, tag, String.append_right_inj] at h
  exact Decimal.natText_injective (String.ofList_injective h)

/-- The id of a number is not one that keeps itself. -/
theorem tag_ne (number : Nat) (id : MessageId) : tag number ≠ "?" ++ id := by
  intro h
  have hlist := congrArg String.toList h
  simp [tag] at hlist

/-- Different ids have different labels. -/
theorem label_injective (stages : List Stage) : Function.Injective (label stages) := by
  intro a b h
  unfold label at h
  split at h
  · rename_i ha
    split at h
    · exact (List.idxOf_inj ha).mp (tag_injective h)
    · exact absurd h (tag_ne _ b)
  · split at h
    · exact absurd h.symm (tag_ne _ a)
    · exact (String.append_right_inj "?").mp h

/-- The number that a label tells in a run of some broadcasts. -/
def told (count : Nat) (label : MessageId) : Nat := ((List.range count).map tag).idxOf label

/-- It is the number of the broadcast. -/
theorem told_label (stages : List Stage) (id : MessageId) :
    told (broadcastIds stages).length (label stages id) = number stages id := by
  have hnodup : ((List.range (broadcastIds stages).length).map tag).Nodup :=
    List.nodup_range.map tag_injective
  rw [told, label]
  split
  · rename_i hid
    have hlt : number stages id < ((List.range (broadcastIds stages).length).map tag).length := by
      rw [List.length_map, List.length_range]
      exact List.idxOf_lt_length_of_mem hid
    have hat := hnodup.idxOf_getElem (number stages id) hlt
    rw [List.getElem_map, List.getElem_range] at hat
    exact hat
  · rename_i hid
    have hnot : "?" ++ id ∉ (List.range (broadcastIds stages).length).map tag := by
      intro hmem
      obtain ⟨other, -, heq⟩ := List.mem_map.mp hmem
      exact tag_ne other id heq
    rw [List.idxOf_of_notMem hnot, number, List.idxOf_of_notMem hid, List.length_map,
      List.length_range]

/-- The stages of a run without content, under their labels, are its plan. -/
theorem map_blank_label (stages : List Stage) :
    stages.map (Stage.blank (label stages)) = plan stages := by
  refine List.map_congr_left fun stage hmem => Stage.blank_congr fun id hid => ?_
  exact if_pos (List.mem_filterMap.mpr ⟨stage, hmem, hid⟩)

/-! ## Runs of one plan -/

variable {σ : Type} [Random.Source σ]

/-- How a simulation stands in the course of a run can be told from the plan of the run and from the
simulation without content. -/
theorem routing_undergoAll {simulation : Simulation σ} (hage : simulation.world.IsAgeless)
    (stages : List Stage) (count : Nat) :
    (simulation.undergoAll (stages.take count)).routing (number stages) =
      ((simulation.blank (label stages)).undergoAll ((plan stages).take count)).routing
        (told (broadcastIds (plan stages)).length) := by
  -- The labels are those of the whole run, so that the same ones serve all of its beginnings.
  have hplan : (stages.take count).map (Stage.blank (label stages)) = (plan stages).take count := by
    rw [List.map_take, map_blank_label]
  have hnumber : number stages =
      fun id => told (broadcastIds (plan stages)).length (label stages id) := by
    funext id
    rw [length_broadcastIds_plan, told_label]
  rw [← hplan, ← blank_undergoAll (label_injective stages) hage, routing_blank, ← hnumber]

/-- Two simulations that are set up from one configuration and one state of all draws, and go through
stages of one plan, stand alike after every stage: their broadcasts are numbered, and then the same sends
have had the same fates in the same order, the same nodes have seen and keep the same broadcasts, and
all counters and states of draws are the same. -/
theorem routing_ignores_content {config : SimulationConfig} (hvalid : config.check = .ok ())
    (generators : Generators σ) (hasClock : Bool) (wall wall' : Nat) :
    ∃ start start', Simulation.new config generators hasClock wall = .ok start ∧
      Simulation.new config generators hasClock wall' = .ok start' ∧
      ∀ stages stages', plan stages = plan stages' → ∀ count,
        (start.undergoAll (stages.take count)).routing (number stages) =
          (start'.undergoAll (stages'.take count)).routing (number stages') := by
  have hage : ∀ wall, (assembled (emptyNetwork config generators hasClock)
      #v[⟨config.fanout, none, generators.selection⟩] wall config.rumorRounds
        config.nodeCount).IsAgeless := fun wall => isAgeless_assembled _ _ _ wall _ _
  have hstart := isAgeless_wired config generators hasClock (hage wall)
  have hstart' := isAgeless_wired config generators hasClock (hage wall')
  refine ⟨_, _, new_eq hvalid generators hasClock wall, new_eq hvalid generators hasClock wall',
    fun stages stages' hplan count => ?_⟩
  rw [routing_undergoAll hstart, routing_undergoAll hstart', hplan,
    blank_wired (label_injective stages) _ _ _ (hage wall),
    blank_wired (label_injective stages') _ _ _ (hage wall'), blank_assembled, blank_assembled]

/-- A broadcast with time to arrive, and another one when the network has begun to lose every send. -/
def spoken (id id' : MessageId) (kind : String) (payload payload' : Payload) : List Stage :=
  .occurs (.broadcastFrom "node-1" id kind payload) ::
    (ticking [.turn 0, .pass 2, .fire, .turn 0] (by decide)).map .occurs ++
      [.occurs (.happens (.setDropRate Binary64.one) rfl),
        .occurs (.broadcastFrom "node-0" id' kind payload'), .occurs .shutdown]

/-- Whether numbers are broadcast or a word and nothing at all, the first broadcast goes over two links,
and the second one is lost on its way. -/
theorem routing_ignores_content_spoken :
    let stages := spoken "first" "second" "update" [("key", .int 1)] [("key", .int 2)]
    let stages' := spoken "a" "b" "notice" [("word", .string "yes")] []
    ∃ start start',
      Simulation.new trio (⟨⟨[]⟩, ⟨[]⟩, ⟨[]⟩⟩ : Generators Random.Script) true 0 = .ok start ∧
      Simulation.new trio (⟨⟨[]⟩, ⟨[]⟩, ⟨[]⟩⟩ : Generators Random.Script) true 1000 = .ok start' ∧
      plan stages = plan stages' ∧
      let routing := (start.undergoAll stages).routing (number stages)
      routing.routes.map (fun route => (route.sender, route.target, route.broadcast)) =
        [("node-0", "node-2", 1), ("node-2", "node-0", 0), ("node-1", "node-2", 0)] ∧
      routing.stats.droppedCount = 1 ∧
      routing = (start'.undergoAll stages').routing (number stages') := by
  intro stages stages'
  have hvalid : trio.check = .ok () := rfl
  obtain ⟨start, start', hnew, hnew', halike⟩ := routing_ignores_content hvalid
    (⟨⟨[]⟩, ⟨[]⟩, ⟨[]⟩⟩ : Generators Random.Script) true 0 1000
  have hplan : plan stages = plan stages' := rfl
  have hfacts : (Simulation.new trio (⟨⟨[]⟩, ⟨[]⟩, ⟨[]⟩⟩ : Generators Random.Script) true
      0).toOption.map (fun start =>
        let routing := (start.undergoAll stages).routing (number stages)
        (routing.routes.map fun route => (route.sender, route.target, route.broadcast),
          routing.stats.droppedCount)) =
      some ([("node-0", "node-2", 1), ("node-2", "node-0", 0), ("node-1", "node-2", 0)], 1) := by
    decide +kernel
  rw [hnew] at hfacts
  obtain ⟨hroutes, hdropped⟩ := Prod.mk.inj (Option.some.inj hfacts)
  exact ⟨start, start', hnew, hnew', hplan, hroutes, hdropped,
    halike stages stages' hplan stages.length⟩

end Simulation

end Epidemic
