import Epidemic.Proofs.Convergence.Agreement
import Epidemic.Proofs.Simulation.Construction
import Epidemic.Proofs.World.Conservation
import Epidemic.Proofs.World.Flooding
import Epidemic.Random.Script

/-!
# Broadcasts reach all nodes of a simulation

In a simulation without losses, in which no node has more peers than the fanout, broadcasts are
made, messages are delivered in any order, and nodes have rumor rounds. Whenever nothing is in
flight, every node has seen every broadcast: messages flood the network, and the links join all
nodes. So the nodes agree on every key that only one of the broadcasts sets. The passage of time and
the wait for agreement are among these runs.
-/

namespace Epidemic.Simulation

/-- Something that happens in a simulation whose nodes, peers and losses are left alone. -/
inductive Action where
  /-- The node of a name is to make a broadcast. -/
  | broadcastFrom (origin : NodeId) (id : MessageId) (kind : String) (payload : Payload)
  /-- Something that happens in its world. -/
  | happens (move : Move 1) (isPeaceful : move.isPeaceful = true)

variable {σ : Type}

/-- The message that is made by this, if one is. -/
def Action.message? (simulation : Simulation σ) : Action → Option Message
  | .broadcastFrom origin id kind payload =>
    if simulation.nodeIds.contains origin then
      some { id, kind, origin, payload, timestamp := simulation.world.wall }
    else none
  | .happens move _ => move.message? simulation.world

/-! ## The start -/

section Founded

variable {config : SimulationConfig} {generators : Generators σ} {simulation : Simulation σ}

/-- The nodes of a simulation have their names in order, and neighbours as peers. -/
theorem Founded.wiring_at {hasClock : Bool} (h : simulation.Founded config generators hasClock)
    {index : Nat} {entry : NodeId × List NodeId}
    (hat : simulation.world.wiring[index]? = some entry) :
    index < config.nodeCount ∧ entry.1 = nodeId index ∧
      ∀ peer, peer ∈ entry.2 ↔ Neighbour simulation.links index peer := by
  rw [World.wiring, List.getElem?_map, Option.map_eq_some_iff] at hat
  obtain ⟨member, hmember, rfl⟩ := hat
  obtain ⟨peers, hnode, -, hpeers⟩ := h.meshed.node index member hmember
  obtain ⟨hlt, -⟩ := List.getElem?_eq_some_iff.mp hmember
  rw [h.meshed.length] at hlt
  rw [hnode]
  exact ⟨hlt, rfl, hpeers⟩

/-- There is a node under every index. -/
theorem Founded.exists_wiring_at {hasClock : Bool}
    (h : simulation.Founded config generators hasClock) {index : Nat}
    (hlt : index < config.nodeCount) :
    ∃ entry, simulation.world.wiring[index]? = some entry ∧ entry.1 = nodeId index := by
  have hlength : index < simulation.world.wiring.length := by
    rw [World.wiring, List.length_map, h.meshed.length]
    exact hlt
  have hat := List.getElem?_eq_getElem hlength
  exact ⟨_, hat, (h.wiring_at hat).2.1⟩

/-- At first there is nothing to account for. -/
theorem Founded.accounts {hasClock : Bool} (h : simulation.Founded config generators hasClock) :
    World.Accounts [] simulation.world := by
  have houtcomes : simulation.world.outcomes = [] := by
    rw [World.outcomes, h.journal]
    rfl
  refine ⟨?_, fun outcome => ?_⟩
  · rw [houtcomes, h.pending, h.network]
    exact List.Perm.refl _
  · rw [houtcomes, h.network]
    cases outcome <;> rfl

/-- Without losses, and with a fanout for all peers, messages will flood a simulation. -/
theorem Founded.flood (h : simulation.Founded config generators true)
    (hdrop : config.dropRate.magnitude = 0)
    (hfanout : ∀ node ∈ simulation.world.nodes, node.peers.length ≤ config.fanout) :
    simulation.world.Flood simulation.world.wiring [] [] := by
  have hnew {member : Member 1} (hmember : member ∈ simulation.world.members) :
      ∃ id peers, member.node = { Node.new id config.rumorRounds with peers } := by
    obtain ⟨index, hat⟩ := List.mem_iff_getElem?.mp hmember
    obtain ⟨peers, hnode, -⟩ := h.meshed.node index member hat
    exact ⟨_, peers, hnode⟩
  have htransit : simulation.world.transit = [] := by
    rw [World.transit, h.pending]
    rfl
  have hlossless : config.network.dropRate.isPositive = false := by
    have hzero : config.network.dropRate.magnitude = 0 := hdrop
    rw [Binary64.isPositive, hzero]
    simp only [Nat.lt_irrefl, decide_false, Bool.and_false, Bool.false_and]
  refine ⟨?_, rfl, ?_, ?_, ?_, ?_, fun _ hmem => absurd hmem List.not_mem_nil, ?_, ?_⟩
  · rw [h.network]
    exact ⟨rfl, rfl, hlossless⟩
  · intro entry hentry peer hpeer
    obtain ⟨index, hat⟩ := List.mem_iff_getElem?.mp hentry
    have hneighbour := ((h.wiring_at hat).2.2 peer).mp hpeer
    obtain ⟨other, hlt, -, rfl⟩ := exists_of_neighbour h.within hneighbour
    obtain ⟨target, htarget, hname⟩ := h.exists_wiring_at hlt
    exact ⟨target, List.mem_of_getElem? htarget, hname⟩
  · intro index entry hat
    obtain ⟨hlt, hname, -⟩ := h.wiring_at hat
    rw [h.network, hname, Network.endpoint?, lookup_entries, if_pos hlt]
  · intro member hmember
    rw [protocolOf_eq h.protocols]
    exact ⟨rfl, hfanout _ (List.mem_map_of_mem hmember)⟩
  · intro member hmember
    obtain ⟨id, peers, hnode⟩ := hnew hmember
    rw [hnode]
    exact ⟨rfl, ⟨[], fun _ hmem => absurd hmem List.not_mem_nil, rfl, rfl, rfl⟩,
      fun _ hmem => absurd hmem List.not_mem_nil⟩
  · rw [htransit]
    exact fun _ hmem => absurd hmem List.not_mem_nil
  · intro member hmember id hid
    obtain ⟨name, peers, hnode⟩ := hnew hmember
    rw [hnode] at hid
    exact absurd hid List.not_mem_nil

/-- A node of a flooded simulation has the name and the peers that belong to its index. -/
theorem Founded.member_at {hasClock : Bool} (h : simulation.Founded config generators hasClock)
    {world : World σ 1} (hnodes : world.wiring = simulation.world.wiring) {member : Member 1}
    (hmember : member ∈ world.members) :
    ∃ index < config.nodeCount, world.members[index]? = some member ∧
      member.node.id = nodeId index ∧
      ∀ peer, peer ∈ member.node.peers ↔ Neighbour simulation.links index peer := by
  obtain ⟨index, hat⟩ := List.mem_iff_getElem?.mp hmember
  have hentry : simulation.world.wiring[index]? = some (member.node.id, member.node.peers) := by
    rw [← hnodes, World.wiring, List.getElem?_map, hat]
    rfl
  obtain ⟨hlt, hname, hpeers⟩ := h.wiring_at hentry
  exact ⟨index, hlt, hat, hname, hpeers⟩

/-- When nothing is in transit, the nodes that hold a message are closed under neighbours. -/
theorem Founded.holds_of_neighbour {hasClock : Bool}
    (h : simulation.Founded config generators hasClock) {world : World σ 1} {made : List Message}
    (hflood : world.Flood simulation.world.wiring made []) (hquiet : world.transit = [])
    {a b : Nat} (hneighbour : Neighbour simulation.links a (nodeId b)) {id : MessageId}
    (hholds : world.Holds (nodeId a) id) : world.Holds (nodeId b) id := by
  obtain ⟨member, hmember, hname, hseen⟩ := hholds
  obtain ⟨index, -, -, hindex, hpeers⟩ := h.member_at hflood.nodes hmember
  rw [nodeId_injective (hindex.symm.trans hname)] at hpeers
  rcases hflood.spread member hmember id hseen _ ((hpeers _).mpr hneighbour) with hheld | hcarried
  · exact hheld
  · obtain ⟨envelope, henvelope, -⟩ := hcarried
    rw [hquiet] at henvelope
    exact absurd henvelope List.not_mem_nil

/-- When nothing is in transit, every node has seen every message that was made. -/
theorem Founded.hasSeen_of_quiet {hasClock : Bool}
    (h : simulation.Founded config generators hasClock) {world : World σ 1} {made : List Message}
    (hflood : world.Flood simulation.world.wiring made []) (hquiet : world.transit = [])
    {node : Node} (hnode : node ∈ world.nodes) {message : Message} (hmessage : message ∈ made) :
    node.hasSeen message.id = true := by
  have hrespects : Topology.Respects (fun index => world.Holds (nodeId index) message.id)
      simulation.links := by
    intro link hlink
    by_cases hends : link.low = link.high
    · rw [hends]
    · constructor
      · exact h.holds_of_neighbour hflood hquiet ⟨link, hlink, hends, Or.inl ⟨rfl, rfl⟩⟩
      · exact h.holds_of_neighbour hflood hquiet ⟨link, hlink, hends, Or.inr ⟨rfl, rfl⟩⟩
  obtain ⟨member, hmember, rfl⟩ := List.mem_map.mp hnode
  obtain ⟨index, hlt, hat, hname, -⟩ := h.member_at hflood.nodes hmember
  -- The links join the node with the one that made the message.
  obtain ⟨name, maker, hmaker, rfl, hmade⟩ := hflood.origin message hmessage
  obtain ⟨first, hfirst, -, hfirstName, -⟩ := h.member_at hflood.nodes hmaker
  have hstart : world.Holds (nodeId first) message.id := ⟨maker, hmaker, hfirstName, hmade⟩
  obtain ⟨holder, hholder, hholderName, hseen⟩ :=
    (h.joined first hfirst index hlt _ hrespects).mp hstart
  obtain ⟨place, -, hplace, hplaceName, -⟩ := h.member_at hflood.nodes hholder
  rw [nodeId_injective (hplaceName.symm.trans hholderName), hat] at hplace
  cases hplace
  exact List.contains_iff_mem.mpr hseen

end Founded

/-- A report on the nodes of a simulation. -/
theorem report_eq (simulation : Simulation σ) (key : String) :
    simulation.report key = Convergence.Report.ofNodes simulation.world.nodes key :=
  Convergence.Watch.report_ofAll simulation.world key Convergence.Watch.defaultPoll

/-- If exactly one of the messages sets a key, and all nodes have seen all of them, they agree on
the key. -/
theorem report_of_seen {simulation : Simulation σ} {wiring : Wiring} {made : List Message}
    (hflood : simulation.world.Flood wiring made []) (hne : simulation.world.nodes ≠ [])
    (hnodup : (made.map (·.id)).Nodup) {message : Message} {key : String}
    (honly : made.filter (·.sets key) = [message])
    (hnumeric : Json.Value.membersNumeric message.payload = true)
    (hseen : ∀ node ∈ simulation.world.nodes, ∀ message ∈ made,
      node.hasSeen message.id = true) :
    (simulation.report key).isConverged = true ∧
      (simulation.report key).agreeingNodes = simulation.world.nodes.length := by
  have hfiltered : message ∈ made.filter (·.sets key) := by
    rw [honly]
    exact List.mem_singleton.mpr rfl
  obtain ⟨hmem, hsets⟩ := List.mem_filter.mp hfiltered
  obtain ⟨value, hvalue⟩ : ∃ value, Json.Members.last? key message.payload = some value := by
    rw [← Option.isSome_iff_exists, message.isSome_last?_payload]
    exact hsets
  have hheld : ∀ node ∈ simulation.world.nodes, node.get? key = some value := by
    intro node hnode
    have hknown := List.contains_iff_mem.mp (hseen node hnode message hmem)
    obtain ⟨member, hmember, rfl⟩ := List.mem_map.mp hnode
    rw [(hflood.informed member hmember).get?_eq hnodup hmem hknown fun other =>
      Message.eq_or_last?_eq_none honly]
    exact hvalue
  have hvalueNumeric : value.isNumeric = true :=
    Json.Value.isNumeric_of_mem hnumeric (Json.Members.mem_of_last?_eq_some hvalue)
  rw [report_eq]
  exact Convergence.Report.ofNodes_of_agreement hvalueNumeric hheld hne

/-! ## The run -/

variable [Random.Source σ]

/-- What comes of it. -/
def step (simulation : Simulation σ) : Action → Simulation σ
  | .broadcastFrom origin id kind payload => (simulation.broadcastFrom origin id kind payload).2
  | .happens move _ => { simulation with world := simulation.world.step move }

/-- What comes of one thing after the other. -/
def run (simulation : Simulation σ) (actions : List Action) : Simulation σ :=
  actions.foldl step simulation

/-- The messages that are made on the way. -/
def made (simulation : Simulation σ) : List Action → List Message
  | [] => []
  | action :: rest => (action.message? simulation).toList ++ (simulation.step action).made rest

/-- Everything that happens comes down to a peaceful move. -/
theorem Indexed.exists_move {simulation : Simulation σ} (h : simulation.Indexed) (action : Action) :
    ∃ move : Move 1, move.isPeaceful = true ∧
      simulation.step action = { simulation with world := simulation.world.step move } ∧
      action.message? simulation = move.message? simulation.world := by
  cases action with
  | happens move hpeaceful => exact ⟨move, hpeaceful, rfl, rfl⟩
  | broadcastFrom origin id kind payload =>
    have hcontains := h.contains_nodeIds origin
    cases hindex : simulation.indexOf? origin with
    | none =>
      rw [hindex] at hcontains
      refine ⟨.setWall simulation.world.wall, rfl, ?_, ?_⟩
      · simp only [step, broadcastFrom, hindex]
        rfl
      · rw [Action.message?, hcontains]
        rfl
    | some index =>
      rw [hindex] at hcontains
      obtain ⟨member, hat, hname⟩ := h.exists_member hindex
      refine ⟨.broadcast index id kind payload, rfl, ?_, ?_⟩
      · simp only [step, broadcastFrom, hindex, World.step]
        cases simulation.world.broadcast index id kind payload <;> rfl
      · rw [Action.message?, hcontains, Move.message?, hat, ← hname]
        rfl

/-- No node joins, so the index stays right. -/
theorem Indexed.step {simulation : Simulation σ} (h : simulation.Indexed) (action : Action) :
    (simulation.step action).Indexed := by
  obtain ⟨move, hpeaceful, hstep, -⟩ := h.exists_move action
  rw [hstep]
  refine h.congr rfl (simulation.world.names_step ?_)
  cases move with
  | join => cases hpeaceful
  | _ => rfl

/-- What ticks make of the world of a simulation comes of a run in which no message is made. -/
theorem exists_run_of_isLater {simulation : Simulation σ} {later : World σ 1}
    (h : simulation.world.IsLater later) :
    ∃ actions, simulation.run actions = { simulation with world := later } ∧
      simulation.made actions = [] := by
  obtain ⟨moves, hticks, rfl⟩ := h
  induction moves generalizing simulation with
  | nil => exact ⟨[], rfl, rfl⟩
  | cons move rest ih =>
    have hrest : ∀ other ∈ rest, other.isTick = true := fun other hmem =>
      hticks other (List.mem_cons_of_mem move hmem)
    obtain ⟨hpeaceful, hnone⟩ := Move.isPeaceful_of_isTick (hticks move List.mem_cons_self)
    have hstep : ∃ actions, (simulation.step (.happens move hpeaceful)).run actions =
        { simulation with world := simulation.world.run (move :: rest) } ∧
          (simulation.step (.happens move hpeaceful)).made actions = [] := ih hrest
    obtain ⟨actions, hrun, hmade⟩ := hstep
    refine ⟨.happens move hpeaceful :: actions, hrun, ?_⟩
    rw [made, Action.message?, hnone]
    exact hmade

/-- The passage of time is a run of a simulation. -/
theorem exists_run_advance (simulation : Simulation σ) (millis : Nat) :
    ∃ actions, simulation.run actions = simulation.advance millis ∧
      simulation.made actions = [] :=
  exists_run_of_isLater (simulation.world.isLater_advance millis)

/-- Waiting for agreement is a run of a simulation. -/
theorem exists_run_wait (simulation : Simulation σ) (key : String) (timeout : Duration) :
    ∃ actions, simulation.run actions = (simulation.wait key timeout).2 ∧
      simulation.made actions = [] :=
  exists_run_of_isLater (World.isLater_wait (simulation.watch key) _ 0 simulation.world)

/-- In a run the flood goes on, and every message that is made belongs to it. -/
theorem flood_run {simulation : Simulation σ} {wiring : Wiring} {before : List Message}
    (hindexed : simulation.Indexed) (h : simulation.world.Flood wiring before [])
    (actions : List Action) :
    (simulation.run actions).world.Flood wiring (before ++ simulation.made actions) [] := by
  induction actions generalizing simulation before with
  | nil =>
    rw [made, List.append_nil]
    exact h
  | cons action rest ih =>
    obtain ⟨move, hpeaceful, hmove, hmessage⟩ := hindexed.exists_move action
    have hstep := h.step hpeaceful
    rw [← hmessage] at hstep
    have hrest := ih (hindexed.step action) (by rw [hmove]; exact hstep)
    rw [List.append_assoc] at hrest
    exact hrest

/-- In a run the books are kept. -/
theorem accounts_run {simulation : Simulation σ} (hindexed : simulation.Indexed)
    (h : World.Accounts [] simulation.world) (actions : List Action) :
    World.Accounts [] (simulation.run actions).world := by
  induction actions generalizing simulation with
  | nil => exact h
  | cons action rest ih =>
    obtain ⟨move, -, hmove, -⟩ := hindexed.exists_move action
    refine ih (hindexed.step action) ?_
    rw [hmove]
    exact h.step move

/-- A simulation with a valid configuration and no losses can be set up, and if the fanout is enough
for all peers of every node then, whatever broadcasts are made and in whatever order messages are
delivered, as soon as nothing is in flight every node has seen every broadcast. If the broadcasts
have different ids, the nodes agree on every key that exactly one of them sets, provided that its
doubles are numbers, as they are in every message that is read: see
`Message.membersNumeric_payload`. -/
theorem broadcasts_reach_all_nodes {config : SimulationConfig} (hvalid : config.check = .ok ())
    (hdrop : config.dropRate.magnitude = 0) (generators : Generators σ) (wall : Nat) :
    ∃ start, Simulation.new config generators true wall = .ok start ∧
      ((∀ node ∈ start.world.nodes, node.peers.length ≤ config.fanout) ∨
          config.nodeCount - 1 ≤ config.fanout →
        ∀ actions, (start.run actions).world.network.stats.inFlight = 0 →
          (∀ node ∈ (start.run actions).world.nodes, ∀ message ∈ start.made actions,
            node.hasSeen message.id = true) ∧
          (((start.made actions).map (·.id)).Nodup → ∀ key message,
            (start.made actions).filter (·.sets key) = [message] →
            Json.Value.membersNumeric message.payload = true →
            ((start.run actions).report key).isConverged = true ∧
              ((start.run actions).report key).agreeingNodes = config.nodeCount)) := by
  obtain ⟨start, hnew, hfounded⟩ := exists_founded hvalid generators true wall
  refine ⟨start, hnew, fun hfanout actions hquiet => ?_⟩
  have hpeers : ∀ node ∈ start.world.nodes, node.peers.length ≤ config.fanout := by
    rcases hfanout with hall | hgreat
    · exact hall
    · intro node hnode
      obtain ⟨member, hmember, rfl⟩ := List.mem_map.mp hnode
      exact Nat.le_trans (hfounded.meshed.length_peers_le hfounded.within hmember) hgreat
  have hflood : (start.run actions).world.Flood start.world.wiring (start.made actions) [] :=
    flood_run hfounded.indexed (hfounded.flood hdrop hpeers) actions
  have htransit : (start.run actions).world.transit = [] := by
    rw [(accounts_run hfounded.indexed hfounded.accounts actions).inFlight_eq] at hquiet
    rw [World.transit, List.length_eq_zero_iff.mp hquiet]
    rfl
  have hseen : ∀ node ∈ (start.run actions).world.nodes, ∀ message ∈ start.made actions,
      node.hasSeen message.id = true := fun node hnode message hmessage =>
    hfounded.hasSeen_of_quiet hflood htransit hnode hmessage
  have hcount : (start.run actions).world.nodes.length = config.nodeCount := by
    have hlengths := congrArg List.length hflood.nodes
    rw [World.wiring, World.wiring, List.length_map, List.length_map] at hlengths
    rw [World.nodes, List.length_map, hlengths, hfounded.meshed.length]
  refine ⟨hseen, fun hnodup key message honly hnumeric => ?_⟩
  have hne : (start.run actions).world.nodes ≠ [] := by
    intro hnil
    rw [hnil, List.length_nil] at hcount
    exact absurd hcount (Nat.ne_of_lt (nodeCount_pos hvalid))
  rw [← hcount]
  exact report_of_seen hflood hne hnodup honly hnumeric hseen

/-- Three nodes with a fanout for all of them, and a millisecond of latency. -/
def trio : SimulationConfig :=
  { SimulationConfig.default with
    nodeCount := 3, fanout := 2, latencyMicros := 1000, rumorRounds := 1, rumorIntervalMillis := 5 }

/-- A millisecond, in the course of which up to three tasks have their turn. -/
def millisecond : List Action :=
  [.happens (.turn 0) rfl, .happens (.turn 0) rfl, .happens (.turn 0) rfl, .happens (.pass 1) rfl,
    .happens .fire rfl]

/-- A broadcast, and time for it to go from its node over a second one to the third. -/
def relayed : List Action :=
  .broadcastFrom "node-1" "first" "update" [("key", .int 1)] ::
    (millisecond ++ millisecond ++ millisecond)

/-- Then the three nodes agree. -/
theorem broadcasts_reach_all_nodes_relayed :
    ∃ start,
      Simulation.new trio (⟨⟨[]⟩, ⟨[]⟩, ⟨[]⟩⟩ : Generators Random.Script) true 0 = .ok start ∧
      (start.run relayed).world.network.stats.inFlight = 0 ∧
      ((start.run relayed).report "key").isConverged = true ∧
      ((start.run relayed).report "key").agreeingNodes = 3 := by
  have hvalid : trio.check = .ok () := rfl
  obtain ⟨start, hnew, hreach⟩ := broadcasts_reach_all_nodes hvalid rfl
    (⟨⟨[]⟩, ⟨[]⟩, ⟨[]⟩⟩ : Generators Random.Script) 0
  have hfacts : (Simulation.new trio (⟨⟨[]⟩, ⟨[]⟩, ⟨[]⟩⟩ : Generators Random.Script) true
      0).toOption.map (fun start => ((start.run relayed).world.network.stats.inFlight,
        start.nodeIds.contains "node-1")) = some (0, true) := by
    decide +kernel
  rw [hnew] at hfacts
  obtain ⟨hquiet, hknown⟩ := Prod.mk.inj (Option.some.inj hfacts)
  have hmade : start.made relayed =
      [⟨"first", "update", "node-1", [("key", .int 1)], start.world.wall⟩] := by
    rw [relayed, made, Action.message?, hknown]
    rfl
  obtain ⟨-, hagree⟩ := hreach (Or.inr (Nat.le_refl 2)) relayed hquiet
  rw [hmade] at hagree
  have honly : List.filter (fun (message : Message) => message.sets "key")
      [⟨"first", "update", "node-1", [("key", .int 1)], start.world.wall⟩] =
        [⟨"first", "update", "node-1", [("key", .int 1)], start.world.wall⟩] := by
    simp only [Message.sets, List.any_cons, beq_self_eq_true, Bool.true_or, List.filter_cons_of_pos,
      List.filter_nil]
  exact ⟨start, hnew, hquiet, hagree (List.nodup_singleton _) "key" _ honly rfl⟩

end Epidemic.Simulation
