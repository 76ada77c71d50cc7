import Epidemic.Proofs.Decimal
import Epidemic.Proofs.Ordered
import Epidemic.Proofs.Node.Effects
import Epidemic.Proofs.Simulation.Index
import Epidemic.Proofs.Topology.Random
import Epidemic.Proofs.World.Transit
import Mathlib.Data.List.Perm.Subperm

/-!
# What a simulation starts from

A configuration that passes its check can be set up, and this is what comes of it: nodes with
distinct names, each registered under its name, that have learned nothing; two of them are peers of
each other if there is a link between them, and otherwise not; and no message is in transit.
-/

namespace Epidemic

namespace Simulation

variable {σ : Type}

/-- Different nodes have different names. -/
theorem nodeId_injective {a b : Nat} (h : nodeId a = nodeId b) : a = b := by
  rw [nodeId, nodeId, String.append_right_inj] at h
  exact Decimal.natText_injective (String.ofList_injective h)

/-- The name of a node is not that of another one. -/
theorem nodeId_ne {a b : Nat} (h : a ≠ b) : nodeId a ≠ nodeId b :=
  fun heq => h (nodeId_injective heq)

/-- No two of the names are equal. -/
theorem nodup_map_nodeId (count : Nat) : ((List.range count).map nodeId).Nodup :=
  List.nodup_range.map fun _ _ => nodeId_injective

/-! ## Joining -/

/-- The endpoints of the nodes that have joined. -/
def entries (count : Nat) : List (NodeId × Endpoint) :=
  (List.range count).map fun index => (nodeId index, .node index)

/-- A node that has joined is registered under its name. -/
theorem lookup_entries (count index : Nat) :
    (entries count).lookup (nodeId index) = if index < count then some (.node index) else none := by
  induction count with
  | zero => rfl
  | succ count ih =>
    rw [entries, List.range_succ, List.map_append, List.lookup_append]
    rw [entries] at ih
    rw [ih]
    by_cases hlt : index < count
    · rw [if_pos hlt, if_pos (Nat.lt_succ_of_lt hlt)]
      rfl
    · rw [if_neg hlt, Option.none_or, List.map_cons, List.map_nil, List.lookup_cons]
      by_cases heq : index = count
      · rw [heq, if_pos (Nat.lt_succ_self count), beq_self_eq_true]
      · rw [if_neg (by omega), beq_false_of_ne (nodeId_ne heq)]
        rfl

/-- A world in which some nodes have joined and no links are made. -/
def assembled (network : Network σ) (protocols : Vector (Protocol σ) 1)
    (wall rumorRounds count : Nat) : World σ 1 :=
  { World.new { network with registry := entries count } protocols wall with
    members := (List.range count).map fun index =>
      ⟨.new (nodeId index) rumorRounds, ⟨0, Nat.zero_lt_one⟩⟩ }

/-- The next node can join. -/
theorem join_assembled (network : Network σ) (protocols : Vector (Protocol σ) 1)
    (wall rumorRounds count : Nat) :
    (assembled network protocols wall rumorRounds count).join (.new (nodeId count) rumorRounds) 0 =
      .ok (assembled network protocols wall rumorRounds (count + 1)) := by
  have hfree : (assembled network protocols wall rumorRounds count).network.isRegistered
      (nodeId count) = false := by
    have hlookup := lookup_entries count count
    rw [if_neg (Nat.lt_irrefl count)] at hlookup
    rw [Network.isRegistered, Network.endpoint?]
    exact congrArg Option.isSome hlookup
  have hlength : (assembled network protocols wall rumorRounds count).members.length = count := by
    rw [assembled, List.length_map, List.length_range]
  rw [World.join, World.register, Network.register, hlength]
  simp only [Node.new, hfree, Bool.false_eq_true, if_false, bind, Except.bind, pure, Except.pure]
  simp only [assembled, entries, List.range_succ, List.map_append, List.map_cons, List.map_nil]
  rfl

/-- The places of the nodes that have joined, the last one in front. -/
def places : Nat → List (NodeId × Nat)
  | 0 => []
  | count + 1 => (nodeId count, count) :: places count

/-- A name leads to the place where it stands among the names. -/
theorem lookup_places (count : Nat) (id : NodeId) :
    (places count).lookup id = ((List.range count).map nodeId).idxOf? id := by
  induction count with
  | zero => rfl
  | succ count ih =>
    have hlast : [nodeId count].findIdx? (· == id) = if nodeId count == id then some 0 else none :=
      List.findIdx?_singleton
    rw [List.idxOf?] at ih
    rw [places, List.lookup_cons, List.range_succ, List.map_append, List.idxOf?,
      List.findIdx?_append, ← ih, List.map_singleton, hlast, List.length_map, List.length_range]
    by_cases heq : id = nodeId count
    · have hfresh : (places count).lookup id = none := by
        rw [ih, List.findIdx?_eq_none_iff]
        intro name hname
        obtain ⟨number, hnumber, rfl⟩ := List.mem_map.mp hname
        rw [heq]
        exact beq_false_of_ne (nodeId_ne (Nat.ne_of_lt (List.mem_range.mp hnumber)))
      rw [hfresh, heq, beq_self_eq_true, if_pos rfl, Option.none_or, Option.map_some, Nat.zero_add]
    · rw [beq_false_of_ne heq, beq_false_of_ne (Ne.symm heq), if_neg Bool.false_ne_true,
        Option.map_none, Option.or_none]

/-- All nodes can join, one after the other. -/
theorem joinAll_assembled (network : Network σ) (protocols : Vector (Protocol σ) 1)
    (wall rumorRounds count more : Nat) :
    joinAll rumorRounds (List.range' count more) (places count)
        (assembled network protocols wall rumorRounds count) =
      .ok (places (count + more), assembled network protocols wall rumorRounds (count + more)) := by
  induction more generalizing count with
  | zero => rfl
  | succ more ih =>
    rw [List.range'_succ, joinAll, join_assembled]
    have hrest := ih (count + 1)
    rw [Nat.add_right_comm count 1 more] at hrest
    exact hrest

/-! ## Linking -/

/-- Whether members are new nodes, named by their indexes, whose peers are the related names. -/
structure Meshed (nodeCount rumorRounds : Nat) (related : Nat → NodeId → Prop)
    (members : List (Member 1)) : Prop where
  /-- There are as many members as there are to be. -/
  length : members.length = nodeCount
  /-- Every member is new, but for its peers. -/
  node : ∀ (index : Nat) (member : Member 1), members[index]? = some member →
    ∃ peers, member.node = { Node.new (nodeId index) rumorRounds with peers } ∧ peers.Nodup ∧
      ∀ peer, peer ∈ peers ↔ related index peer

/-- Before there are links no node has peers. -/
theorem meshed_assembled (network : Network σ) (protocols : Vector (Protocol σ) 1)
    (wall rumorRounds count : Nat) :
    Meshed count rumorRounds (fun _ _ => False)
      (assembled network protocols wall rumorRounds count).members where
  length := by rw [assembled, List.length_map, List.length_range]
  node index member h := by
    rw [assembled, List.getElem?_map, Option.map_eq_some_iff] at h
    obtain ⟨other, hother, rfl⟩ := h
    obtain ⟨hlt, heq⟩ := List.getElem?_eq_some_iff.mp hother
    rw [List.getElem_range] at heq
    subst heq
    exact ⟨[], rfl, List.nodup_nil, fun peer => iff_of_false List.not_mem_nil id⟩

/-- One more peer of one node. -/
theorem Meshed.addPeer {nodeCount rumorRounds : Nat} {related : Nat → NodeId → Prop}
    {world : World σ 1} (h : Meshed nodeCount rumorRounds related world.members) (index : Nat)
    (peer : NodeId) :
    Meshed nodeCount rumorRounds
      (fun other name => related other name ∨ other = index ∧ name = peer ∧ peer ≠ nodeId index)
      (world.modifyNode index fun node => (node.addPeer peer).2).members where
  length := by rw [World.modifyNode, List.length_modify, h.length]
  node other member hat := by
    rw [World.modifyNode, List.getElem?_modify] at hat
    split at hat
    · rename_i heq
      subst heq
      rw [Option.map_eq_map, Option.map_eq_some_iff] at hat
      obtain ⟨before, hbefore, rfl⟩ := hat
      obtain ⟨peers, hnode, hnodup, hmem⟩ := h.node index before hbefore
      obtain ⟨peers', hnode', hmem', hnodup'⟩ := before.node.addPeer_eq peer
      rw [hnode] at hnode' hmem' hnodup'
      refine ⟨peers', ?_, hnodup' hnodup, fun name => ?_⟩
      · rw [← hnode']
        dsimp only
        rw [hnode]
      · rw [hmem']
        dsimp only [Node.new]
        rw [hmem]
        constructor
        · rintro (hold | hnew)
          · exact Or.inl hold
          · exact Or.inr ⟨rfl, hnew⟩
        · rintro (hold | ⟨-, hnew⟩)
          · exact Or.inl hold
          · exact Or.inr hnew
    · rename_i hne
      obtain ⟨before, hbefore, rfl⟩ := Option.map_eq_some_iff.mp hat
      obtain ⟨peers, hnode, hnodup, hmem⟩ := h.node other before hbefore
      refine ⟨peers, hnode, hnodup, fun name => ?_⟩
      rw [hmem]
      constructor
      · exact Or.inl
      · rintro (hold | ⟨heq, -⟩)
        · exact hold
        · exact absurd heq.symm hne

/-- Other words for the related names. -/
theorem Meshed.congr {nodeCount rumorRounds : Nat} {related related' : Nat → NodeId → Prop}
    {members : List (Member 1)} (h : Meshed nodeCount rumorRounds related members)
    (hrelated : ∀ index name, related index name ↔ related' index name) :
    Meshed nodeCount rumorRounds related' members where
  length := h.length
  node index member hat := by
    obtain ⟨peers, hnode, hnodup, hmem⟩ := h.node index member hat
    exact ⟨peers, hnode, hnodup, fun name => (hmem name).trans (hrelated index name)⟩

/-- Whether a name is that of a neighbour of a node, at the other end of one of the links. -/
def Neighbour (links : List Link) (index : Nat) (name : NodeId) : Prop :=
  ∃ link ∈ links, link.low ≠ link.high ∧
    (index = link.low ∧ name = nodeId link.high ∨ index = link.high ∧ name = nodeId link.low)

/-- The neighbours by several links and one more. -/
theorem neighbour_append_singleton {links : List Link} {link : Link} {index : Nat} {name : NodeId} :
    Neighbour (links ++ [link]) index name ↔
      (Neighbour links index name ∨
        index = link.low ∧ name = nodeId link.high ∧ nodeId link.high ≠ nodeId link.low) ∨
        index = link.high ∧ name = nodeId link.low ∧ nodeId link.low ≠ nodeId link.high := by
  constructor
  · rintro ⟨other, hmem, hne, hends⟩
    rcases List.mem_append.mp hmem with hold | hnew
    · exact Or.inl (Or.inl ⟨other, hold, hne, hends⟩)
    · rw [List.mem_singleton.mp hnew] at hne hends
      rcases hends with ⟨hlow, hname⟩ | ⟨hhigh, hname⟩
      · exact Or.inl (Or.inr ⟨hlow, hname, nodeId_ne hne.symm⟩)
      · exact Or.inr ⟨hhigh, hname, nodeId_ne hne⟩
  · have hlast : link ∈ links ++ [link] := List.mem_append_right _ (List.mem_singleton.mpr rfl)
    rintro ((⟨other, hmem, hends⟩ | ⟨hlow, hname, hne⟩) | ⟨hhigh, hname, hne⟩)
    · exact ⟨other, List.mem_append_left _ hmem, hends⟩
    · exact ⟨link, hlast, fun heq => hne (by rw [heq]), Or.inl ⟨hlow, hname⟩⟩
    · exact ⟨link, hlast, fun heq => hne (by rw [heq]), Or.inr ⟨hhigh, hname⟩⟩

/-- Links make neighbours peers. -/
theorem Meshed.connectAll {nodeCount rumorRounds : Nat} {before : List Link} {world : World σ 1}
    (h : Meshed nodeCount rumorRounds (Neighbour before) world.members) (links : List Link) :
    Meshed nodeCount rumorRounds (Neighbour (before ++ links))
      (links.foldl connect world).members := by
  induction links generalizing before world with
  | nil =>
    rw [List.append_nil]
    exact h
  | cons link rest ih =>
    have hconnect : Meshed nodeCount rumorRounds (Neighbour (before ++ [link]))
        (connect world link).members :=
      ((h.addPeer link.low (nodeId link.high)).addPeer link.high (nodeId link.low)).congr
        fun _ _ => neighbour_append_singleton.symm
    have hrest := ih hconnect
    rw [List.append_assoc] at hrest
    exact hrest

/-- All the peers of a node are other nodes of the population. -/
theorem exists_of_neighbour {nodeCount : Nat} {links : List Link}
    (hwithin : Topology.Within nodeCount links) {index : Nat} {name : NodeId}
    (h : Neighbour links index name) :
    ∃ other < nodeCount, other ≠ index ∧ name = nodeId other := by
  obtain ⟨link, hmem, hne, ⟨rfl, rfl⟩ | ⟨rfl, rfl⟩⟩ := h
  · exact ⟨link.high, (hwithin link hmem).2, hne.symm, rfl⟩
  · exact ⟨link.low, (hwithin link hmem).1, hne, rfl⟩

/-- No node has more peers than there are other nodes. -/
theorem Meshed.length_peers_le {nodeCount rumorRounds : Nat} {links : List Link}
    {members : List (Member 1)} (h : Meshed nodeCount rumorRounds (Neighbour links) members)
    (hwithin : Topology.Within nodeCount links) {member : Member 1} (hmember : member ∈ members) :
    member.node.peers.length ≤ nodeCount - 1 := by
  obtain ⟨index, hat⟩ := List.mem_iff_getElem?.mp hmember
  obtain ⟨peers, hnode, hnodup, hpeers⟩ := h.node index member hat
  have hindex : index < nodeCount := by
    obtain ⟨hlt, -⟩ := List.getElem?_eq_some_iff.mp hat
    rwa [h.length] at hlt
  have hsubset : peers ⊆ ((List.range nodeCount).erase index).map nodeId := by
    intro peer hpeer
    obtain ⟨other, hlt, hne, rfl⟩ := exists_of_neighbour hwithin ((hpeers peer).mp hpeer)
    exact List.mem_map_of_mem ((List.mem_erase_of_ne hne).mpr (List.mem_range.mpr hlt))
  have hlength := (List.subperm_of_subset hnodup hsubset).length_le
  rw [List.length_map, List.length_erase_of_mem (List.mem_range.mpr hindex),
    List.length_range] at hlength
  rw [hnode]
  exact hlength

/-- Links change the members of a world, and nothing else. -/
theorem foldl_connect (links : List Link) (world : World σ 1) :
    links.foldl connect world = { world with members := (links.foldl connect world).members } := by
  induction links generalizing world with
  | nil => rfl
  | cons link rest ih => exact ih (connect world link)

/-! ## The whole -/

/-- The network of a simulation before its nodes have joined. -/
def emptyNetwork (config : SimulationConfig) (generators : Generators σ) (hasClock : Bool) :
    Network σ where
  config := config.network
  registry := []
  generator := generators.network
  stats := .none
  hasClock := hasClock
  isOpen := true

/-- What a simulation is like when it has been set up from a configuration. -/
structure Founded (config : SimulationConfig) (generators : Generators σ) (hasClock : Bool)
    (simulation : Simulation σ) : Prop where
  /-- It knows its configuration. -/
  settings : simulation.config = config
  /-- It knows the places of its nodes. -/
  places : simulation.index = places config.nodeCount
  /-- Its links stand between its nodes. -/
  within : Topology.Within config.nodeCount simulation.links
  /-- Its links join all of its nodes. -/
  joined : ∀ a < config.nodeCount, ∀ b < config.nodeCount, Topology.Joined simulation.links a b
  /-- Its nodes are new, and peers of their neighbours. -/
  meshed : Meshed config.nodeCount config.rumorRounds (Neighbour simulation.links)
    simulation.world.members
  /-- Its network knows all nodes and has carried nothing. -/
  network : simulation.world.network =
    { emptyNetwork config generators hasClock with registry := entries config.nodeCount }
  /-- Its protocol has the fanout of the configuration and no age bound. -/
  protocols : simulation.world.protocols = #v[⟨config.fanout, none, generators.selection⟩]
  /-- No message is in transit. -/
  pending : simulation.world.pending = []
  /-- Nothing has happened yet. -/
  journal : simulation.world.journal = []

/-- The nodes of a simulation are called by their numbers. -/
theorem Founded.nodeIds_eq {config : SimulationConfig} {generators : Generators σ}
    {hasClock : Bool} {simulation : Simulation σ}
    (h : simulation.Founded config generators hasClock) :
    simulation.nodeIds = (List.range config.nodeCount).map nodeId := by
  refine List.ext_getElem? fun index => ?_
  rw [nodeIds, World.nodes, List.map_map, List.getElem?_map, List.getElem?_map]
  cases hat : simulation.world.members[index]? with
  | none =>
    have hout := List.getElem?_eq_none_iff.mp hat
    rw [h.meshed.length] at hout
    rw [List.getElem?_eq_none (by rw [List.length_range]; exact hout)]
    rfl
  | some member =>
    obtain ⟨peers, hnode, -, -⟩ := h.meshed.node index member hat
    obtain ⟨hlt, -⟩ := List.getElem?_eq_some_iff.mp hat
    rw [h.meshed.length] at hlt
    rw [List.getElem?_range hlt, Option.map_some, Option.map_some, Function.comp_apply, hnode]
    rfl

/-- The index leads to all of them. -/
theorem Founded.indexed {config : SimulationConfig} {generators : Generators σ} {hasClock : Bool}
    {simulation : Simulation σ} (h : simulation.Founded config generators hasClock) :
    simulation.Indexed := by
  intro id
  rw [h.nodeIds_eq, indexOf?, h.places, lookup_places]

/-- Where there is one protocol, it is everybody's. -/
theorem protocolOf_eq {world : World σ 1} {protocol : Protocol σ}
    (h : world.protocols = #v[protocol]) (member : Member 1) :
    world.protocolOf member = protocol := by
  rw [World.protocolOf, h, Subsingleton.elim member.protocol 0]
  rfl

/-- A valid configuration has a node. -/
theorem nodeCount_pos {config : SimulationConfig} (h : config.check = .ok ()) :
    0 < config.nodeCount := by
  unfold SimulationConfig.check at h
  split at h
  · cases h
  · rename_i hne
    exact Nat.pos_of_ne_zero hne

/-- A valid configuration is one of a valid network. -/
theorem check_network {config : SimulationConfig} (h : config.check = .ok ()) :
    config.network.check = .ok () := by
  unfold SimulationConfig.check at h
  split at h
  · cases h
  · split at h
    · cases h
    · split at h
      · cases h
      · exact h

/-- The rumor rounds to come do not matter for anything but the agenda, and carry no message. -/
theorem pending_startRounds (world : World σ 1) (interval : Nat) (h : world.pending = []) :
    (world.startRounds interval).pending = [] := by
  have hperm := World.perm_pending_schedule world interval (.rounds interval)
  rw [h] at hperm
  exact hperm.eq_nil

/-- The simulation of a configuration when its nodes have joined a world: they are linked, and
begin their rumor rounds if there are any and there is a clock. -/
def wired [Random.Source σ] (config : SimulationConfig) (generators : Generators σ)
    (hasClock : Bool) (start : World σ 1) : Simulation σ :=
  let links := (Topology.random config.nodeCount generators.topology).1
  let linked := links.foldl connect start
  { config, links, index := places config.nodeCount,
    world :=
      if 0 < config.rumorRounds && hasClock then linked.startRounds config.rumorIntervalMillis
      else linked }

/-- From a valid configuration a simulation is set up. -/
theorem new_eq [Random.Source σ] {config : SimulationConfig} (hvalid : config.check = .ok ())
    (generators : Generators σ) (hasClock : Bool) (wall : Nat) :
    Simulation.new config generators hasClock wall = .ok (wired config generators hasClock
      (assembled (emptyNetwork config generators hasClock)
        #v[⟨config.fanout, none, generators.selection⟩] wall config.rumorRounds
        config.nodeCount)) := by
  have hnetwork : Network.new config.network generators.network hasClock =
      .ok (emptyNetwork config generators hasClock) := by
    rw [Network.new, check_network hvalid]
    rfl
  have hjoin := joinAll_assembled (emptyNetwork config generators hasClock)
    #v[⟨config.fanout, none, generators.selection⟩] wall config.rumorRounds 0 config.nodeCount
  rw [Nat.zero_add, ← List.range_eq_range'] at hjoin
  have hstart : assembled (emptyNetwork config generators hasClock)
      #v[⟨config.fanout, none, generators.selection⟩] wall config.rumorRounds 0 =
        World.new (emptyNetwork config generators hasClock)
          #v[⟨config.fanout, none, generators.selection⟩] wall := rfl
  rw [hstart, places] at hjoin
  simp only [Simulation.new, hvalid, hnetwork, hjoin, bind, Except.bind, pure, Except.pure]
  rfl

/-- Setting up a simulation is refused exactly if its configuration is refused, and for the same
reason. -/
theorem new_eq_error_iff [Random.Source σ] {config : SimulationConfig} {generators : Generators σ}
    {hasClock : Bool} {wall : Nat} {fault : Fault} :
    Simulation.new config generators hasClock wall = .error fault ↔
      config.check = .error fault := by
  cases hcheck : config.check with
  | ok valid =>
    rw [new_eq hcheck]
    exact iff_of_false (fun h => nomatch h) (fun h => nomatch h)
  | error other =>
    have hrefused : Simulation.new config generators hasClock wall = .error other := by
      rw [Simulation.new, hcheck]
      rfl
    rw [hrefused, Except.error.injEq, Except.error.injEq]

/-- Linking nodes that have joined makes neighbours peers. -/
theorem meshed_foldl_connect (network : Network σ) (protocols : Vector (Protocol σ) 1)
    (wall rumorRounds count : Nat) (links : List Link) :
    Meshed count rumorRounds (Neighbour links)
      (links.foldl connect (assembled network protocols wall rumorRounds count)).members := by
  have hnone : Meshed count rumorRounds (Neighbour [])
      (assembled network protocols wall rumorRounds count).members :=
    (meshed_assembled network protocols wall rumorRounds count).congr fun _ _ =>
      iff_of_false id fun ⟨_, hmem, _⟩ => List.not_mem_nil hmem
  exact hnone.connectAll links

/-- A valid configuration can be set up. -/
theorem exists_founded [Random.Source σ] {config : SimulationConfig}
    (hvalid : config.check = .ok ()) (generators : Generators σ) (hasClock : Bool) (wall : Nat) :
    ∃ simulation, Simulation.new config generators hasClock wall = .ok simulation ∧
      simulation.Founded config generators hasClock := by
  refine ⟨_, new_eq hvalid generators hasClock wall, ?_⟩
  obtain ⟨hwithin, hjoined⟩ := Topology.joined_random config.nodeCount generators.topology
  have hmeshed := meshed_foldl_connect (emptyNetwork config generators hasClock)
    #v[⟨config.fanout, none, generators.selection⟩] wall config.rumorRounds config.nodeCount
    (Topology.random config.nodeCount generators.topology).1
  unfold wired
  dsimp only
  rw [foldl_connect]
  split
  · exact ⟨rfl, rfl, hwithin, hjoined, hmeshed, rfl, rfl, pending_startRounds _ _ rfl, rfl⟩
  · exact ⟨rfl, rfl, hwithin, hjoined, hmeshed, rfl, rfl, rfl, rfl⟩

/-- What has been set up has a valid configuration. -/
theorem check_of_new [Random.Source σ] {config : SimulationConfig} {generators : Generators σ}
    {hasClock : Bool} {wall : Nat} {simulation : Simulation σ}
    (hnew : Simulation.new config generators hasClock wall = .ok simulation) :
    config.check = .ok () := by
  cases hcheck : config.check with
  | ok valid => rfl
  | error fault =>
    rw [new_eq_error_iff.mpr hcheck] at hnew
    cases hnew

/-- What has been set up is as it should be. -/
theorem founded_of_new [Random.Source σ] {config : SimulationConfig} {generators : Generators σ}
    {hasClock : Bool} {wall : Nat} {simulation : Simulation σ}
    (hnew : Simulation.new config generators hasClock wall = .ok simulation) :
    simulation.Founded config generators hasClock := by
  obtain ⟨founded, hfound, hfounded⟩ :=
    exists_founded (check_of_new hnew) generators hasClock wall
  rw [hnew, Except.ok.injEq] at hfound
  rw [hfound]
  exact hfounded

end Simulation

end Epidemic
