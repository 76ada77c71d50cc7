import Epidemic.Proofs.Simulation.Confinement
import Epidemic.Proofs.Simulation.Traffic
import Epidemic.Proofs.Topology.Stitching
import Mathlib.Algebra.BigOperators.Ring.Finset

/-!
# The peers of a new simulation

Setting up a simulation is refused for the reason for which its configuration is refused, and for no
other. If it is set up, the list of nodes, the registry of the network, the names of the nodes and
their peers all describe one graph, which is the topology: every link makes one peer of each of its
ends.
-/

namespace Epidemic

namespace Decimal

/-- The text of a number is the one that it usually has. -/
theorem natText_eq_toDigits (n : Nat) : natText n = Nat.toDigits 10 n := by
  have hdigit : ∀ digit : Fin 10, digitChar digit = Nat.digitChar digit := by decide
  induction n using Nat.strongRecOn with
  | ind n ih =>
    rw [natText, digitsOf]
    split
    · rename_i hlt
      have hchar : digitChar n = Nat.digitChar n := hdigit ⟨n, hlt⟩
      rw [Nat.toDigits_of_lt_base hlt, List.map_singleton, hchar]
    · have hfirst : (digitsOf (n / 10)).map digitChar = Nat.toDigits 10 (n / 10) :=
        ih (n / 10) (by omega)
      have hlast : Nat.toDigits 10 (n % 10) = [digitChar (n % 10)] := by
        have hchar : digitChar (n % 10) = Nat.digitChar (n % 10) := hdigit ⟨n % 10, by omega⟩
        rw [Nat.toDigits_of_lt_base (by omega), hchar]
      have hjoin : Nat.toDigits 10 (n / 10) ++ Nat.toDigits 10 (n % 10) =
          Nat.toDigits 10 (10 * (n / 10) + n % 10) :=
        Nat.toDigits_append_toDigits (by omega) (by omega) (by omega)
      rw [Nat.div_add_mod] at hjoin
      rw [List.map_append, List.map_singleton, hfirst, ← hlast, hjoin]

end Decimal

/-! ## Links and their ends -/

/-- The other end of a link. -/
def Link.across (link : Link) (node : Nat) : Nat :=
  if link.low = node then link.high else link.low

/-- Of two links of one node that have the same other end, there is only one. -/
theorem Link.across_injective {link other : Link} {node : Nat} (hends : link.low < link.high)
    (hendsOther : other.low < other.high) (hnode : link.hasEnd node = true)
    (hnodeOther : other.hasEnd node = true) (h : link.across node = other.across node) :
    link = other := by
  obtain ⟨low, high⟩ := link
  obtain ⟨low', high'⟩ := other
  simp only [hasEnd, across, Bool.or_eq_true, decide_eq_true_eq, mk.injEq] at *
  split at h <;> split at h <;> omega

namespace Topology

/-- A link between nodes of a population has two of them as its ends. -/
theorem card_filter_hasEnd {nodeCount : Nat} {link : Link} (hends : link.low < link.high)
    (hhigh : link.high < nodeCount) :
    ((Finset.range nodeCount).filter fun node => link.hasEnd node = true).card = 2 := by
  have hpair : (Finset.range nodeCount).filter (fun node => link.hasEnd node = true) =
      {link.low, link.high} := by
    ext node
    simp only [Finset.mem_filter, Finset.mem_range, Link.hasEnd, Bool.or_eq_true, decide_eq_true_eq,
      Finset.mem_insert, Finset.mem_singleton]
    omega
  rw [hpair, Finset.card_pair (Nat.ne_of_lt hends)]

/-- The nodes of a population together are twice as often ends of links as there are links. -/
theorem sum_countP_hasEnd {nodeCount : Nat} {links : List Link}
    (h : ∀ link ∈ links, link.low < link.high ∧ link.high < nodeCount) :
    ∑ node ∈ Finset.range nodeCount, links.countP (·.hasEnd node) = 2 * links.length := by
  induction links with
  | nil => simp
  | cons link rest ih =>
    obtain ⟨hends, hhigh⟩ := h link List.mem_cons_self
    have hrest := ih fun other hmem => h other (List.mem_cons_of_mem link hmem)
    have hfirst : ∑ node ∈ Finset.range nodeCount, (if link.hasEnd node = true then 1 else 0) = 2 := by
      rw [Finset.sum_boole, card_filter_hasEnd hends hhigh]
      rfl
    simp only [List.countP_cons, Finset.sum_add_distrib, List.length_cons]
    omega

end Topology

namespace Simulation

variable {σ : Type}

/-- The sum of a counter over nodes is the sum of what it counts at each index. -/
theorem total_eq_sum {count : Node → Nat} {nodes : List Node} {counts : Nat → Nat}
    (h : ∀ index node, nodes[index]? = some node → count node = counts index) :
    total count nodes = ∑ index ∈ Finset.range nodes.length, counts index := by
  induction nodes generalizing counts with
  | nil => rfl
  | cons node rest ih =>
    have hrest : total count rest = ∑ index ∈ Finset.range rest.length, counts (index + 1) :=
      ih fun index other hat => h (index + 1) other hat
    have hfirst := h 0 node rfl
    rw [total, List.length_cons, Finset.sum_range_succ', hrest, hfirst, Nat.add_comm]

/-- A neighbour of a node is at the other end of one of its links. -/
theorem neighbour_iff {links : List Link} (hends : ∀ link ∈ links, link.low < link.high)
    {index : Nat} {name : NodeId} :
    Neighbour links index name ↔
      name ∈ (links.filter (·.hasEnd index)).map fun link => nodeId (link.across index) := by
  rw [List.mem_map]
  constructor
  · rintro ⟨link, hlink, hne, ⟨rfl, rfl⟩ | ⟨rfl, rfl⟩⟩
    · refine ⟨link, List.mem_filter.mpr ⟨hlink, ?_⟩, ?_⟩
      · simp [Link.hasEnd]
      · simp [Link.across]
    · refine ⟨link, List.mem_filter.mpr ⟨hlink, ?_⟩, ?_⟩
      · simp [Link.hasEnd]
      · simp [Link.across, hne]
  · rintro ⟨link, hmem, rfl⟩
    obtain ⟨hlink, hend⟩ := List.mem_filter.mp hmem
    have hlt := hends link hlink
    simp only [Link.hasEnd, Bool.or_eq_true, decide_eq_true_eq] at hend
    by_cases hlow : link.low = index
    · exact ⟨link, hlink, Nat.ne_of_lt hlt, Or.inl ⟨hlow.symm, by simp [Link.across, hlow]⟩⟩
    · have hhigh := hend.resolve_left hlow
      exact ⟨link, hlink, Nat.ne_of_lt hlt, Or.inr ⟨hhigh.symm, by simp [Link.across, hlow]⟩⟩

/-- A node has as many peers as there are links with it as an end. -/
theorem Meshed.length_peers_eq {nodeCount rumorRounds : Nat} {links : List Link}
    {members : List (Member 1)} (h : Meshed nodeCount rumorRounds (Neighbour links) members)
    (hlinks : Topology.AreLinks nodeCount links) {index : Nat} {member : Member 1}
    (hat : members[index]? = some member) :
    member.node.peers.length = links.countP (·.hasEnd index) := by
  obtain ⟨peers, hnode, hnodup, hpeers⟩ := h.node index member hat
  have hnodupLinks : links.Nodup := by
    refine hlinks.ascending.imp fun hlt heq => ?_
    rw [heq] at hlt
    exact Link.lt_irrefl _ hlt
  have hends : ∀ link ∈ links, link.low < link.high := fun link hlink => (hlinks.ends link hlink).1
  have hnodupEnds : ((links.filter (·.hasEnd index)).map
      fun link => nodeId (link.across index)).Nodup := by
    refine (hnodupLinks.filter _).map_on fun link hlink other hother heq => ?_
    obtain ⟨hlink, hend⟩ := List.mem_filter.mp hlink
    obtain ⟨hother, hendOther⟩ := List.mem_filter.mp hother
    exact Link.across_injective (hends link hlink) (hends other hother) hend hendOther
      (nodeId_injective heq)
  have hperm : peers.Perm ((links.filter (·.hasEnd index)).map
      fun link => nodeId (link.across index)) :=
    (List.perm_ext_iff_of_nodup hnodup hnodupEnds).mpr fun name =>
      (hpeers name).trans (neighbour_iff hends)
  rw [hnode, hperm.length_eq, List.length_map, List.countP_eq_length_filter]

/-! ## Names -/

section Founded

variable {config : SimulationConfig} {generators : Generators σ} {hasClock : Bool}
  {simulation : Simulation σ}

/-- The name of a node ends in the usual text of its number. -/
theorem nodeId_eq (index : Nat) : nodeId index = "node-" ++ toString index := by
  rw [nodeId, Decimal.natText_eq_toDigits, Nat.toString_eq_ofList_toDigits]

/-- No two nodes of a simulation have one name. -/
theorem Founded.nodup_nodeIds (h : simulation.Founded config generators hasClock) :
    simulation.nodeIds.Nodup := by
  rw [h.nodeIds_eq]
  exact nodup_map_nodeId config.nodeCount

/-- The node with a name is the one node that has it. -/
theorem Founded.node?_eq_some_iff (h : simulation.Founded config generators hasClock)
    {id : NodeId} {node : Node} :
    simulation.node? id = some node ↔ node ∈ simulation.world.nodes ∧ node.id = id := by
  have hnodup : (simulation.world.nodes.map (·.id)).Nodup := h.nodup_nodeIds
  rw [node?, Option.bind_eq_some_iff]
  constructor
  · rintro ⟨index, hindex, hat⟩
    obtain ⟨member, hmember, hname⟩ := h.indexed.exists_member hindex
    have hmem := List.mem_of_getElem? hat
    rw [World.nodes, List.getElem?_map, hmember, Option.map_some, Option.some.injEq] at hat
    exact ⟨hmem, hat ▸ hname⟩
  · rintro ⟨hmem, rfl⟩
    have hknown : node.id ∈ simulation.nodeIds := List.mem_map_of_mem hmem
    obtain ⟨index, member, hindex, hmember, hname⟩ := h.indexed.exists_indexOf? hknown
    have hat : simulation.world.nodes[index]? = some member.node := by
      rw [World.nodes, List.getElem?_map, hmember, Option.map_some]
    have hsame : member.node = node :=
      List.inj_on_of_nodup_map hnodup (List.mem_of_getElem? hat) hmem hname
    exact ⟨index, hindex, hsame ▸ hat⟩

/-- There is no node with a name that is not one of the names. -/
theorem Founded.node?_eq_none_iff (h : simulation.Founded config generators hasClock)
    {id : NodeId} : simulation.node? id = none ↔ id ∉ simulation.nodeIds := by
  rw [Option.eq_none_iff_forall_ne_some, nodeIds, List.mem_map]
  constructor
  · rintro hnone ⟨node, hmem, hname⟩
    exact hnone node (h.node?_eq_some_iff.mpr ⟨hmem, hname⟩)
  · intro hnone node hat
    exact hnone ⟨node, h.node?_eq_some_iff.mp hat⟩

/-- The names of the registry are those of the nodes. -/
theorem Founded.names_registered (h : simulation.Founded config generators hasClock) :
    simulation.world.network.registry.map Prod.fst = simulation.nodeIds := by
  rw [h.nodeIds_eq, h.network]
  exact List.map_map

/-- A node is what is registered under its name. -/
theorem Founded.endpoint?_eq (h : simulation.Founded config generators hasClock) {index : Nat}
    {node : Node} (hat : simulation.world.nodes[index]? = some node) :
    simulation.world.network.endpoint? node.id = some (.node index) := by
  have hid : simulation.nodeIds[index]? = some node.id := by
    rw [nodeIds, List.getElem?_map, hat, Option.map_some]
  rw [h.nodeIds_eq, List.getElem?_map, Option.map_eq_some_iff] at hid
  obtain ⟨number, hnumber, hname⟩ := hid
  obtain ⟨hlt, heq⟩ := List.getElem?_eq_some_iff.mp hnumber
  rw [List.length_range] at hlt
  rw [List.getElem_range] at heq
  have hlookup := lookup_entries config.nodeCount index
  rw [if_pos hlt] at hlookup
  rw [h.network, ← hname, ← heq]
  exact hlookup

/-! ## Peers -/

/-- The peers of a node are the other ends of its links. -/
theorem Founded.mem_peers_iff (h : simulation.Founded config generators hasClock) {node : Node}
    (hnode : node ∈ simulation.world.nodes) {name : NodeId} :
    name ∈ node.peers ↔ node.id ≠ name ∧ ((node.id, name) ∈ simulation.topology ∨
      (name, node.id) ∈ simulation.topology) := by
  obtain ⟨member, hmember, rfl⟩ := List.mem_map.mp hnode
  obtain ⟨index, hat⟩ := List.mem_iff_getElem?.mp hmember
  obtain ⟨peers, hnew, -, hpeers⟩ := h.meshed.node index member hat
  have hname : member.node.id = nodeId index := by
    rw [hnew]
    rfl
  have hmem : name ∈ member.node.peers ↔ Neighbour simulation.links index name := by
    rw [hnew]
    exact hpeers name
  rw [hmem, hname]
  refine ⟨mem_topology_of_neighbour, ?_⟩
  rintro ⟨hne, hmem | hmem⟩
  · obtain ⟨link, hlink, heq⟩ := List.mem_map.mp hmem
    obtain ⟨hlow, hhigh⟩ := Prod.mk.inj heq
    refine ⟨link, hlink, fun hends => hne ?_, Or.inl ⟨(nodeId_injective hlow).symm, hhigh.symm⟩⟩
    rw [← hlow, ← hhigh, hends]
  · obtain ⟨link, hlink, heq⟩ := List.mem_map.mp hmem
    obtain ⟨hlow, hhigh⟩ := Prod.mk.inj heq
    refine ⟨link, hlink, fun hends => hne ?_, Or.inr ⟨(nodeId_injective hhigh).symm, hlow.symm⟩⟩
    rw [← hlow, ← hhigh, hends]

/-- No node lists a peer twice. -/
theorem Founded.nodup_peers (h : simulation.Founded config generators hasClock) {node : Node}
    (hnode : node ∈ simulation.world.nodes) : node.peers.Nodup := by
  obtain ⟨member, hmember, rfl⟩ := List.mem_map.mp hnode
  obtain ⟨index, hat⟩ := List.mem_iff_getElem?.mp hmember
  obtain ⟨peers, hnew, hnodup, -⟩ := h.meshed.node index member hat
  rw [hnew]
  exact hnodup

/-- The ends of links are names of nodes. -/
theorem Founded.mem_nodeIds_of_mem_topology (h : simulation.Founded config generators hasClock)
    {link : NodeId × NodeId} (hlink : link ∈ simulation.topology) :
    link.1 ∈ simulation.nodeIds ∧ link.2 ∈ simulation.nodeIds := by
  obtain ⟨between, hbetween, rfl⟩ := List.mem_map.mp hlink
  obtain ⟨hlow, hhigh⟩ := h.within between hbetween
  rw [h.nodeIds_eq]
  exact ⟨List.mem_map_of_mem (List.mem_range.mpr hlow),
    List.mem_map_of_mem (List.mem_range.mpr hhigh)⟩

/-- No link has one name at both ends. -/
theorem ne_of_mem_topology (hlinks : Topology.AreLinks config.nodeCount simulation.links)
    {a b : NodeId} (h : (a, b) ∈ simulation.topology) : a ≠ b := by
  obtain ⟨link, hlink, heq⟩ := List.mem_map.mp h
  obtain ⟨rfl, rfl⟩ := Prod.mk.inj heq
  exact nodeId_ne (Nat.ne_of_lt (hlinks.ends link hlink).1)

/-- The nodes have twice as many peers in sum as there are links. -/
theorem Founded.total_peers_eq (h : simulation.Founded config generators hasClock)
    (hlinks : Topology.AreLinks config.nodeCount simulation.links) :
    total (·.peers.length) simulation.world.nodes = 2 * simulation.links.length := by
  have hcounts : ∀ (index : Nat) (node : Node), simulation.world.nodes[index]? = some node →
      node.peers.length = simulation.links.countP (·.hasEnd index) := by
    intro index node hat
    rw [World.nodes, List.getElem?_map, Option.map_eq_some_iff] at hat
    obtain ⟨member, hmember, rfl⟩ := hat
    exact h.meshed.length_peers_eq hlinks hmember
  rw [total_eq_sum hcounts, World.nodes, List.length_map, h.meshed.length]
  exact Topology.sum_countP_hasEnd hlinks.ends

/-- Whether a name is that of a peer of the node with another name. -/
def IsPeer (simulation : Simulation σ) (name peer : NodeId) : Prop :=
  ∃ node, simulation.node? name = some node ∧ peer ∈ node.peers

/-- The ends of a link are peers of each other. -/
theorem Founded.isPeer_of_link (h : simulation.Founded config generators hasClock) {link : Link}
    (hlink : link ∈ simulation.links) (hne : link.low ≠ link.high) :
    simulation.IsPeer (nodeId link.low) (nodeId link.high) ∧
      simulation.IsPeer (nodeId link.high) (nodeId link.low) := by
  have hlisted : (nodeId link.low, nodeId link.high) ∈ simulation.topology :=
    List.mem_map_of_mem hlink
  obtain ⟨hlow, hhigh⟩ := h.mem_nodeIds_of_mem_topology hlisted
  obtain ⟨first, hfirst, hfirstName⟩ := List.mem_map.mp hlow
  obtain ⟨second, hsecond, hsecondName⟩ := List.mem_map.mp hhigh
  constructor
  · refine ⟨first, h.node?_eq_some_iff.mpr ⟨hfirst, hfirstName⟩, (h.mem_peers_iff hfirst).mpr ?_⟩
    rw [hfirstName]
    exact ⟨nodeId_ne hne, Or.inl hlisted⟩
  · refine ⟨second, h.node?_eq_some_iff.mpr ⟨hsecond, hsecondName⟩,
      (h.mem_peers_iff hsecond).mpr ?_⟩
    rw [hsecondName]
    exact ⟨nodeId_ne hne.symm, Or.inr hlisted⟩

/-- From every node every other one is reached over peers. -/
theorem Founded.reachable (h : simulation.Founded config generators hasClock) {a b : Nat}
    (ha : a < config.nodeCount) (hb : b < config.nodeCount) :
    Relation.ReflTransGen simulation.IsPeer (nodeId a) (nodeId b) := by
  -- The nodes that are reached are closed under links, in both directions.
  have hrespects : Topology.Respects
      (fun index => Relation.ReflTransGen simulation.IsPeer (nodeId a) (nodeId index))
      simulation.links := by
    intro link hlink
    by_cases hends : link.low = link.high
    · rw [hends]
    · obtain ⟨hforth, hback⟩ := h.isPeer_of_link hlink hends
      exact ⟨fun hlow => hlow.tail hforth, fun hhigh => hhigh.tail hback⟩
  exact (h.joined a ha b hb _ hrespects).mp .refl

end Founded

/-! ## The whole -/

variable [Random.Source σ]

/-- The links of what has been set up are those of a topology. -/
theorem areLinks_of_new {config : SimulationConfig} {generators : Generators σ} {hasClock : Bool}
    {wall : Nat} {simulation : Simulation σ}
    (hnew : Simulation.new config generators hasClock wall = .ok simulation) :
    Topology.AreLinks config.nodeCount simulation.links := by
  have heq := new_eq (check_of_new hnew) generators hasClock wall
  rw [hnew, Except.ok.injEq] at heq
  rw [heq]
  exact (Topology.areLinks_random config.nodeCount generators.topology).1

/-- A simulation is refused exactly if the check of its configuration refuses it, and for the same
reason. If it is set up, with a clock or without one, its nodes are called `node-0`, `node-1`, and so
on; the network knows each of them under its name and no other endpoint; by its name, and by no
other text, a node is found. Peers of a node are the other ends of its links in the topology, so that
nodes are peers of each other and never of themselves, and have twice as many peers in sum as there
are links; and every node is reached from every other one over peers. -/
theorem nodes_are_set_up_as_peers (config : SimulationConfig) (generators : Generators σ)
    (hasClock : Bool) (wall : Nat) :
    (∀ fault, Simulation.new config generators hasClock wall = .error fault ↔
      config.check = .error fault) ∧
    ∀ simulation, Simulation.new config generators hasClock wall = .ok simulation →
      (simulation.nodeIds = (List.range config.nodeCount).map (fun index => "node-" ++ toString index) ∧
        simulation.nodeIds.Nodup) ∧
      (simulation.world.network.nodeCount = config.nodeCount ∧
        simulation.world.network.registry.map Prod.fst = simulation.nodeIds ∧
        ∀ index node, simulation.world.nodes[index]? = some node →
          simulation.world.network.endpoint? node.id = some (.node index)) ∧
      (∀ id, (∀ node, simulation.node? id = some node ↔
          node ∈ simulation.world.nodes ∧ node.id = id) ∧
        (simulation.node? id = none ↔ id ∉ simulation.nodeIds)) ∧
      (∀ link ∈ simulation.topology,
        link.1 ∈ simulation.nodeIds ∧ link.2 ∈ simulation.nodeIds) ∧
      (∀ node ∈ simulation.world.nodes, ∀ name, name ∈ node.peers ↔
        (node.id, name) ∈ simulation.topology ∨ (name, node.id) ∈ simulation.topology) ∧
      (∀ node ∈ simulation.world.nodes, node.id ∉ node.peers ∧ node.peers.Nodup ∧
        ∀ other ∈ simulation.world.nodes, other.id ∈ node.peers ↔ node.id ∈ other.peers) ∧
      total (·.peers.length) simulation.world.nodes = 2 * simulation.stats.edgeCount ∧
      ∀ a ∈ simulation.nodeIds, ∀ b ∈ simulation.nodeIds,
        Relation.ReflTransGen simulation.IsPeer a b := by
  refine ⟨fun fault => new_eq_error_iff, fun simulation hnew => ?_⟩
  have h := founded_of_new hnew
  have hlinks := areLinks_of_new hnew
  have hpeers : ∀ node ∈ simulation.world.nodes, ∀ name, name ∈ node.peers ↔
      (node.id, name) ∈ simulation.topology ∨ (name, node.id) ∈ simulation.topology := by
    intro node hnode name
    rw [h.mem_peers_iff hnode, and_iff_right_iff_imp]
    rintro (hmem | hmem)
    · exact ne_of_mem_topology hlinks hmem
    · exact (ne_of_mem_topology hlinks hmem).symm
  refine ⟨⟨?_, h.nodup_nodeIds⟩, ⟨?_, h.names_registered, fun index node hat => ?_⟩,
    fun id => ⟨fun node => h.node?_eq_some_iff, h.node?_eq_none_iff⟩,
    fun link hlink => h.mem_nodeIds_of_mem_topology hlink, hpeers,
    fun node hnode => ⟨fun hself => ?_, ?_, fun other hother => ?_⟩, h.total_peers_eq hlinks,
    fun a ha b hb => ?_⟩
  · rw [h.nodeIds_eq]
    exact List.map_congr_left fun index _ => nodeId_eq index
  · rw [Network.nodeCount, ← List.length_map, h.names_registered, h.nodeIds_eq, List.length_map,
      List.length_range]
  · exact h.endpoint?_eq hat
  · exact absurd rfl ((h.mem_peers_iff hnode).mp hself).1
  · exact h.nodup_peers hnode
  · rw [hpeers node hnode, hpeers other hother, or_comm]
  · rw [h.nodeIds_eq] at ha hb
    obtain ⟨first, hfirst, rfl⟩ := List.mem_map.mp ha
    obtain ⟨second, hsecond, rfl⟩ := List.mem_map.mp hb
    exact h.reachable (List.mem_range.mp hfirst) (List.mem_range.mp hsecond)

/-- The simulation of a trio. -/
theorem nodes_are_set_up_as_peers_trio :
    ∃ start,
      Simulation.new trio (⟨⟨[]⟩, ⟨[]⟩, ⟨[]⟩⟩ : Generators Random.Script) false 0 = .ok start ∧
      start.nodeIds = ["node-0", "node-1", "node-2"] ∧
      total (·.peers.length) start.world.nodes = 4 ∧
      Relation.ReflTransGen start.IsPeer "node-0" "node-1" := by
  have hvalid : trio.check = .ok () := rfl
  obtain ⟨start, hnew, -⟩ := exists_founded hvalid
    (⟨⟨[]⟩, ⟨[]⟩, ⟨[]⟩⟩ : Generators Random.Script) false 0
  obtain ⟨-, hset⟩ := nodes_are_set_up_as_peers trio
    (⟨⟨[]⟩, ⟨[]⟩, ⟨[]⟩⟩ : Generators Random.Script) false 0
  obtain ⟨⟨hids, -⟩, -, -, -, -, -, hpeers, hreach⟩ := hset start hnew
  have hids : start.nodeIds = ["node-0", "node-1", "node-2"] := hids
  have hlinks : (Simulation.new trio (⟨⟨[]⟩, ⟨[]⟩, ⟨[]⟩⟩ : Generators Random.Script) false
      0).toOption.map (·.stats.edgeCount) = some 2 := by
    decide +kernel
  rw [hnew] at hlinks
  have htwo : start.stats.edgeCount = 2 := Option.some.inj hlinks
  rw [htwo] at hpeers
  refine ⟨start, hnew, hids, hpeers, hreach _ ?_ _ ?_⟩
  · rw [hids]
    exact List.mem_cons_self
  · rw [hids]
    exact List.mem_cons_of_mem _ List.mem_cons_self

end Simulation

end Epidemic
