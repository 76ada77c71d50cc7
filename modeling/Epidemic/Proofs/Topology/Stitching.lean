import Epidemic.Proofs.Topology.Search
import Epidemic.Random.Script

/-!
# Random topologies have enough links and one component

The links that a node draws are all different, and are kept when others are added, so every node has
as many as it is to have. Links are drawn between different nodes. No link has an end in two
components, so each of the components but the first one is tied by a link that was not there before;
then there is one component. Nothing is asked for that there is not: links have ends that are nodes,
and ends of new links are picked from components that are not empty.
-/

namespace Epidemic

namespace Link

/-- Whether a node is an end of a link. -/
def hasEnd (link : Link) (node : Nat) : Bool := link.low = node || link.high = node

/-- The ends of the link between two nodes are these. -/
theorem hasEnd_between {a b node : Nat} :
    (between a b).hasEnd node = true ↔ node = a ∨ node = b := by
  simp only [hasEnd, Bool.or_eq_true, decide_eq_true_eq]
  rcases between_eq a b with ⟨hlow, hhigh⟩ | ⟨hlow, hhigh⟩
  · rw [hlow, hhigh]
    omega
  · rw [hlow, hhigh]
    omega

/-- The link between two different nodes has its lower end first. -/
theorem low_lt_high_between {a b : Nat} (h : a ≠ b) : (between a b).low < (between a b).high := by
  unfold between
  split
  · assumption
  · dsimp only
    omega

/-- Links from one node to others are the same only if these are. -/
theorem between_injective {node a b : Nat} (h : between node a = between node b) : a = b := by
  have ha : a = node ∨ a = b := by
    rw [← hasEnd_between, ← h, hasEnd_between]
    exact Or.inr rfl
  have hb : b = node ∨ b = a := by
    rw [← hasEnd_between, h, hasEnd_between]
    exact Or.inr rfl
  omega

/-- The order of links is transitive. -/
theorem lt_trans {a b c : Link} (hab : a < b) (hbc : b < c) : a < c := by
  have hab : a.low < b.low ∨ a.low = b.low ∧ a.high < b.high := hab
  have hbc : b.low < c.low ∨ b.low = c.low ∧ b.high < c.high := hbc
  have hac : a.low < c.low ∨ a.low = c.low ∧ a.high < c.high := by omega
  exact hac

/-- No link is below itself. -/
theorem lt_irrefl (a : Link) : ¬a < a := by
  intro h
  have h : a.low < a.low ∨ a.low = a.low ∧ a.high < a.high := h
  omega

end Link

namespace Topology

/-! ## What links are like -/

/-- What it is to be the links of a population, each listed once. -/
structure AreLinks (nodeCount : Nat) (links : List Link) : Prop where
  /-- They are listed in their order, so that none of them comes twice. -/
  ascending : links.Pairwise (· < ·)
  /-- The lower end of each comes first, and the other one is a node of the population. -/
  ends : ∀ link ∈ links, link.low < link.high ∧ link.high < nodeCount

/-- Links of a population stand between its nodes. -/
theorem AreLinks.within {nodeCount : Nat} {links : List Link} (h : AreLinks nodeCount links) :
    Within nodeCount links := by
  intro link hmem
  obtain ⟨hlt, hhigh⟩ := h.ends link hmem
  exact ⟨Nat.lt_trans hlt hhigh, hhigh⟩

/-- One more link between two different nodes of the population. -/
theorem AreLinks.insert {nodeCount : Nat} {links : List Link} (h : AreLinks nodeCount links)
    {a b : Nat} (hne : a ≠ b) (ha : a < nodeCount) (hb : b < nodeCount) :
    AreLinks nodeCount (Ordered.insert (Link.between a b) links) where
  ascending := Ordered.pairwise_insert (fun _ _ _ => Link.lt_trans) _ h.ascending
  ends link hmem := by
    refine ⟨?_, (h.within.insert ha hb link hmem).2⟩
    rcases Ordered.mem_of_mem_insert hmem with rfl | hold
    · exact Link.low_lt_high_between hne
    · exact (h.ends link hold).1

/-- What holds of the links there are, and is kept by one more link between a node and another one,
holds when the node has been linked to several others. -/
theorem linkTo_induction {motive : List Link → Prop} {node : Nat} {targets : List Nat}
    {links : List Link} (h : motive links)
    (hinsert : ∀ links, ∀ target ∈ targets, motive links →
      motive (Ordered.insert (Link.between node target) links)) :
    motive (linkTo links node targets) := by
  induction targets generalizing links with
  | nil => exact h
  | cons target rest ih =>
    exact ih (hinsert links target List.mem_cons_self h) fun links other hmem =>
      hinsert links other (List.mem_cons_of_mem target hmem)

/-- Linking a node to others keeps the links there are. -/
theorem mem_linkTo_of_mem {links : List Link} {link : Link} (h : link ∈ links) (node : Nat)
    (targets : List Nat) : link ∈ linkTo links node targets :=
  linkTo_induction h fun _ _ _ hmem => Ordered.mem_insert_of_mem hmem

/-- A node is linked to each of the others. -/
theorem between_mem_linkTo {links : List Link} {node target : Nat} {targets : List Nat}
    (h : target ∈ targets) : Link.between node target ∈ linkTo links node targets := by
  induction targets generalizing links with
  | nil => cases h
  | cons first rest ih =>
    rcases List.mem_cons.mp h with rfl | hrest
    · exact mem_linkTo_of_mem (Ordered.mem_insert_self _ links) node rest
    · exact ih hrest

/-- There are as many others as there are nodes, but one. -/
theorem length_others {nodeCount node : Nat} (h : node < nodeCount) :
    (others nodeCount node).length = nodeCount - 1 := by
  rw [others, ← List.nodup_range.erase_eq_filter,
    List.length_erase_of_mem (List.mem_range.mpr h), List.length_range]

/-- A node is to draw no more links than there are others. -/
theorem targetDegree_le (nodeCount : Nat) : targetDegree nodeCount ≤ nodeCount - 1 := by
  unfold targetDegree
  split
  · exact Nat.zero_le _
  · exact Nat.min_le_right _ _

/-- If a node is linked to different targets, it is the end of as many links. -/
theorem length_le_countP_hasEnd {links : List Link} {node : Nat} {targets : List Nat}
    (hnodup : targets.Nodup) (h : ∀ target ∈ targets, Link.between node target ∈ links) :
    targets.length ≤ links.countP (·.hasEnd node) := by
  have hdistinct : (targets.map (Link.between node)).Nodup :=
    hnodup.map fun _ _ => Link.between_injective
  have hsubset : targets.map (Link.between node) ⊆ links.filter (·.hasEnd node) := by
    intro link hmem
    obtain ⟨target, htarget, rfl⟩ := List.mem_map.mp hmem
    exact List.mem_filter.mpr ⟨h target htarget, Link.hasEnd_between.mpr (Or.inl rfl)⟩
  have hle := (List.subperm_of_subset hdistinct hsubset).length_le
  rwa [List.length_map, ← List.countP_eq_length_filter] at hle

section Random

variable {σ : Type} [Random.Chooser σ]

/-! ## The links that nodes draw -/

/-- The targets of a node are different nodes, and none of them is the node itself; there are as many
as the node is to have links. -/
theorem targets_spec {nodeCount node : Nat} (h : node < nodeCount) (state : σ) :
    let targets := (Random.shuffle (others nodeCount node) state).1.take (targetDegree nodeCount)
    targets.Nodup ∧ targets.length = targetDegree nodeCount ∧
      ∀ target ∈ targets, node ≠ target ∧ target < nodeCount := by
  have hperm := Random.perm_shuffle (others nodeCount node) state
  refine ⟨?_, ?_, fun target hmem => ?_⟩
  · have hnodup : (others nodeCount node).Nodup := List.nodup_range.filter _
    exact (hperm.nodup_iff.mpr hnodup).sublist (List.take_sublist _ _)
  · have hle := targetDegree_le nodeCount
    rw [List.length_take, hperm.length_eq, length_others h]
    omega
  · have hother := hperm.mem_iff.mp (List.mem_of_mem_take hmem)
    rw [others, List.mem_filter, List.mem_range, bne_iff_ne] at hother
    exact ⟨hother.2.symm, hother.1⟩

/-- The first of several nodes draws its links, then the others do. -/
theorem drawLinks_cons (nodeCount node : Nat) (rest : List Nat) (links : List Link) (state : σ) :
    drawLinks nodeCount (node :: rest) links state =
      let drawn := Random.shuffle (others nodeCount node) state
      drawLinks nodeCount rest (linkTo links node (drawn.1.take (targetDegree nodeCount))) drawn.2 :=
  rfl

/-- What holds of the links there are, and is kept by one more link between two different nodes,
holds when several nodes have drawn theirs. -/
theorem drawLinks_induction {motive : List Link → Prop} {nodeCount : Nat} {nodes : List Nat}
    {links : List Link} (h : motive links) (hnodes : ∀ node ∈ nodes, node < nodeCount)
    (hinsert : ∀ links a b, a ≠ b → a < nodeCount → b < nodeCount → motive links →
      motive (Ordered.insert (Link.between a b) links)) (state : σ) :
    motive (drawLinks nodeCount nodes links state).1 := by
  induction nodes generalizing links state with
  | nil => exact h
  | cons node rest ih =>
    have hnode := hnodes node List.mem_cons_self
    rw [drawLinks_cons]
    refine ih (linkTo_induction h fun links target hmem => ?_)
      (fun other hmem => hnodes other (List.mem_cons_of_mem node hmem)) _
    obtain ⟨hne, hlt⟩ := (targets_spec hnode state).2.2 target hmem
    exact hinsert links node target hne hnode hlt

/-- Each of the nodes is linked to as many different others as it is to have links. -/
theorem exists_targets_drawLinks {nodeCount : Nat} {nodes : List Nat} {links : List Link} {node : Nat}
    (hnode : node ∈ nodes) (hnodes : ∀ node ∈ nodes, node < nodeCount) (state : σ) :
    ∃ targets : List Nat, targets.Nodup ∧ targets.length = targetDegree nodeCount ∧
      ∀ target ∈ targets,
        Link.between node target ∈ (drawLinks nodeCount nodes links state).1 := by
  induction nodes generalizing links state with
  | nil => cases hnode
  | cons first rest ih =>
    have hrest : ∀ node ∈ rest, node < nodeCount := fun other hmem =>
      hnodes other (List.mem_cons_of_mem first hmem)
    rcases List.mem_cons.mp hnode with rfl | hlater
    · obtain ⟨hnodup, hlength, -⟩ := targets_spec (hnodes node List.mem_cons_self) state
      refine ⟨_, hnodup, hlength, fun target hmem => ?_⟩
      rw [drawLinks_cons]
      exact drawLinks_induction (between_mem_linkTo hmem) hrest
        (fun _ _ _ _ _ _ hkept => Ordered.mem_insert_of_mem hkept) _
    · exact ih hlater hrest _

/-- The links that the nodes of a population draw are links of the population. -/
theorem areLinks_drawLinks (nodeCount : Nat) (state : σ) :
    AreLinks nodeCount (drawLinks nodeCount (List.range nodeCount) [] state).1 :=
  drawLinks_induction ⟨List.Pairwise.nil, fun _ hmem => absurd hmem List.not_mem_nil⟩
    (fun _ hmem => List.mem_range.mp hmem) (fun _ _ _ hne ha hb h => h.insert hne ha hb) state

/-! ## The ties between components -/

/-- Groups without common nodes are tied by links between different nodes. -/
theorem AreLinks.stitch {nodeCount first : Nat} {rest : List Nat} {groups : List (List Nat)}
    {links : List Link} {state : σ} (h : AreLinks nodeCount links)
    (hnodes : ∀ group ∈ (first :: rest) :: groups, ∀ node ∈ group, node < nodeCount)
    (hdisjoint : ((first :: rest) :: groups).Pairwise List.Disjoint) :
    AreLinks nodeCount (stitch first rest groups links state).1 := by
  induction groups generalizing links state with
  | nil => exact h
  | cons group groups ih =>
    have hkept : ((first :: rest) :: groups).Sublist ((first :: rest) :: group :: groups) :=
      (List.sublist_cons_self group groups).cons_cons _
    have hothers : ∀ other ∈ (first :: rest) :: groups, ∀ node ∈ other, node < nodeCount :=
      fun other hmem => hnodes other (hkept.subset hmem)
    cases group with
    | nil => exact ih h hothers (hdisjoint.sublist hkept)
    | cons head tail =>
      have hanchor := mem_pickFrom first rest state
      have hmember := mem_pickFrom head tail (pickFrom first rest state).2
      have hgroup : head :: tail ∈ (first :: rest) :: (head :: tail) :: groups :=
        List.mem_cons_of_mem _ List.mem_cons_self
      rw [stitch_cons]
      refine ih (h.insert (fun heq => ?_) (hnodes _ List.mem_cons_self _ hanchor)
        (hnodes _ hgroup _ hmember)) hothers (hdisjoint.sublist hkept)
      exact (List.pairwise_cons.mp hdisjoint).1 _ List.mem_cons_self hanchor (heq ▸ hmember)

/-- If no link stands between the first group and another one yet, and no two groups have a node in
common, every group is tied by a new link. -/
theorem length_stitch {first : Nat} {rest : List Nat} {groups : List (List Nat)}
    {links : List Link} {state : σ} (hne : ∀ group ∈ groups, group ≠ [])
    (hdisjoint : ((first :: rest) :: groups).Pairwise List.Disjoint)
    (happart : ∀ group ∈ groups, ∀ a ∈ first :: rest, ∀ b ∈ group, Link.between a b ∉ links) :
    (stitch first rest groups links state).1.length = links.length + groups.length := by
  induction groups generalizing links state with
  | nil => rfl
  | cons group groups ih =>
    obtain ⟨head, tail, rfl⟩ :=
      List.exists_cons_of_ne_nil (hne group List.mem_cons_self)
    have hanchor := mem_pickFrom first rest state
    have hmember := mem_pickFrom head tail (pickFrom first rest state).2
    have hkept : ((first :: rest) :: groups).Sublist ((first :: rest) :: (head :: tail) :: groups) :=
      (List.sublist_cons_self _ groups).cons_cons _
    rw [stitch_cons]
    dsimp only
    generalize (pickFrom first rest state).1 = anchor at hanchor ⊢
    generalize pickFrom head tail (pickFrom first rest state).2 = picked at hmember ⊢
    have hnew := happart _ List.mem_cons_self anchor hanchor picked.1 hmember
    have hlonger := (Ordered.perm_insert hnew).length_eq
    have htied : (stitch first rest groups (Ordered.insert (Link.between anchor picked.1) links)
        picked.2).1.length =
          (Ordered.insert (Link.between anchor picked.1) links).length + groups.length := by
      refine ih (fun other hmem => hne other (List.mem_cons_of_mem _ hmem))
        (hdisjoint.sublist hkept) fun other hother a ha b hb hmem => ?_
      rcases Ordered.mem_of_mem_insert hmem with heq | hold
      -- The new link has no end in another group.
      · obtain ⟨hmain, hrest⟩ := List.pairwise_cons.mp hdisjoint
        have hend : b = anchor ∨ b = picked.1 := by
          rw [← Link.hasEnd_between, ← heq, Link.hasEnd_between]
          exact Or.inr rfl
        rcases hend with rfl | rfl
        · exact hmain other (List.mem_cons_of_mem _ hother) hanchor hb
        · exact (List.pairwise_cons.mp hrest).1 other hother hmember hb
      · exact happart other (List.mem_cons_of_mem _ hother) a ha b hb hold
    rw [htied, hlonger, List.length_cons, List.length_cons]
    omega

/-- No link stands between different components. -/
theorem AreComponents.between_notMem {nodeCount : Nat} {links : List Link}
    {groups : List (List Nat)} (h : AreComponents nodeCount links groups) {group other : List Nat}
    (hgroup : group ∈ groups) (hdisjoint : group.Disjoint other) {a b : Nat} (ha : a ∈ group)
    (hb : b ∈ other) : Link.between a b ∉ links := by
  intro hmem
  have hreach := (Joined.of_between_mem hmem).reachable
  exact hdisjoint ((h.reachable group hgroup a ha b).mpr hreach) hb

/-! ## Nothing is asked for that there is not -/

/-- Groups that are not empty can be tied. -/
theorem stitch?_eq_some {first : Nat} {rest : List Nat} {groups : List (List Nat)}
    {links : List Link} {state : σ} (hne : ∀ group ∈ groups, group ≠ []) :
    stitch? (first :: rest) groups links state = some (stitch first rest groups links state) := by
  induction groups generalizing links state with
  | nil => rfl
  | cons group groups ih =>
    obtain ⟨head, tail, rfl⟩ := List.exists_cons_of_ne_nil (hne group List.mem_cons_self)
    exact ih fun other hmem => hne other (List.mem_cons_of_mem _ hmem)

/-- A random topology is found without asking for what there is not: either there is no component,
and nothing to be tied, or the other components are tied to the first one, which is not empty. -/
theorem random_cases (nodeCount : Nat) (state : σ) :
    let drawn := drawLinks nodeCount (List.range nodeCount) [] state
    random? nodeCount state = some (random nodeCount state) ∧
      (components nodeCount drawn.1 = [] ∧ random nodeCount state = drawn ∨
        ∃ first rest groups, components nodeCount drawn.1 = (first :: rest) :: groups ∧
          random nodeCount state = stitch first rest groups drawn.1 drawn.2) := by
  have hwithin := (areLinks_drawLinks nodeCount state).within
  have hcomponents : searched? nodeCount (drawLinks nodeCount (List.range nodeCount) [] state).1 =
      some (components nodeCount (drawLinks nodeCount (List.range nodeCount) [] state).1) :=
    searched?_eq hwithin
  have hne : ∀ group ∈ components nodeCount
      (drawLinks nodeCount (List.range nodeCount) [] state).1, group ≠ [] :=
    fun _ => ne_nil_of_mem_components
  unfold random? random
  generalize drawLinks nodeCount (List.range nodeCount) [] state = drawn at hcomponents hne ⊢
  obtain ⟨links, state⟩ := drawn
  dsimp only at hcomponents hne ⊢
  rw [hcomponents]
  match hgroups : components nodeCount links with
  | [] => exact ⟨rfl, Or.inl ⟨rfl, rfl⟩⟩
  | group :: groups =>
    rw [hgroups] at hne
    obtain ⟨first, rest, rfl⟩ := List.exists_cons_of_ne_nil (hne group List.mem_cons_self)
    refine ⟨?_, Or.inr ⟨first, rest, groups, rfl, rfl⟩⟩
    exact stitch?_eq_some fun other hmem => hne other (List.mem_cons_of_mem _ hmem)

/-! ## Random topologies -/

/-- The links of a random topology keep those that were drawn, and one more for each component of
these but the first. They are links of the population. -/
theorem areLinks_random (nodeCount : Nat) (state : σ) :
    let drawn := (drawLinks nodeCount (List.range nodeCount) [] state).1
    let links := (random nodeCount state).1
    AreLinks nodeCount links ∧ (∀ link ∈ drawn, link ∈ links) ∧
      links.length = drawn.length + ((components nodeCount drawn).length - 1) := by
  intro drawn links
  have hdrawn := areLinks_drawLinks nodeCount state
  have hcomponents := areComponents_components hdrawn.within
  have hdisjoint := disjoint_components nodeCount drawn
  obtain ⟨-, ⟨hnone, hlinks⟩ | ⟨first, rest, groups, hgroups, hlinks⟩⟩ :=
    random_cases nodeCount state
  · have hlinks : links = drawn := congrArg Prod.fst hlinks
    have hnone : components nodeCount drawn = [] := hnone
    rw [hlinks, hnone]
    exact ⟨hdrawn, fun _ hmem => hmem, rfl⟩
  · have hlinks : links = (Topology.stitch first rest groups drawn _).1 := congrArg Prod.fst hlinks
    have hgroups : components nodeCount drawn = (first :: rest) :: groups := hgroups
    have hlt : ∀ group ∈ components nodeCount drawn, ∀ node ∈ group, node < nodeCount :=
      fun group hgroup node hnode => lt_of_mem_components hdrawn.within hgroup hnode
    have hne := hcomponents.ne_nil
    rw [hgroups] at hlt hne hdisjoint hcomponents
    rw [hlinks, hgroups]
    refine ⟨hdrawn.stitch hlt hdisjoint, fun _ => mem_stitch_of_mem, ?_⟩
    refine length_stitch (fun group hmem => hne group (List.mem_cons_of_mem _ hmem)) hdisjoint ?_
    intro group hgroup a ha b hb
    exact hcomponents.between_notMem List.mem_cons_self
      ((List.pairwise_cons.mp hdisjoint).1 group hgroup) ha hb

/-- Every node is the end of as many links of a random topology as it was to draw. -/
theorem targetDegree_le_countP_random (nodeCount : Nat) (state : σ) {node : Nat}
    (h : node < nodeCount) :
    targetDegree nodeCount ≤ (random nodeCount state).1.countP (·.hasEnd node) := by
  have htargets : ∃ targets : List Nat, targets.Nodup ∧
      targets.length = targetDegree nodeCount ∧ ∀ target ∈ targets,
        Link.between node target ∈ (drawLinks nodeCount (List.range nodeCount) [] state).1 :=
    exists_targets_drawLinks (List.mem_range.mpr h) (fun _ hmem => List.mem_range.mp hmem) state
  obtain ⟨targets, hnodup, hlength, hdrawn⟩ := htargets
  obtain ⟨-, hkept, -⟩ := areLinks_random nodeCount state
  rw [← hlength]
  exact length_le_countP_hasEnd hnodup fun target hmem => hkept _ (hdrawn target hmem)

/-- Whatever is drawn, the links of a random topology are found without asking for a node or an item
that there is not. They are different links between different nodes of the population, and every node
has as many of them as it is to have. They are the links that the nodes draw, and for each component
of these but the first a new one. In the end every node can be reached from every other, and there is
one component, or none if there is no node. -/
theorem random_is_connected (nodeCount : Nat) (state : σ) :
    let drawn := (drawLinks nodeCount (List.range nodeCount) [] state).1
    let links := (random nodeCount state).1
    random? nodeCount state = some (random nodeCount state) ∧
      AreLinks nodeCount links ∧
      (∀ node < nodeCount, targetDegree nodeCount ≤ links.countP (·.hasEnd node)) ∧
      AreComponents nodeCount drawn (components nodeCount drawn) ∧
      (∀ link ∈ drawn, link ∈ links) ∧
      links.length = drawn.length + ((components nodeCount drawn).length - 1) ∧
      AreComponents nodeCount links (components nodeCount links) ∧
      (components nodeCount links).length = (if nodeCount = 0 then 0 else 1) ∧
      ∀ a < nodeCount, ∀ b < nodeCount, (graph links).Reachable a b := by
  intro drawn links
  have hdrawn := areComponents_components (areLinks_drawLinks nodeCount state).within
  obtain ⟨hlinks, hkept, hlength⟩ := areLinks_random nodeCount state
  have hcomponents := areComponents_components hlinks.within
  have hreachable : ∀ a < nodeCount, ∀ b < nodeCount, (graph links).Reachable a b :=
    fun a ha b hb => ((joined_random nodeCount state).2 a ha b hb).reachable
  exact ⟨(random_cases nodeCount state).1, hlinks,
    fun node hnode => targetDegree_le_countP_random nodeCount state hnode, hdrawn, hkept, hlength,
    hcomponents, hcomponents.length_eq hreachable, hreachable⟩

end Random

/-! ## Two triangles -/

/-- Words by which six nodes draw the links of two triangles, the first three nodes among themselves
and the last three among themselves. -/
def twoTriangles : Random.Script :=
  ⟨[0xD000000000000000, 0xD000000000000000, 0xD000000000000000, 0,
    0xD000000000000000, 0xD000000000000000, 0xD000000000000000, 0,
    0xD000000000000000, 0xD000000000000000, 0xD000000000000000, 0,
    0, 0x4000000000000000, 0xD000000000000000, 0,
    0, 0x4000000000000000, 0xD000000000000000, 0,
    0, 0x4000000000000000, 0xD000000000000000, 0]⟩

/-- Two triangles are tied by one link between their least nodes, if these are picked. -/
theorem random_is_connected_twoTriangles :
    let drawn := (drawLinks 6 (List.range 6) [] twoTriangles).1
    let links := (random 6 twoTriangles).1
    (drawn = [⟨0, 1⟩, ⟨0, 2⟩, ⟨1, 2⟩, ⟨3, 4⟩, ⟨3, 5⟩, ⟨4, 5⟩] ∧
      components 6 drawn = [[0, 1, 2], [3, 4, 5]] ∧
      links = [⟨0, 1⟩, ⟨0, 2⟩, ⟨0, 3⟩, ⟨1, 2⟩, ⟨3, 4⟩, ⟨3, 5⟩, ⟨4, 5⟩]) ∧
    5 < 6 ∧ targetDegree 6 = 2 ∧ targetDegree 6 ≤ links.countP (·.hasEnd 5) ∧
      (⟨4, 5⟩ : Link) ∈ drawn ∧ (⟨4, 5⟩ : Link) ∈ links ∧
      links.length = drawn.length + ((components 6 drawn).length - 1) ∧
      (components 6 links).length = 1 ∧ (graph links).Reachable 1 5 := by
  intro drawn links
  obtain ⟨-, -, hdegree, -, hkept, hlength, -, hone, hreachable⟩ :=
    random_is_connected 6 twoTriangles
  have hdrawn : drawn = [⟨0, 1⟩, ⟨0, 2⟩, ⟨1, 2⟩, ⟨3, 4⟩, ⟨3, 5⟩, ⟨4, 5⟩] := by decide +kernel
  have hmem : (⟨4, 5⟩ : Link) ∈ drawn := by
    rw [hdrawn]
    decide
  refine ⟨⟨hdrawn, by decide +kernel, by decide +kernel⟩, by decide, by decide, ?_, hmem, ?_, hlength,
    hone, ?_⟩
  · exact hdegree 5 (by decide)
  · exact hkept _ hmem
  · exact hreachable 1 (by decide) 5 (by decide)

end Topology

end Epidemic
