import Epidemic.Proofs.Topology.Random
import Mathlib.Combinatorics.SimpleGraph.Connectivity.Connected
import Mathlib.Data.List.Nodup

/-!
# The components are those of the graph

Links make a graph, in which nodes can be reached from each other exactly if they are joined. A link
that was followed has one label at both ends, and keeps it when others are followed. So in the end
nodes have one label exactly if they are joined, and the components as they are computed are the
components of the graph.
-/

namespace Epidemic.Topology

/-- The graph of some links. -/
def graph (links : List Link) : SimpleGraph Nat := SimpleGraph.fromRel fun a b => ⟨a, b⟩ ∈ links

/-- Nodes that are joined by links can be reached from each other. -/
theorem Joined.reachable {links : List Link} {a b : Nat} (h : Joined links a b) :
    (graph links).Reachable a b := by
  refine (h (fun node => (graph links).Reachable a node) fun link hlink => ?_).mp (.refl a)
  by_cases hends : link.low = link.high
  · rw [hends]
  · have hadj : (graph links).Adj link.low link.high :=
      (SimpleGraph.fromRel_adj _ _ _).mpr ⟨hends, Or.inl hlink⟩
    exact ⟨fun hlow => hlow.trans hadj.reachable, fun hhigh => hhigh.trans hadj.symm.reachable⟩

/-- Nodes are joined exactly if they can be reached from each other. -/
theorem joined_iff_reachable {links : List Link} {a b : Nat} :
    Joined links a b ↔ (graph links).Reachable a b := by
  refine ⟨Joined.reachable, fun hreach => ?_⟩
  obtain ⟨walk⟩ := hreach
  induction walk with
  | nil => exact Joined.refl links _
  | cons hadj _ ih =>
    rw [graph, SimpleGraph.fromRel_adj] at hadj
    obtain ⟨-, hforth | hback⟩ := hadj
    · exact (Joined.of_mem hforth).trans ih
    · exact (Joined.of_mem hback).symm.trans ih

/-! ## One label for all that is joined -/

/-- Nodes with one label keep it in common, whatever link is followed. -/
theorem getElem?_follow_congr {labels : List Nat} {a b : Nat} (link : Link)
    (h : labels[a]? = labels[b]?) : (follow labels link)[a]? = (follow labels link)[b]? := by
  rw [follow, List.getElem?_map, List.getElem?_map, h]

/-- When a link has been followed, both its ends have one label. -/
theorem getElem?_follow_ends {labels : List Nat} {link : Link} (hlow : link.low < labels.length)
    (hhigh : link.high < labels.length) :
    (follow labels link)[link.low]? = (follow labels link)[link.high]? := by
  have hlow := getElem?_eq_some_getD labels hlow
  have hhigh := getElem?_eq_some_getD labels hhigh
  rw [follow, List.getElem?_map, List.getElem?_map, hlow, hhigh, Option.map_some, Option.map_some]
  generalize labels.getD link.low link.low = a
  generalize labels.getD link.high link.high = b
  congr 1
  split <;> split <;> omega

/-- Nodes with one label have one label after any links were followed. -/
theorem getElem?_foldl_follow_congr {labels : List Nat} {a b : Nat} (links : List Link)
    (h : labels[a]? = labels[b]?) :
    (links.foldl follow labels)[a]? = (links.foldl follow labels)[b]? := by
  induction links generalizing labels with
  | nil => exact h
  | cons link rest ih => exact ih (getElem?_follow_congr link h)

/-- Following a link keeps the number of labels. -/
theorem length_follow (labels : List Nat) (link : Link) :
    (follow labels link).length = labels.length := List.length_map _

/-- When several links have been followed, each of them has one label at both ends. -/
theorem getElem?_foldl_follow_ends {links : List Link} {labels : List Nat}
    (h : Within labels.length links) {link : Link} (hlink : link ∈ links) :
    (links.foldl follow labels)[link.low]? = (links.foldl follow labels)[link.high]? := by
  induction links generalizing labels with
  | nil => cases hlink
  | cons first rest ih =>
    rcases List.mem_cons.mp hlink with rfl | hrest
    · obtain ⟨hlow, hhigh⟩ := h link List.mem_cons_self
      exact getElem?_foldl_follow_congr rest (getElem?_follow_ends hlow hhigh)
    · refine ih (fun other hmem => ?_) hrest
      rw [length_follow]
      exact h other (List.mem_cons_of_mem first hmem)

/-- Nodes that are joined have one label in the end. -/
theorem Joined.getElem?_labels {nodeCount : Nat} {links : List Link} {a b : Nat}
    (h : Joined links a b) (hlinks : Within nodeCount links) :
    (labels nodeCount links)[a]? = (labels nodeCount links)[b]? := by
  refine ((h fun node => (labels nodeCount links)[a]? = (labels nodeCount links)[node]?)
    fun link hlink => ?_).mp rfl
  have hends : (labels nodeCount links)[link.low]? = (labels nodeCount links)[link.high]? := by
    refine getElem?_foldl_follow_ends (fun other hmem => ?_) hlink
    rw [List.length_range]
    exact hlinks other hmem
  dsimp only
  rw [hends]

/-! ## The components -/

/-- What it is for groups of nodes to be the components of the graph of some links. -/
structure AreComponents (nodeCount : Nat) (links : List Link) (groups : List (List Nat)) : Prop where
  /-- No group is empty. -/
  ne_nil : ∀ group ∈ groups, group ≠ []
  /-- Every node of the population is in one group, and once. -/
  perm : groups.flatten.Perm (List.range nodeCount)
  /-- With a node, its group has the nodes that can be reached from it, and no other. -/
  reachable : ∀ group ∈ groups, ∀ a ∈ group, ∀ b, b ∈ group ↔ (graph links).Reachable a b

/-- The places of any of the labels are listed in ascending order. -/
theorem ascending_places (labels : List Nat) (counts : Nat × Nat → Bool) :
    ((labels.zipIdx.filter counts).map (·.2)).Pairwise (· < ·) := by
  have hsublist : ((labels.zipIdx.filter counts).map (·.2)).Sublist
      (labels.zipIdx.map Prod.snd) := List.filter_sublist.map _
  rw [List.zipIdx_map_snd] at hsublist
  exact (List.pairwise_lt_range' _ Nat.one_pos).sublist hsublist

/-- The places of any of the labels are listed once each. -/
theorem nodup_places (labels : List Nat) (counts : Nat × Nat → Bool) :
    ((labels.zipIdx.filter counts).map (·.2)).Nodup :=
  (ascending_places labels counts).imp Nat.ne_of_lt

/-- No two components have a node in common. -/
theorem disjoint_components (nodeCount : Nat) (links : List Link) :
    (components nodeCount links).Pairwise List.Disjoint := by
  refine List.pairwise_map.mpr ((nodup_places _ _).imp fun hne => ?_)
  intro node hnode hother
  have hsame := (mem_nodesLabelled.mp hnode).symm.trans (mem_nodesLabelled.mp hother)
  exact hne (Option.some.inj hsame)

/-- The components of some links, as they are computed, are those of the graph of the links. -/
theorem areComponents_components {nodeCount : Nat} {links : List Link}
    (hlinks : Within nodeCount links) :
    AreComponents nodeCount links (components nodeCount links) where
  ne_nil _ hgroup := ne_nil_of_mem_components hgroup
  perm := by
    have hnodup : (components nodeCount links).flatten.Nodup := by
      refine List.nodup_flatten.mpr ⟨fun group hgroup => ?_, disjoint_components nodeCount links⟩
      obtain ⟨root, -, rfl⟩ := mem_components.mp hgroup
      exact nodup_places _ _
    refine (List.perm_ext_iff_of_nodup hnodup List.nodup_range).mpr fun node => ?_
    rw [List.mem_flatten, List.mem_range]
    constructor
    · rintro ⟨group, hgroup, hnode⟩
      exact lt_of_mem_components hlinks hgroup hnode
    · exact fun hlt => exists_mem_components hlinks hlt
  reachable group hgroup a ha b := by
    rw [← joined_iff_reachable]
    refine ⟨joined_of_mem_components hlinks hgroup ha, fun hjoined => ?_⟩
    obtain ⟨root, -, rfl⟩ := mem_components.mp hgroup
    rw [mem_nodesLabelled] at ha ⊢
    rw [← hjoined.getElem?_labels hlinks, ha]

/-- If all nodes can be reached from each other, there is one component; without any node there is
none. -/
theorem AreComponents.length_eq {nodeCount : Nat} {links : List Link} {groups : List (List Nat)}
    (h : AreComponents nodeCount links groups)
    (hreachable : ∀ a < nodeCount, ∀ b < nodeCount, (graph links).Reachable a b) :
    groups.length = if nodeCount = 0 then 0 else 1 := by
  have hlt : ∀ group ∈ groups, ∀ node ∈ group, node < nodeCount := by
    intro group hgroup node hnode
    rw [← List.mem_range, ← h.perm.mem_iff]
    exact List.mem_flatten_of_mem hgroup hnode
  have hall : ∀ group ∈ groups, ∀ a ∈ group, ∀ other ∈ groups, ∀ b ∈ other, b ∈ group :=
    fun group hgroup a ha other hother b hb => (h.reachable group hgroup a ha b).mpr
      (hreachable a (hlt group hgroup a ha) b (hlt other hother b hb))
  have hdisjoint := (List.nodup_flatten.mp (h.perm.nodup_iff.mpr List.nodup_range)).2
  have hcount := h.perm.length_eq
  rw [List.length_range] at hcount
  have hnonempty := h.ne_nil
  match groups, hnonempty, hall, hdisjoint, hcount with
  | [], _, _, _, hcount => exact (if_pos hcount.symm).symm
  | [group], hnonempty, _, _, hcount =>
    have hpositive := List.length_pos_of_ne_nil (hnonempty group List.mem_cons_self)
    rw [List.flatten_singleton] at hcount
    exact (if_neg (by omega)).symm
  | group :: other :: rest, hnonempty, hall, hdisjoint, _ =>
    have hother : other ∈ group :: other :: rest := List.mem_cons_of_mem _ List.mem_cons_self
    obtain ⟨a, ha⟩ := List.exists_mem_of_ne_nil group (hnonempty group List.mem_cons_self)
    obtain ⟨b, hb⟩ := List.exists_mem_of_ne_nil other (hnonempty other hother)
    have hshared := hall group List.mem_cons_self a ha other hother b hb
    exact absurd hb ((List.pairwise_cons.mp hdisjoint).1 other List.mem_cons_self hshared)

end Epidemic.Topology
