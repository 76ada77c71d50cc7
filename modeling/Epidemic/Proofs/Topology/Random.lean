import Epidemic.Proofs.Ordered
import Epidemic.Proofs.Topology.Components
import Epidemic.Topology.Random

/-!
# Random topologies are connected

Whatever is drawn, the links of a random topology stand between existing nodes and join all of
them: each component of the links that the nodes draw is joined in itself, and the last step ties it
to the first one.
-/

namespace Epidemic

/-- Links are comparable. -/
instance : Std.Trichotomous (fun (a b : Link) => a < b) where
  trichotomous a b hlt hgt := by
    obtain ⟨low, high⟩ := a
    obtain ⟨low', high'⟩ := b
    have hlt : ¬(low < low' ∨ low = low' ∧ high < high') := hlt
    have hgt : ¬(low' < low ∨ low' = low ∧ high' < high) := hgt
    have hlow : low = low' := by omega
    have hhigh : high = high' := by omega
    rw [hlow, hhigh]

/-- The ends of the link between two nodes are these, in one order or the other. -/
theorem Link.between_eq (a b : Nat) :
    (between a b).low = a ∧ (between a b).high = b ∨
      (between a b).low = b ∧ (between a b).high = a := by
  unfold between
  split
  · exact Or.inl ⟨rfl, rfl⟩
  · exact Or.inr ⟨rfl, rfl⟩

namespace Topology

/-- Whether all links stand between nodes of a population. -/
def Within (nodeCount : Nat) (links : List Link) : Prop :=
  ∀ link ∈ links, link.low < nodeCount ∧ link.high < nodeCount

/-- The link between two nodes joins them. -/
theorem Joined.of_between_mem {links : List Link} {a b : Nat} (h : Link.between a b ∈ links) :
    Joined links a b := by
  have hends := Joined.of_mem h
  rcases Link.between_eq a b with ⟨hlow, hhigh⟩ | ⟨hlow, hhigh⟩
  · rw [hlow, hhigh] at hends
    exact hends
  · rw [hlow, hhigh] at hends
    exact hends.symm

/-- One more link between two nodes of the population. -/
theorem Within.insert {nodeCount : Nat} {links : List Link} (h : Within nodeCount links) {a b : Nat}
    (ha : a < nodeCount) (hb : b < nodeCount) :
    Within nodeCount (Ordered.insert (Link.between a b) links) := by
  intro link hmem
  rcases Ordered.mem_of_mem_insert hmem with rfl | hold
  · rcases Link.between_eq a b with ⟨hlow, hhigh⟩ | ⟨hlow, hhigh⟩
    · rw [hlow, hhigh]
      exact ⟨ha, hb⟩
    · rw [hlow, hhigh]
      exact ⟨hb, ha⟩
  · exact h link hold

/-- Links from one node to several others, all of them of the population. -/
theorem Within.linkTo {nodeCount : Nat} {links : List Link} (h : Within nodeCount links)
    {node : Nat} (hnode : node < nodeCount) {targets : List Nat}
    (htargets : ∀ target ∈ targets, target < nodeCount) :
    Within nodeCount (linkTo links node targets) := by
  induction targets generalizing links with
  | nil => exact h
  | cons target rest ih =>
    exact ih (h.insert hnode (htargets target List.mem_cons_self)) fun other hmem =>
      htargets other (List.mem_cons_of_mem target hmem)

section Random

variable {σ : Type} [Random.Chooser σ]

/-- The links that nodes of the population draw. -/
theorem Within.drawLinks {nodeCount : Nat} {nodes : List Nat} {links : List Link}
    (h : Within nodeCount links) (hnodes : ∀ node ∈ nodes, node < nodeCount) (state : σ) :
    Within nodeCount (drawLinks nodeCount nodes links state).1 := by
  induction nodes generalizing links state with
  | nil => exact h
  | cons node rest ih =>
    have htargets : ∀ target ∈ (Random.shuffle (others nodeCount node) state).1.take
        (targetDegree nodeCount), target < nodeCount := by
      intro target htarget
      have hmem := List.mem_of_mem_take htarget
      rw [(Random.perm_shuffle _ _).mem_iff, others, List.mem_filter, List.mem_range] at hmem
      exact hmem.1
    exact ih (h.linkTo (hnodes node List.mem_cons_self) htargets)
      (fun other hmem => hnodes other (List.mem_cons_of_mem node hmem)) _

/-- What is picked from a list is one of its items. -/
theorem mem_pickFrom {α : Type} (first : α) (rest : List α) (state : σ) :
    (pickFrom first rest state).1 ∈ first :: rest :=
  List.getElem_mem _

/-- The first of several groups is tied by one more link. -/
theorem stitch_cons (first : Nat) (rest : List Nat) (head : Nat) (tail : List Nat)
    (groups : List (List Nat)) (links : List Link) (state : σ) :
    stitch first rest ((head :: tail) :: groups) links state =
      let anchor := pickFrom first rest state
      let member := pickFrom head tail anchor.2
      stitch first rest groups (Ordered.insert (Link.between anchor.1 member.1) links) member.2 :=
  rfl

/-- Tying groups to another one keeps the links there are. -/
theorem mem_stitch_of_mem {first : Nat} {rest : List Nat} {groups : List (List Nat)}
    {links : List Link} {state : σ} {link : Link} (h : link ∈ links) :
    link ∈ (stitch first rest groups links state).1 := by
  induction groups generalizing links state with
  | nil => exact h
  | cons group groups ih =>
    cases group with
    | nil => exact ih h
    | cons head tail => exact ih (Ordered.mem_insert_of_mem h)

/-- Each group is tied by a link between one of its nodes and one of the other group. -/
theorem exists_between_mem_stitch {first : Nat} {rest : List Nat} {groups : List (List Nat)}
    {links : List Link} {state : σ} {group : List Nat} (hgroup : group ∈ groups)
    (hne : group ≠ []) :
    ∃ anchor ∈ first :: rest, ∃ member ∈ group,
      Link.between anchor member ∈ (stitch first rest groups links state).1 := by
  induction groups generalizing links state with
  | nil => cases hgroup
  | cons other groups ih =>
    rcases List.mem_cons.mp hgroup with rfl | hmem
    · cases group with
      | nil => exact absurd rfl hne
      | cons head tail =>
        refine ⟨_, mem_pickFrom first rest state, _,
          mem_pickFrom head tail (pickFrom first rest state).2, ?_⟩
        rw [stitch_cons]
        exact mem_stitch_of_mem (Ordered.mem_insert_self _ links)
    · cases other with
      | nil => exact ih hmem
      | cons head tail => exact ih hmem

/-- If the groups are of the population, so are the links by which they are tied. -/
theorem Within.stitch {nodeCount first : Nat} {rest : List Nat} {groups : List (List Nat)}
    {links : List Link} {state : σ} (h : Within nodeCount links)
    (hfirst : ∀ node ∈ first :: rest, node < nodeCount)
    (hgroups : ∀ group ∈ groups, ∀ node ∈ group, node < nodeCount) :
    Within nodeCount (stitch first rest groups links state).1 := by
  induction groups generalizing links state with
  | nil => exact h
  | cons group groups ih =>
    have hothers := fun other hmem => hgroups other (List.mem_cons_of_mem group hmem)
    cases group with
    | nil => exact ih h hothers
    | cons head tail =>
      refine ih (h.insert (hfirst _ (mem_pickFrom first rest state)) ?_) hothers
      exact hgroups _ List.mem_cons_self _ (mem_pickFrom head tail _)

/-- If all groups are joined in themselves, all their nodes are joined when the groups are tied. -/
theorem joined_stitch {first : Nat} {rest : List Nat} {groups : List (List Nat)} {links : List Link}
    {state : σ}
    (hjoined : ∀ group ∈ (first :: rest) :: groups, ∀ a ∈ group, ∀ b ∈ group, Joined links a b)
    {group : List Nat} (hgroup : group ∈ (first :: rest) :: groups) {node : Nat}
    (hnode : node ∈ group) : Joined (stitch first rest groups links state).1 first node := by
  have hmono {a b : Nat} (h : Joined links a b) :
      Joined (stitch first rest groups links state).1 a b := h.mono fun _ => mem_stitch_of_mem
  rcases List.mem_cons.mp hgroup with rfl | hother
  · exact hmono (hjoined _ hgroup first List.mem_cons_self node hnode)
  · have htied : ∃ anchor ∈ first :: rest, ∃ member ∈ group,
        Link.between anchor member ∈ (stitch first rest groups links state).1 :=
      exists_between_mem_stitch hother (List.ne_nil_of_mem hnode)
    obtain ⟨anchor, hanchor, member, hmember, htie⟩ := htied
    have hstart : Joined links first anchor :=
      hjoined _ List.mem_cons_self first List.mem_cons_self anchor hanchor
    have hend : Joined links member node := hjoined group hgroup member hmember node hnode
    exact ((hmono hstart).trans (Joined.of_between_mem htie)).trans (hmono hend)

/-- The links of a random topology stand between nodes of the population, and join all of them. -/
theorem joined_random (nodeCount : Nat) (state : σ) :
    Within nodeCount (random nodeCount state).1 ∧
      ∀ a < nodeCount, ∀ b < nodeCount, Joined (random nodeCount state).1 a b := by
  have hdrawn : Within nodeCount (drawLinks nodeCount (List.range nodeCount) [] state).1 :=
    Within.drawLinks (fun _ hmem => absurd hmem List.not_mem_nil)
      (fun _ hmem => List.mem_range.mp hmem) state
  unfold random
  generalize drawLinks nodeCount (List.range nodeCount) [] state = drawn at hdrawn
  obtain ⟨links, state⟩ := drawn
  have hdrawn : Within nodeCount links := hdrawn
  dsimp only
  split
  · rename_i first rest groups hcomponents
    have hlt : ∀ group ∈ (first :: rest) :: groups, ∀ node ∈ group, node < nodeCount := by
      rw [← hcomponents]
      exact fun group hgroup node hnode => lt_of_mem_components hdrawn hgroup hnode
    have hjoined : ∀ group ∈ (first :: rest) :: groups, ∀ a ∈ group, ∀ b ∈ group,
        Joined links a b := by
      rw [← hcomponents]
      exact fun group hgroup a ha b hb => joined_of_mem_components hdrawn hgroup ha hb
    have hall {node : Nat} (h : node < nodeCount) :
        Joined (stitch first rest groups links state).1 first node := by
      obtain ⟨group, hgroup, hnode⟩ := exists_mem_components hdrawn h
      rw [hcomponents] at hgroup
      exact joined_stitch hjoined hgroup hnode
    refine ⟨hdrawn.stitch (hlt _ List.mem_cons_self) fun group hmem => ?_, fun a ha b hb => ?_⟩
    · exact hlt group (List.mem_cons_of_mem _ hmem)
    · exact (hall ha).symm.trans (hall hb)
  · rename_i hnone
    refine ⟨hdrawn, fun a ha => ?_⟩
    -- A component there is, and it is not empty.
    obtain ⟨group, hgroup, -⟩ := exists_mem_components hdrawn ha
    obtain ⟨first, groups, hcons⟩ := List.exists_cons_of_ne_nil (List.ne_nil_of_mem hgroup)
    have hfirst : first ≠ [] :=
      ne_nil_of_mem_components (hcons ▸ List.mem_cons_self : first ∈ components nodeCount links)
    obtain ⟨head, tail, rfl⟩ := List.exists_cons_of_ne_nil hfirst
    exact absurd hcons (hnone head tail groups)

end Random

end Topology

end Epidemic
