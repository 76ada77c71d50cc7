import Epidemic.Topology.Components

/-!
# What labels say about nodes

Two nodes are joined by some links if no set of nodes that respects the links tells them apart. In
the end every node is joined with the node that it carries as its label, and this one carries itself
as its label. So each component consists of nodes that are joined, and every node is in one of them.
-/

namespace Epidemic.Topology

/-- Whether a set of nodes holds for every link either both ends or neither. -/
def Respects (holds : Nat → Prop) (links : List Link) : Prop :=
  ∀ link ∈ links, (holds link.low ↔ holds link.high)

/-- Whether two nodes are in the same sets, of all sets that respect the links. -/
def Joined (links : List Link) (a b : Nat) : Prop :=
  ∀ holds : Nat → Prop, Respects holds links → (holds a ↔ holds b)

namespace Joined

variable {links : List Link} {a b c : Nat}

/-- Every node is joined with itself. -/
theorem refl (links : List Link) (a : Nat) : Joined links a a := fun _ _ => Iff.rfl

/-- It does not matter which of two nodes comes first. -/
theorem symm (h : Joined links a b) : Joined links b a :=
  fun holds hlinks => (h holds hlinks).symm

/-- Nodes that are joined with the same node are joined. -/
theorem trans (h : Joined links a b) (h' : Joined links b c) : Joined links a c :=
  fun holds hlinks => (h holds hlinks).trans (h' holds hlinks)

/-- More links join no fewer nodes. -/
theorem mono {more : List Link} (hmore : ∀ link ∈ links, link ∈ more) (h : Joined links a b) :
    Joined more a b :=
  fun holds hlinks => h holds fun link hmem => hlinks link (hmore link hmem)

/-- The ends of a link are joined. -/
theorem of_mem {link : Link} (h : link ∈ links) : Joined links link.low link.high :=
  fun _ hlinks => hlinks link h

end Joined

/-- What is known of labels that come from following some of the links. -/
structure Labelled (nodeCount : Nat) (links : List Link) (labels : List Nat) : Prop where
  /-- Every node has a label. -/
  length : labels.length = nodeCount
  /-- Every label is a node that carries itself as its label. -/
  root : ∀ label ∈ labels, labels[label]? = some label
  /-- A node is joined with its label. -/
  joined : ∀ node label, labels[node]? = some label → Joined links node label

/-- At first every node is labelled with itself. -/
theorem labelled_range (nodeCount : Nat) (links : List Link) :
    Labelled nodeCount links (List.range nodeCount) where
  length := List.length_range
  root label h := List.getElem?_range (List.mem_range.mp h)
  joined node label h := by
    obtain ⟨hlt, hget⟩ := List.getElem?_eq_some_iff.mp h
    rw [List.getElem_range] at hget
    rw [hget]
    exact Joined.refl links label

/-- The label of a node that has one. -/
theorem getElem?_eq_some_getD (labels : List Nat) {node : Nat} (h : node < labels.length) :
    labels[node]? = some (labels.getD node node) := by
  rw [List.getD_eq_getElem?_getD, List.getElem?_eq_getElem h, Option.getD_some]

/-- Following a link keeps what is known. -/
theorem Labelled.follow {nodeCount : Nat} {links : List Link} {labels : List Nat} {link : Link}
    (h : Labelled nodeCount links labels) (hlink : link ∈ links) (hlow : link.low < nodeCount)
    (hhigh : link.high < nodeCount) : Labelled nodeCount links (follow labels link) := by
  have hlow := getElem?_eq_some_getD labels (h.length.symm ▸ hlow)
  have hhigh := getElem?_eq_some_getD labels (h.length.symm ▸ hhigh)
  have hends : Joined links (labels.getD link.low link.low) (labels.getD link.high link.high) :=
    ((h.joined _ _ hlow).symm.trans (Joined.of_mem hlink)).trans (h.joined _ _ hhigh)
  have hfollow : Topology.follow labels link = labels.map fun label =>
      if label = max (labels.getD link.low link.low) (labels.getD link.high link.high) then
        min (labels.getD link.low link.low) (labels.getD link.high link.high)
      else label := rfl
  generalize labels.getD link.low link.low = a at hlow hends hfollow
  generalize labels.getD link.high link.high = b at hhigh hends hfollow
  have hroot : labels[min a b]? = some (min a b) := by
    rcases Nat.le_total a b with hle | hle
    · rw [Nat.min_eq_left hle]
      exact h.root a (List.mem_of_getElem? hlow)
    · rw [Nat.min_eq_right hle]
      exact h.root b (List.mem_of_getElem? hhigh)
  have hjoined : Joined links (max a b) (min a b) := by
    rcases Nat.le_total a b with hle | hle
    · rw [Nat.max_eq_right hle, Nat.min_eq_left hle]
      exact hends.symm
    · rw [Nat.max_eq_left hle, Nat.min_eq_right hle]
      exact hends
  rw [hfollow]
  refine ⟨by rw [List.length_map, h.length], fun label hmem => ?_, fun node label hlabel => ?_⟩
  · obtain ⟨old, hold, rfl⟩ := List.mem_map.mp hmem
    split
    · rw [List.getElem?_map, hroot]
      simp only [Option.map_some, Option.some.injEq]
      split <;> rfl
    · rename_i hne
      rw [List.getElem?_map, h.root old hold, Option.map_some, if_neg hne]
  · rw [List.getElem?_map, Option.map_eq_some_iff] at hlabel
    obtain ⟨old, hold, heq⟩ := hlabel
    have hold := h.joined node old hold
    split at heq
    · rename_i hmax
      rw [hmax] at hold
      rw [← heq]
      exact hold.trans hjoined
    · rw [← heq]
      exact hold

/-- Following several links, all of them between existing nodes, keeps what is known. -/
theorem Labelled.foldl {nodeCount : Nat} {links : List Link} {labels : List Nat}
    {followed : List Link} (h : Labelled nodeCount links labels)
    (hlinks : ∀ link ∈ followed, link ∈ links ∧ link.low < nodeCount ∧ link.high < nodeCount) :
    Labelled nodeCount links (followed.foldl Topology.follow labels) := by
  induction followed generalizing labels with
  | nil => exact h
  | cons link rest ih =>
    obtain ⟨hmem, hlow, hhigh⟩ := hlinks link List.mem_cons_self
    exact ih (h.follow hmem hlow hhigh) fun other hother =>
      hlinks other (List.mem_cons_of_mem link hother)

/-- What is known when all links have been followed. -/
theorem labelled_labels {nodeCount : Nat} {links : List Link}
    (hlinks : ∀ link ∈ links, link.low < nodeCount ∧ link.high < nodeCount) :
    Labelled nodeCount links (labels nodeCount links) :=
  (labelled_range nodeCount links).foldl fun link hmem => ⟨hmem, hlinks link hmem⟩

/-- The nodes with a label. -/
theorem mem_nodesLabelled {labels : List Nat} {label node : Nat} :
    node ∈ nodesLabelled labels label ↔ labels[node]? = some label := by
  rw [nodesLabelled, List.mem_map]
  constructor
  · rintro ⟨⟨other, index⟩, hmem, rfl⟩
    rw [List.mem_filter, List.mem_zipIdx_iff_getElem?] at hmem
    rw [hmem.1, of_decide_eq_true hmem.2]
  · intro h
    refine ⟨(label, node), List.mem_filter.mpr ⟨?_, decide_eq_true rfl⟩, rfl⟩
    exact List.mem_zipIdx_iff_getElem?.mpr h

/-- The components are the lists of nodes with one label, for each label. -/
theorem mem_components {nodeCount : Nat} {links : List Link} {group : List Nat} :
    group ∈ components nodeCount links ↔
      ∃ root, (labels nodeCount links)[root]? = some root ∧
        group = nodesLabelled (labels nodeCount links) root := by
  simp only [components, List.mem_map, List.mem_filter, List.mem_zipIdx_iff_getElem?,
    decide_eq_true_eq]
  constructor
  · rintro ⟨root, ⟨entry, ⟨hlabel, heq⟩, rfl⟩, rfl⟩
    rw [heq] at hlabel
    exact ⟨entry.2, hlabel, rfl⟩
  · rintro ⟨root, hroot, rfl⟩
    exact ⟨root, ⟨(root, root), ⟨hroot, rfl⟩, rfl⟩, rfl⟩

section Components

variable {nodeCount : Nat} {links : List Link} {group : List Nat}
  (hlinks : ∀ link ∈ links, link.low < nodeCount ∧ link.high < nodeCount)

include hlinks

/-- Components consist of existing nodes. -/
theorem lt_of_mem_components (hgroup : group ∈ components nodeCount links) {node : Nat}
    (hnode : node ∈ group) : node < nodeCount := by
  obtain ⟨root, -, rfl⟩ := mem_components.mp hgroup
  obtain ⟨hlt, -⟩ := List.getElem?_eq_some_iff.mp (mem_nodesLabelled.mp hnode)
  rwa [(labelled_labels hlinks).length] at hlt

/-- The nodes of one component are joined. -/
theorem joined_of_mem_components (hgroup : group ∈ components nodeCount links) {a b : Nat}
    (ha : a ∈ group) (hb : b ∈ group) : Joined links a b := by
  obtain ⟨root, -, rfl⟩ := mem_components.mp hgroup
  have hlabelled := labelled_labels hlinks
  exact (hlabelled.joined a root (mem_nodesLabelled.mp ha)).trans
    (hlabelled.joined b root (mem_nodesLabelled.mp hb)).symm

/-- Every node is in a component. -/
theorem exists_mem_components {node : Nat} (h : node < nodeCount) :
    ∃ group ∈ components nodeCount links, node ∈ group := by
  have hlabelled := labelled_labels hlinks
  have hlabel := getElem?_eq_some_getD (labels nodeCount links) (hlabelled.length.symm ▸ h)
  refine ⟨_, mem_components.mpr ⟨_, ?_, rfl⟩, mem_nodesLabelled.mpr hlabel⟩
  exact hlabelled.root _ (List.mem_of_getElem? hlabel)

omit hlinks in
/-- No component is empty. -/
theorem ne_nil_of_mem_components (hgroup : group ∈ components nodeCount links) : group ≠ [] := by
  obtain ⟨root, hroot, rfl⟩ := mem_components.mp hgroup
  exact List.ne_nil_of_mem (mem_nodesLabelled.mpr hroot)

end Components

end Epidemic.Topology
