import Epidemic.Proofs.Topology.Graph
import Mathlib.Data.List.Sort

/-!
# Components are found by searching

The search for components asks for no node that there is not. The nodes that are visited from a first
one, and those that are still to be visited, are joined with it, each of them is listed once, and their
marks say so; when none is left to be visited, the group is complete. So the search finds the components
as they are found by labels.
-/

namespace Epidemic.Topology

/-! ## The neighbours -/

/-- Whether two nodes are the ends of one of the links. -/
def Adjacent (links : List Link) (a b : Nat) : Prop :=
  ∃ link ∈ links, link.low = a ∧ link.high = b ∨ link.high = a ∧ link.low = b

/-- The ends of a link are joined. -/
theorem Adjacent.joined {links : List Link} {a b : Nat} (h : Adjacent links a b) :
    Joined links a b := by
  obtain ⟨link, hmem, ⟨rfl, rfl⟩ | ⟨rfl, rfl⟩⟩ := h
  · exact Joined.of_mem hmem
  · exact (Joined.of_mem hmem).symm

/-- Whether the rows have the neighbours of every node. -/
structure ListsNeighbours (nodeCount : Nat) (links : List Link) (rows : List (List Nat)) :
    Prop where
  /-- Every node has a row. -/
  length : rows.length = nodeCount
  /-- In the row of a node there are its neighbours. -/
  mem : ∀ node row, rows[node]? = some row → ∀ other, other ∈ row ↔ Adjacent links node other

/-- A neighbour can be noted for every node that there is. -/
theorem note?_spec {rows : List (List Nat)} {node : Nat} (h : node < rows.length)
    (neighbour : Nat) :
    ∃ after, note? rows node neighbour = some after ∧ after.length = rows.length ∧
      ∀ a row, after[a]? = some row → ∃ before, rows[a]? = some before ∧
        ∀ b, b ∈ row ↔ b ∈ before ∨ node = a ∧ neighbour = b := by
  have hrow := List.getElem?_eq_getElem h
  refine ⟨rows.set node (rows[node] ++ [neighbour]), ?_, List.length_set, fun a row hat => ?_⟩
  · rw [note?, hrow, Option.map_some]
  · rw [List.getElem?_set] at hat
    split at hat
    · rename_i heq
      subst heq
      obtain rfl := Option.some.inj hat
      refine ⟨rows[node], hrow, fun b => ?_⟩
      rw [List.mem_append, List.mem_singleton]
      simp [eq_comm]
    · rename_i hne
      exact ⟨row, hat, fun b => by simp [hne]⟩

/-- One link more can be noted. -/
theorem ListsNeighbours.noteLink? {nodeCount : Nat} {links : List Link} {rows : List (List Nat)}
    (h : ListsNeighbours nodeCount links rows) {link : Link} (hlow : link.low < nodeCount)
    (hhigh : link.high < nodeCount) :
    ∃ after, Topology.noteLink? rows link = some after ∧
      ListsNeighbours nodeCount (links ++ [link]) after := by
  have hlength := h.length
  obtain ⟨middle, hfirst, hmiddle, hlows⟩ := note?_spec (hlength.symm ▸ hlow) link.high
  obtain ⟨after, hsecond, hafter, hhighs⟩ :=
    note?_spec (hmiddle.trans hlength ▸ hhigh : link.high < middle.length) link.low
  refine ⟨after, ?_, by omega, fun node row hat other => ?_⟩
  · rw [Topology.noteLink?, hfirst, Option.bind_some, hsecond]
  · obtain ⟨between, hbetween, hlast⟩ := hhighs node row hat
    obtain ⟨before, hbefore, hrest⟩ := hlows node between hbetween
    rw [hlast, hrest, h.mem node before hbefore, Adjacent, Adjacent]
    simp only [List.mem_append, List.mem_singleton, or_and_right, exists_or, exists_eq_left]
    exact or_assoc

/-- All links between nodes that there are can be noted. -/
theorem listsNeighbours_foldlM {nodeCount : Nat} {before links : List Link}
    {rows : List (List Nat)} (h : ListsNeighbours nodeCount before rows)
    (hlinks : Within nodeCount links) :
    ∃ after, links.foldlM noteLink? rows = some after ∧
      ListsNeighbours nodeCount (before ++ links) after := by
  induction links generalizing before rows with
  | nil => exact ⟨rows, rfl, by rwa [List.append_nil]⟩
  | cons link rest ih =>
    obtain ⟨hlow, hhigh⟩ := hlinks link List.mem_cons_self
    obtain ⟨middle, hnoted, hmiddle⟩ := h.noteLink? hlow hhigh
    obtain ⟨after, hrest, hafter⟩ := ih hmiddle fun other hmem =>
      hlinks other (List.mem_cons_of_mem link hmem)
    refine ⟨after, ?_, by rwa [List.append_assoc] at hafter⟩
    rw [List.foldlM_cons, hnoted]
    exact hrest

/-- The neighbours of all nodes are found. -/
theorem exists_neighbours? {nodeCount : Nat} {links : List Link} (h : Within nodeCount links) :
    ∃ rows, neighbours? nodeCount links = some rows ∧ ListsNeighbours nodeCount links rows := by
  have hnone : ListsNeighbours nodeCount [] (List.replicate nodeCount []) := by
    refine ⟨List.length_replicate, fun node row hat other => ?_⟩
    rw [List.getElem?_replicate] at hat
    split at hat
    · obtain rfl := Option.some.inj hat
      simp [Adjacent]
    · cases hat
  exact listsNeighbours_foldlM hnone h

/-! ## One component -/

/-- Whether a node is marked. -/
def Marked (met : List Bool) (node : Nat) : Prop := met[node]? = some true

/-- Marking a node marks this one, and no other. -/
theorem marked_set {met : List Bool} {node : Nat} (h : node < met.length) (other : Nat) :
    Marked (met.set node true) other ↔ Marked met other ∨ other = node := by
  rw [Marked, Marked, List.getElem?_set]
  by_cases heq : node = other
  · simp [heq, heq ▸ h]
  · simp [heq, Ne.symm heq]

/-- Whether the fresh ones among some nodes were marked, each of them once. -/
structure Meets (nodes : List Nat) (met after : List Bool) (fresh : List Nat) : Prop where
  /-- There are as many nodes as before. -/
  length : after.length = met.length
  /-- No node is fresh twice. -/
  nodup : fresh.Nodup
  /-- Fresh nodes are among those that were to be met, and were not marked. -/
  new : ∀ node ∈ fresh, node ∈ nodes ∧ ¬Marked met node
  /-- The fresh nodes are marked in addition. -/
  marked : ∀ node, Marked after node ↔ Marked met node ∨ node ∈ fresh
  /-- All that were to be met are marked. -/
  all : ∀ node ∈ nodes, Marked after node

namespace Meets

variable {node : Nat} {nodes fresh : List Nat} {met after : List Bool}

/-- No node is to be met. -/
theorem nil (met : List Bool) : Meets [] met met [] where
  length := rfl
  nodup := List.nodup_nil
  new _ h := absurd h List.not_mem_nil
  marked _ := (or_iff_left List.not_mem_nil).symm
  all _ h := absurd h List.not_mem_nil

/-- A node that is marked is met once more. -/
theorem consKnown (h : Meets nodes met after fresh) (hknown : Marked met node) :
    Meets (node :: nodes) met after fresh where
  length := h.length
  nodup := h.nodup
  new other hmem := ⟨List.mem_cons_of_mem node (h.new other hmem).1, (h.new other hmem).2⟩
  marked := h.marked
  all other hmem := by
    rcases List.mem_cons.mp hmem with rfl | hrest
    · exact (h.marked other).mpr (Or.inl hknown)
    · exact h.all other hrest

/-- A node that is not marked is met for the first time, before the others. -/
theorem consNew (h : Meets nodes (met.set node true) after fresh) (hlt : node < met.length)
    (hnew : ¬Marked met node) : Meets (node :: nodes) met after (fresh ++ [node]) where
  length := h.length.trans List.length_set
  nodup := by
    refine List.nodup_append.mpr ⟨h.nodup, List.nodup_singleton node, fun other hmem last hlast => ?_⟩
    rw [List.mem_singleton.mp hlast]
    rintro rfl
    exact (h.new other hmem).2 ((marked_set hlt other).mpr (Or.inr rfl))
  new other hmem := by
    rcases List.mem_append.mp hmem with hfresh | hlast
    · have hother := h.new other hfresh
      rw [marked_set hlt, not_or] at hother
      exact ⟨List.mem_cons_of_mem node hother.1, hother.2.1⟩
    · rw [List.mem_singleton.mp hlast]
      exact ⟨List.mem_cons_self, hnew⟩
  marked other := by
    rw [h.marked, marked_set hlt, List.mem_append, List.mem_singleton, or_assoc,
      or_comm (a := other = node)]
  all other hmem := by
    rcases List.mem_cons.mp hmem with rfl | hrest
    · exact (h.marked other).mpr (Or.inl ((marked_set hlt other).mpr (Or.inr rfl)))
    · exact h.all other hrest

end Meets

/-- Nodes that there are can be met, and the fresh ones come onto the stack. -/
theorem exists_meets {nodes : List Nat} {met : List Bool} (stack : List Nat)
    (h : ∀ node ∈ nodes, node < met.length) :
    ∃ after fresh, meet? nodes met stack = some (after, fresh ++ stack) ∧
      Meets nodes met after fresh := by
  induction nodes generalizing met stack with
  | nil => exact ⟨met, [], rfl, .nil met⟩
  | cons node rest ih =>
    have hlt := h node List.mem_cons_self
    have hat := List.getElem?_eq_getElem hlt
    have hrest : ∀ other ∈ rest, other < met.length := fun other hmem =>
      h other (List.mem_cons_of_mem node hmem)
    rw [meet?, hat]
    cases hmark : met[node] with
    | true =>
      obtain ⟨after, fresh, hmeet, hmeets⟩ := ih stack hrest
      exact ⟨after, fresh, hmeet, hmeets.consKnown (hat.trans (congrArg some hmark))⟩
    | false =>
      rw [hmark] at hat
      have hnew : ¬Marked met node := by simp [Marked, hat]
      have hlength : (met.set node true).length = met.length := List.length_set
      obtain ⟨after, fresh, hmeet, hmeets⟩ := ih (node :: stack) (hlength.symm ▸ hrest)
      refine ⟨after, fresh ++ [node], ?_, hmeets.consNew hlt hnew⟩
      rw [List.append_assoc]
      exact hmeet

/-- How far the visits have come that began with a node: which nodes are marked, which are visited and
which are on the stack. Some nodes were met before. -/
structure Visiting (nodeCount : Nat) (links : List Link) (before : Nat → Prop) (start : Nat)
    (met : List Bool) (group stack : List Nat) : Prop where
  /-- There is a mark for every node. -/
  length : met.length = nodeCount
  /-- The visits have begun. -/
  started : start ∈ group ++ stack
  /-- No node is visited twice. -/
  nodup : (group ++ stack).Nodup
  /-- Marked is what was met before, was visited or is on the stack. -/
  marked : ∀ node, Marked met node ↔ before node ∨ node ∈ group ++ stack
  /-- What is visited was not met before, and is joined with the first node. -/
  joined : ∀ node ∈ group ++ stack, ¬before node ∧ Joined links start node
  /-- The neighbours of visited nodes are marked. -/
  closed : ∀ node ∈ group, ∀ other, Adjacent links node other → Marked met other

namespace Visiting

variable {nodeCount : Nat} {links : List Link} {before : Nat → Prop} {start node : Nat}
  {met after : List Bool} {group stack row fresh : List Nat}

/-- A node that was not met before is where visits can begin. -/
theorem begin (hlength : met.length = nodeCount) (hmarked : ∀ node, Marked met node ↔ before node)
    (hlt : start < nodeCount) (hnew : ¬Marked met start) :
    Visiting nodeCount links before start (met.set start true) [] [start] where
  length := by rw [List.length_set, hlength]
  started := List.mem_singleton.mpr rfl
  nodup := List.nodup_singleton start
  marked other := by
    rw [marked_set (hlength.symm ▸ hlt), hmarked, List.nil_append, List.mem_singleton]
  joined other hmem := by
    rw [List.mem_singleton.mp hmem, ← hmarked]
    exact ⟨hnew, Joined.refl links start⟩
  closed _ h := absurd h List.not_mem_nil

/-- Whatever is visited or on the stack is a node that there is. -/
theorem lt_of_mem (h : Visiting nodeCount links before start met group stack)
    (hmem : node ∈ group ++ stack) : node < nodeCount := by
  have hmark := (h.marked node).mpr (Or.inr hmem)
  obtain ⟨hlt, -⟩ := List.getElem?_eq_some_iff.mp hmark
  exact h.length ▸ hlt

/-- One visit more keeps what is known of the visits. -/
theorem visit (h : Visiting nodeCount links before start met group (node :: stack))
    (hrow : ∀ other, other ∈ row ↔ Adjacent links node other) (hmeets : Meets row met after fresh) :
    Visiting nodeCount links before start after (group ++ [node]) (fresh ++ stack) := by
  have hperm : (group ++ [node] ++ (fresh ++ stack)).Perm (fresh ++ (group ++ node :: stack)) := by
    rw [List.append_cons group node stack]
    exact List.perm_append_comm_assoc _ _ _
  have hmem {other : Nat} : other ∈ group ++ [node] ++ (fresh ++ stack) ↔
      other ∈ fresh ∨ other ∈ group ++ node :: stack := by
    rw [hperm.mem_iff, List.mem_append]
  have hnode : node ∈ group ++ node :: stack := List.mem_append_right group List.mem_cons_self
  refine ⟨hmeets.length.trans h.length, hmem.mpr (Or.inr h.started), ?_, fun other => ?_,
    fun other hother => ?_, fun other hother => ?_⟩
  · rw [hperm.nodup_iff]
    refine List.nodup_append.mpr ⟨hmeets.nodup, h.nodup, fun other hfresh last hlast heq => ?_⟩
    exact (hmeets.new other hfresh).2 ((h.marked other).mpr (Or.inr (heq ▸ hlast)))
  · rw [hmeets.marked, h.marked, hmem, or_assoc, or_comm (a := other ∈ fresh)]
  · rcases hmem.mp hother with hfresh | hold
    · obtain ⟨hmet, hnew⟩ := hmeets.new other hfresh
      rw [h.marked, not_or] at hnew
      exact ⟨hnew.1, (h.joined node hnode).2.trans ((hrow other).mp hmet).joined⟩
    · exact h.joined other hold
  · intro last hadjacent
    rcases List.mem_append.mp hother with hvisited | hnow
    · exact (hmeets.marked last).mpr (Or.inl (h.closed other hvisited last hadjacent))
    · rw [List.mem_singleton.mp hnow] at hadjacent
      exact hmeets.all last ((hrow last).mpr hadjacent)

/-- When the stack is empty, everything is visited that is joined with the first node, provided that
joined nodes were met before together. -/
theorem mem_iff (h : Visiting nodeCount links before start met group [])
    (hbefore : ∀ a b, Joined links a b → (before a ↔ before b)) :
    node ∈ group ↔ Joined links start node := by
  have hmem {other : Nat} : other ∈ group ++ [] ↔ other ∈ group := by rw [List.append_nil]
  have hclosed : ∀ a b, Adjacent links a b → a ∈ group → b ∈ group := by
    intro a b hadjacent ha
    rcases (h.marked b).mp (h.closed a ha b hadjacent) with hmet | hvisited
    · have hmet := (hbefore a b hadjacent.joined).mpr hmet
      exact absurd hmet (h.joined a (hmem.mpr ha)).1
    · exact hmem.mp hvisited
  have hrespects : Respects (· ∈ group) links := fun link hlink =>
    ⟨hclosed _ _ ⟨link, hlink, Or.inl ⟨rfl, rfl⟩⟩, hclosed _ _ ⟨link, hlink, Or.inr ⟨rfl, rfl⟩⟩⟩
  exact ⟨fun hvisited => (h.joined node (hmem.mpr hvisited)).2,
    fun hjoined => (hjoined _ hrespects).mp (hmem.mp h.started)⟩

end Visiting

/-- Visiting goes on with the next node on the stack. -/
theorem visit?_cons {rows : List (List Nat)} {node : Nat} {row stack later group : List Nat}
    {met after : List Bool} (hrow : rows[node]? = some row)
    (hmeet : meet? row met stack = some (after, later)) :
    visit? rows met group (node :: stack) = visit? rows after (group ++ [node]) later := by
  rw [visit?]
  simp only [hrow]
  split
  · rename_i hnone
    rw [hmeet] at hnone
    cases hnone
  · rename_i hsome
    rw [hmeet] at hsome
    cases hsome
    rfl

/-- The visits come to an end without asking for a node that there is not. -/
theorem exists_visited {nodeCount : Nat} {links : List Link} {rows : List (List Nat)}
    (hrows : ListsNeighbours nodeCount links rows) (hlinks : Within nodeCount links)
    {before : Nat → Prop} {start : Nat} {met : List Bool} {group stack : List Nat}
    (h : Visiting nodeCount links before start met group stack) :
    ∃ after visited, visit? rows met group stack = some (after, visited) ∧
      Visiting nodeCount links before start after visited [] := by
  induction hleft : met.count false + stack.length using Nat.strongRecOn
    generalizing met group stack with
  | ind left ih =>
    match stack, h, hleft with
    | [], h, _ =>
      rw [visit?]
      exact ⟨met, group, rfl, h⟩
    | node :: stack, h, hleft =>
      have hlt : node < rows.length :=
        hrows.length.symm ▸ h.lt_of_mem (List.mem_append_right group List.mem_cons_self)
      have hrow := List.getElem?_eq_getElem hlt
      have hadjacent := hrows.mem node _ hrow
      have hmeetable : ∀ other ∈ rows[node], other < met.length := by
        intro other hother
        obtain ⟨link, hmem, ⟨-, rfl⟩ | ⟨-, rfl⟩⟩ := (hadjacent other).mp hother
        · exact h.length.symm ▸ (hlinks link hmem).2
        · exact h.length.symm ▸ (hlinks link hmem).1
      obtain ⟨after, fresh, hmeet, hmeets⟩ := exists_meets stack hmeetable
      have hcount := count_meet? hmeet
      rw [List.length_cons] at hleft
      rw [visit?_cons hrow hmeet]
      exact ih _ (by omega) (h.visit hadjacent hmeets) rfl

/-! ## All components -/

/-- Whether no node has a label that is greater than the node. -/
def NoneAbove (labels : List Nat) : Prop :=
  ∀ node label : Nat, labels[node]? = some label → label ≤ node

/-- Following a link only gives up labels for lesser ones. -/
theorem NoneAbove.follow {labels : List Nat} (h : NoneAbove labels) (link : Link) :
    NoneAbove (follow labels link) := by
  intro node label hlabel
  rw [Topology.follow, List.getElem?_map, Option.map_eq_some_iff] at hlabel
  obtain ⟨old, hold, heq⟩ := hlabel
  have hle := h node old hold
  split at heq <;> omega

/-- No node has a label that is greater than the node. -/
theorem noneAbove_labels (nodeCount : Nat) (links : List Link) :
    NoneAbove (labels nodeCount links) := by
  have hstart : NoneAbove (List.range nodeCount) := by
    intro node label hlabel
    obtain ⟨hlt, hget⟩ := List.getElem?_eq_some_iff.mp hlabel
    rw [List.getElem_range] at hget
    omega
  rw [labels]
  generalize List.range nodeCount = labels at hstart ⊢
  induction links generalizing labels with
  | nil => exact hstart
  | cons link rest ih => exact ih _ (hstart.follow link)

/-- Nodes are joined exactly if they have one label. -/
theorem joined_iff_labels {nodeCount : Nat} {links : List Link} (hlinks : Within nodeCount links)
    {a b : Nat} (ha : a < nodeCount) :
    Joined links a b ↔ (labels nodeCount links)[a]? = (labels nodeCount links)[b]? := by
  have hlabelled := labelled_labels hlinks
  refine ⟨fun hjoined => hjoined.getElem?_labels hlinks, fun hsame => ?_⟩
  have hlabel := getElem?_eq_some_getD (labels nodeCount links) (hlabelled.length.symm ▸ ha)
  exact (hlabelled.joined a _ hlabel).trans (hlabelled.joined b _ (hsame ▸ hlabel)).symm

/-- The nodes with a label, in ascending order. -/
theorem ascending_nodesLabelled (labels : List Nat) (label : Nat) :
    (nodesLabelled labels label).Pairwise (· < ·) := ascending_places _ _

section Groups

variable {nodeCount : Nat} {links : List Link} (hlinks : Within nodeCount links)

include hlinks

/-- There is a component for each node that carries itself as its label. -/
theorem components_eq :
    components nodeCount links =
      ((List.range nodeCount).filter fun root => (labels nodeCount links)[root]? = some root).map
        (nodesLabelled (labels nodeCount links)) := by
  rw [components]
  congr 1
  refine (ascending_places _ _).eq_of_mem_iff (List.pairwise_lt_range.filter _) fun root => ?_
  simp only [List.mem_map, List.mem_filter, List.mem_zipIdx_iff_getElem?, List.mem_range,
    decide_eq_true_eq]
  constructor
  · rintro ⟨⟨label, place⟩, ⟨hat, heq⟩, rfl⟩
    have hlt := (List.getElem?_eq_some_iff.mp hat).1
    rw [(labelled_labels hlinks).length] at hlt
    exact ⟨hlt, heq ▸ hat⟩
  · rintro ⟨-, hroot⟩
    exact ⟨(root, root), ⟨hroot, rfl⟩, rfl⟩

/-- A node that is joined with no lesser one carries itself as its label, and no other node does. -/
theorem root_iff {node : Nat} (h : node < nodeCount) :
    (labels nodeCount links)[node]? = some node ↔ ∀ lesser < node, ¬Joined links lesser node := by
  have hlabelled := labelled_labels hlinks
  have hlabel := getElem?_eq_some_getD (labels nodeCount links) (hlabelled.length.symm ▸ h)
  constructor
  · intro hroot lesser hlt hjoined
    have hsame := hjoined.getElem?_labels hlinks
    have hle := noneAbove_labels nodeCount links lesser node (hsame.trans hroot)
    omega
  · intro hleast
    have hjoined := hlabelled.joined node _ hlabel
    have hle := noneAbove_labels nodeCount links node _ hlabel
    rcases Nat.lt_or_eq_of_le hle with hlt | heq
    · exact absurd hjoined.symm (hleast _ hlt)
    · rw [heq] at hlabel
      exact hlabel

/-- The nodes that are joined with a root are those that carry it as their label. -/
theorem mem_nodesLabelled_iff {root node : Nat} (hroot : (labels nodeCount links)[root]? = some root) :
    node ∈ nodesLabelled (labels nodeCount links) root ↔ Joined links root node := by
  have hlt : root < nodeCount := (labelled_labels hlinks).length ▸
    (List.getElem?_eq_some_iff.mp hroot).1
  rw [mem_nodesLabelled, joined_iff_labels hlinks hlt, hroot, eq_comm]

/-- A group that has what is joined with a root is put in order as the nodes that carry the root. -/
theorem mergeSort_eq_nodesLabelled {root : Nat} {group : List Nat} (hnodup : group.Nodup)
    (hroot : (labels nodeCount links)[root]? = some root)
    (hmem : ∀ node, node ∈ group ↔ Joined links root node) :
    group.mergeSort = nodesLabelled (labels nodeCount links) root := by
  refine List.Pairwise.eq_of_mem_iff ?_ (ascending_nodesLabelled _ root) fun node => ?_
  · have hle : group.mergeSort.Pairwise (· ≤ ·) := group.pairwise_mergeSort' (· ≤ ·)
    exact (hle.and (List.nodup_mergeSort.mpr hnodup)).imp fun h => lt_of_le_of_ne h.1 h.2
  · rw [List.mem_mergeSort, hmem, mem_nodesLabelled_iff hlinks hroot]

/-- The search from the last nodes on finds the components that have their root there, when all that is
joined with an earlier node was met. -/
theorem search?_tail {rows : List (List Nat)} (hrows : ListsNeighbours nodeCount links rows)
    {first count : Nat} (hcount : first + count = nodeCount) {met : List Bool}
    (hlength : met.length = nodeCount)
    (hmarked : ∀ node, Marked met node ↔ ∃ earlier < first, Joined links earlier node) :
    search? rows (List.range' first count) met =
      some (((List.range' first count).filter
        fun root => (labels nodeCount links)[root]? = some root).map
          (nodesLabelled (labels nodeCount links))) := by
  induction count generalizing first met with
  | zero => rfl
  | succ count ih =>
    have hlt : first < nodeCount := by omega
    have hat := List.getElem?_eq_getElem (hlength.symm ▸ hlt : first < met.length)
    have hroot := root_iff hlinks hlt
    rw [List.range'_succ, search?, hat]
    cases hmark : met[first] with
    | true =>
      -- What is joined with a node that was met is joined with an earlier one, and was met too.
      rw [hmark] at hat
      obtain ⟨earlier, hearlier, hjoined⟩ := (hmarked first).mp hat
      have hnoroot : ¬(labels nodeCount links)[first]? = some first := fun hcarries =>
        hroot.mp hcarries earlier hearlier hjoined
      rw [List.filter_cons_of_neg (by simpa using hnoroot)]
      refine ih (by omega) hlength fun node => ?_
      rw [hmarked, Nat.exists_lt_succ_right, iff_self_or]
      exact fun hnode => ⟨earlier, hearlier, hjoined.trans hnode⟩
    | false =>
      rw [hmark] at hat
      have hnew : ¬Marked met first := by simp [Marked, hat]
      have hcarries : (labels nodeCount links)[first]? = some first := by
        rw [hroot]
        exact fun lesser hlesser hjoined => hnew ((hmarked first).mpr ⟨lesser, hlesser, hjoined⟩)
      have hbegin : Visiting nodeCount links _ first _ [] [first] :=
        .begin hlength hmarked hlt hnew
      obtain ⟨after, group, hvisit, hvisited⟩ := exists_visited hrows hlinks hbegin
      have hmem : ∀ node, node ∈ group ↔ Joined links first node := fun node =>
        hvisited.mem_iff fun a b hjoined =>
          exists_congr fun earlier => and_congr_right fun _ =>
            ⟨fun ha => ha.trans hjoined, fun hb => hb.trans hjoined.symm⟩
      have hnodup : group.Nodup := by simpa using hvisited.nodup
      have hafter : ∀ node, Marked after node ↔ ∃ earlier < first + 1, Joined links earlier node :=
        fun node => by rw [hvisited.marked, List.append_nil, hmem, Nat.exists_lt_succ_right]
      have hrest := ih (by omega) hvisited.length hafter
      rw [List.filter_cons_of_pos (by simpa using hcarries), List.map_cons,
        ← mergeSort_eq_nodesLabelled hlinks hnodup hcarries hmem]
      simp [hvisit, hrest]

/-- The search finds the components, and asks for no node that there is not. -/
theorem searched?_eq : searched? nodeCount links = some (components nodeCount links) := by
  obtain ⟨rows, hneighbours, hrows⟩ := exists_neighbours? hlinks
  rw [searched?, hneighbours, List.range_eq_range', components_eq hlinks, List.range_eq_range']
  exact search?_tail hlinks hrows (Nat.zero_add _) List.length_replicate fun node => by
    simp [Marked, List.getElem?_replicate]

end Groups

/-- No node carries a label that is greater, so a root is the least of its component. -/
theorem le_of_mem_nodesLabelled {nodeCount : Nat} {links : List Link} {root node : Nat}
    (h : node ∈ nodesLabelled (labels nodeCount links) root) : root ≤ node :=
  noneAbove_labels nodeCount links node root (mem_nodesLabelled.mp h)

/-- The components are ordered by their least members. -/
theorem components_ordered {nodeCount : Nat} {links : List Link} (hlinks : Within nodeCount links) :
    (components nodeCount links).Pairwise fun group other =>
      ∃ least ∈ group, (∀ node ∈ group, least ≤ node) ∧ ∀ node ∈ other, least < node := by
  rw [components_eq hlinks, List.pairwise_map]
  refine (List.pairwise_lt_range.filter _).imp_of_mem fun {root later} hroot _ hlt => ?_
  have hcarries := of_decide_eq_true (List.mem_filter.mp hroot).2
  exact ⟨root, mem_nodesLabelled.mpr hcarries, fun node hnode => le_of_mem_nodesLabelled hnode,
    fun node hnode => hlt.trans_le (le_of_mem_nodesLabelled hnode)⟩

/-- Whatever links there are between nodes of a population, self-loops among them and in either
direction: the search for components comes to an end, asks for no node that there is not, and finds the
components as they are computed. These are the components of the graph of the links. Each of them is in
ascending order, and they are ordered by their least members. -/
theorem components_are_found {nodeCount : Nat} {links : List Link}
    (hlinks : Within nodeCount links) :
    searched? nodeCount links = some (components nodeCount links) ∧
      AreComponents nodeCount links (components nodeCount links) ∧
      (∀ group ∈ components nodeCount links, group.Pairwise (· < ·)) ∧
      (components nodeCount links).Pairwise fun group other =>
        ∃ least ∈ group, (∀ node ∈ group, least ≤ node) ∧ ∀ node ∈ other, least < node := by
  refine ⟨searched?_eq hlinks, areComponents_components hlinks, fun group hgroup => ?_,
    components_ordered hlinks⟩
  obtain ⟨root, -, rfl⟩ := mem_components.mp hgroup
  exact ascending_nodesLabelled _ root

/-- Among five nodes a link from a greater to a lesser node, one from a lesser to a greater and a
self-loop leave three components. -/
theorem components_are_found_islands :
    Within 5 [⟨1, 0⟩, ⟨2, 3⟩, ⟨4, 4⟩] ∧
      searched? 5 [⟨1, 0⟩, ⟨2, 3⟩, ⟨4, 4⟩] = some [[0, 1], [2, 3], [4]] :=
  have hlinks : Within 5 [⟨1, 0⟩, ⟨2, 3⟩, ⟨4, 4⟩] := by simp [Within]
  ⟨hlinks, (components_are_found hlinks).1.trans (congrArg some (by decide))⟩

end Epidemic.Topology
