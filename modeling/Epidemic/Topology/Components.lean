import Epidemic.Topology.Link

/-!
# Connected components

Every node carries as its label the least node that it is known to be connected with. At first this
is the node itself; a link makes one of the labels of its two ends, everywhere the greater one is
given up for the lesser one. When all links have been followed, nodes with one label are the nodes
of one component.

Another way to find the components is a search. From each node in turn that was not met before, all
nodes are visited that can be reached: a visited node puts its neighbours that are new on a stack, from
which the next node to visit is taken. Here all lists are looked up with a check, so the search would
have no result if it asked for a node that there is not. It ends because every node on the stack was
met once.
-/

namespace Epidemic.Topology

/-! ## Labels -/

/-- The labels after a link was followed. -/
def follow (labels : List Nat) (link : Link) : List Nat :=
  let a := labels.getD link.low link.low
  let b := labels.getD link.high link.high
  labels.map fun label => if label = max a b then min a b else label

/-- The label of each of the nodes `0`, …, `nodeCount - 1`. -/
def labels (nodeCount : Nat) (links : List Link) : List Nat :=
  links.foldl follow (List.range nodeCount)

/-- The nodes with a label. -/
def nodesLabelled (labels : List Nat) (label : Nat) : List Nat :=
  (labels.zipIdx.filter (·.1 = label)).map (·.2)

/-- The components of the nodes `0`, …, `nodeCount - 1`, each in ascending order, and ordered by
their least nodes. These are the nodes that carry their own number as their label. -/
def components (nodeCount : Nat) (links : List Link) : List (List Nat) :=
  let labels := labels nodeCount links
  let roots := (labels.zipIdx.filter fun entry => entry.1 = entry.2).map (·.2)
  roots.map (nodesLabelled labels)

/-! ## The search -/

/-- Notes a neighbour in the row of a node, unless there is no such node. -/
def note? (rows : List (List Nat)) (node neighbour : Nat) : Option (List (List Nat)) :=
  rows[node]?.map fun row => rows.set node (row ++ [neighbour])

/-- Notes the ends of a link as neighbours of each other. -/
def noteLink? (rows : List (List Nat)) (link : Link) : Option (List (List Nat)) :=
  (note? rows link.low link.high).bind fun rows => note? rows link.high link.low

/-- The neighbours of every node, unless an end of a link is no node. -/
def neighbours? (nodeCount : Nat) (links : List Link) : Option (List (List Nat)) :=
  links.foldlM noteLink? (List.replicate nodeCount [])

/-- Marks those of several nodes that are not marked yet, and puts them on the stack. -/
def meet? : List Nat → List Bool → List Nat → Option (List Bool × List Nat)
  | [], met, stack => some (met, stack)
  | node :: rest, met, stack =>
    match met[node]? with
    | none => none
    | some true => meet? rest met stack
    | some false => meet? rest (met.set node true) (node :: stack)

/-- Every node that is put on the stack is one that was not marked before. -/
theorem count_meet? {nodes : List Nat} {met after : List Bool} {stack later : List Nat}
    (h : meet? nodes met stack = some (after, later)) :
    after.count false + later.length = met.count false + stack.length := by
  induction nodes generalizing met stack with
  | nil => cases h; rfl
  | cons node rest ih =>
    rw [meet?] at h
    split at h
    · cases h
    · exact ih h
    · rename_i hnew
      obtain ⟨hlt, hget⟩ := List.getElem?_eq_some_iff.mp hnew
      have hset : (met.set node true).count false = met.count false - 1 := by
        simp [List.count_set hlt, hget]
      have hpositive : 0 < met.count false :=
        List.count_pos_iff.mpr (List.mem_of_getElem? hnew)
      have hcount := ih h
      rw [hset, List.length_cons] at hcount
      omega

/-- Visits the nodes on the stack and whatever is met from them, and adds them to a group. -/
def visit? (rows : List (List Nat)) (met : List Bool) (group stack : List Nat) :
    Option (List Bool × List Nat) :=
  match stack with
  | [] => some (met, group)
  | node :: rest =>
    match rows[node]? with
    | none => none
    | some row =>
      match _h : meet? row met rest with
      | none => none
      | some (after, later) => visit? rows after (group ++ [node]) later
termination_by met.count false + stack.length
decreasing_by
  have hcount := count_meet? _h
  rw [List.length_cons]
  omega

/-- The groups of nodes that are visited from each of the listed nodes, if it was not met before. -/
def search? (rows : List (List Nat)) : List Nat → List Bool → Option (List (List Nat))
  | [], _ => some []
  | start :: rest, met => do
    if ← met[start]? then search? rows rest met
    else
      let (met, group) ← visit? rows (met.set start true) [] [start]
      let groups ← search? rows rest met
      return group.mergeSort :: groups

/-- The components of the nodes `0`, …, `nodeCount - 1`, each in ascending order, as they are found by
searching. None if the search asks for a node that there is not. -/
def searched? (nodeCount : Nat) (links : List Link) : Option (List (List Nat)) := do
  let rows ← neighbours? nodeCount links
  search? rows (List.range nodeCount) (List.replicate nodeCount false)

end Epidemic.Topology
