import Epidemic.Proofs.World.Standing
import Epidemic.Simulation.Basic

/-!
# The index of a simulation

The index of a simulation leads from the names of its nodes to their places. It is written down when
the nodes join, and it is never changed again. As nodes keep their names and their order, it agrees
with the nodes of the world as long as no others join, and goes on leading to its own nodes if others
do.
-/

namespace Epidemic.Simulation

variable {σ : Type} {simulation after : Simulation σ} {name : NodeId} {index : Nat}

/-- Whether the index leads every name to the place where it stands among the names of the nodes, and
a name that no node has to no place. -/
def Indexed (simulation : Simulation σ) : Prop :=
  ∀ id, simulation.indexOf? id = simulation.nodeIds.idxOf? id

/-- There is a node in every place among the names. -/
theorem exists_member_of_getElem? (h : simulation.nodeIds[index]? = some name) :
    ∃ member, simulation.world.members[index]? = some member ∧ member.node.id = name := by
  rw [nodeIds, World.nodes, List.map_map, List.getElem?_map, Option.map_eq_some_iff] at h
  exact h

/-- A name stands in the place to which the index leads. -/
theorem Indexed.getElem?_nodeIds (h : simulation.Indexed)
    (hindex : simulation.indexOf? name = some index) : simulation.nodeIds[index]? = some name := by
  rw [h, List.idxOf?, List.findIdx?_eq_some_iff_getElem] at hindex
  obtain ⟨hlt, hname, -⟩ := hindex
  rw [List.getElem?_eq_getElem hlt, beq_iff_eq.mp hname]

/-- The index leads to the node that has the name. -/
theorem Indexed.exists_member (h : simulation.Indexed)
    (hindex : simulation.indexOf? name = some index) :
    ∃ member, simulation.world.members[index]? = some member ∧ member.node.id = name :=
  exists_member_of_getElem? (h.getElem?_nodeIds hindex)

/-- The index leads a name to a place if it is one of the names of the nodes. -/
theorem Indexed.contains_nodeIds (h : simulation.Indexed) (name : NodeId) :
    simulation.nodeIds.contains name = (simulation.indexOf? name).isSome := by
  rw [h, Bool.eq_iff_iff, List.contains_iff_mem, List.isSome_idxOf?]

/-- A name that no node has leads nowhere. -/
theorem Indexed.indexOf?_eq_none (h : simulation.Indexed) (hname : name ∉ simulation.nodeIds) :
    simulation.indexOf? name = none := by
  rw [h, List.idxOf?_eq_none_iff]
  exact hname

/-- The index leads to its nodes as long as they keep their places, whether or not there are others
after them. -/
theorem Indexed.exists_member_of_prefix (h : simulation.Indexed)
    (hindex : after.index = simulation.index) (hnames : simulation.nodeIds <+: after.nodeIds)
    (hname : name ∈ simulation.nodeIds) :
    ∃ index member, after.indexOf? name = some index ∧
      after.world.members[index]? = some member ∧ member.node.id = name := by
  have hknown := List.contains_iff_mem.mpr hname
  rw [h.contains_nodeIds, Option.isSome_iff_exists] at hknown
  obtain ⟨index, hat⟩ := hknown
  have hbefore := h.getElem?_nodeIds hat
  have hafter : after.nodeIds[index]? = some name := by
    obtain ⟨hlt, -⟩ := List.getElem?_eq_some_iff.mp hbefore
    obtain ⟨others, hothers⟩ := hnames
    rw [← hothers, List.getElem?_append_left hlt]
    exact hbefore
  obtain ⟨member, hmember, hid⟩ := exists_member_of_getElem? hafter
  refine ⟨index, member, ?_, hmember, hid⟩
  rw [indexOf?, hindex]
  exact hat

/-- Under every name that is one of the names there is a node. -/
theorem Indexed.exists_indexOf? (h : simulation.Indexed) (hname : name ∈ simulation.nodeIds) :
    ∃ index member, simulation.indexOf? name = some index ∧
      simulation.world.members[index]? = some member ∧ member.node.id = name :=
  h.exists_member_of_prefix rfl (List.prefix_refl _) hname

/-- The index stays right as long as the nodes keep their names. -/
theorem Indexed.congr (h : simulation.Indexed) (hindex : after.index = simulation.index)
    (hnames : after.nodeIds = simulation.nodeIds) : after.Indexed := by
  intro id
  rw [indexOf?, hindex, hnames]
  exact h id

variable [Random.Source σ]

/-- Moves by which no node joins leave the index right. -/
theorem Indexed.run (h : simulation.Indexed) {moves : List (Move 1)}
    (hmoves : ∀ move ∈ moves, move.joins = false) :
    Indexed { simulation with world := simulation.world.run moves } :=
  h.congr rfl (simulation.world.names_run hmoves)

end Epidemic.Simulation
