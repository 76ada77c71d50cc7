import Epidemic.Convergence.Wait
import Epidemic.Proofs.Convergence.Tally
import Epidemic.Proofs.Json.Equality
import Epidemic.Proofs.Json.Numeric

/-!
# When nodes agree

A report says that nodes agree exactly if there are nodes, all of them hold a value for the key, and
any two of the values are equal: the most common value has as many holders as there are nodes only if
the tally has no other value. If those nodes that hold a value hold the same numeric one, a report
counts them under it.
-/

namespace Epidemic

namespace Convergence

/-! ## Agreement -/

/-- Whether there are nodes, all of them hold a value for a key, and any two of the values are
equal. -/
structure Agree (key : String) (nodes : List Node) : Prop where
  /-- There is a node. -/
  nonempty : nodes ≠ []
  /-- Every node holds a value. -/
  held : ∀ node ∈ nodes, (node.get? key).isSome = true
  /-- Any two nodes hold equal values. -/
  equal : nodes.Pairwise fun node other => ∀ value, node.get? key = some value →
    ∀ value', other.get? key = some value' → value.equals value' = true

/-- If any two values are equal, all holders are counted under the first value. -/
theorem tally_of_pairwise {value : Json.Value} {rest : List Json.Value}
    (h : (value :: rest).Pairwise fun value other => value.equals other = true) :
    tally (value :: rest) = [(value, rest.length + 1)] := by
  have hequal := (List.pairwise_cons.mp h).1
  have hcount : rest.countP value.equals = rest.length := List.countP_eq_length.mpr hequal
  have hothers : (rest.filter fun other => !value.equals other) = [] :=
    List.filter_eq_nil_iff.mpr fun other hmem => by simp [hequal other hmem]
  rw [tally_cons, hcount, hothers, Nat.add_comm]
  rfl

/-- If a tally has one value only, any two of the values that were counted are equal. -/
theorem pairwise_of_tally {values : List Json.Value} {best : Json.Value × Nat}
    (h : tally values = [best]) :
    values.Pairwise fun value other => value.equals other = true := by
  cases values with
  | nil => exact List.Pairwise.nil
  | cons value rest =>
    rw [tally_cons] at h
    have hothers := (holders_tally (rest.filter fun other => !value.equals other)).1
    rw [(List.cons.inj h).2, holders] at hothers
    have hequal : ∀ other ∈ rest, value.equals other = true := fun other hmem => by
      have hnone := List.filter_eq_nil_iff.mp (List.eq_nil_of_length_eq_zero hothers.symm) other hmem
      simpa using hnone
    refine List.pairwise_cons.mpr ⟨hequal, List.pairwise_of_forall_mem_list ?_⟩
    intro first hfirst second hsecond
    exact Json.Value.equals_trans first value second
      (Json.Value.equals_symm value first (hequal first hfirst)) (hequal second hsecond)

/-- A report says that nodes agree exactly if they do. -/
theorem Report.isConverged_iff {nodes : List Node} {key : String} :
    (Report.ofNodes nodes key).isConverged = true ↔ Agree key nodes := by
  obtain ⟨hholders, hpos⟩ := holders_tally (nodes.filterMap (·.get? key))
  have hle : (nodes.filterMap (·.get? key)).length ≤ nodes.length := List.length_filterMap_le _ _
  simp only [Report.isConverged, Report.ofNodes, Bool.and_eq_true, beq_iff_eq]
  constructor
  · rintro ⟨hsome, hcount⟩
    have hsome : 0 < nodes.length := of_decide_eq_true hsome
    cases hbest : mostCommon (tally (nodes.filterMap (·.get? key))) with
    | none =>
      rw [hbest] at hcount
      exact absurd hcount (Nat.ne_of_lt hsome)
    | some best =>
      rw [hbest] at hcount
      have hcount : best.2 = nodes.length := hcount
      have hmem := (leads_of_mostCommon hbest).mem
      have hbound := le_holders hmem
      have hsingle := eq_singleton_of_holders hpos hmem (by omega)
      refine ⟨List.ne_nil_of_length_pos hsome, ?_, ?_⟩
      · exact List.filterMap_length_eq_length.mp (by omega)
      · exact List.pairwise_filterMap.mp (pairwise_of_tally hsingle)
  · intro hagree
    have hlength := List.filterMap_length_eq_length.mpr hagree.held
    have hpositive := List.length_pos_of_ne_nil hagree.nonempty
    have hpairwise := List.pairwise_filterMap.mpr hagree.equal
    refine ⟨decide_eq_true hpositive, ?_⟩
    cases hvalues : nodes.filterMap (·.get? key) with
    | nil =>
      rw [hvalues] at hlength
      exact hlength
    | cons value rest =>
      rw [hvalues] at hlength hpairwise
      rw [tally_of_pairwise hpairwise]
      exact hlength

/-! ## Holders of one value -/

/-- If those nodes that hold a value hold the same one, the values are that often this one. -/
theorem filterMap_eq_replicate {nodes : List Node} {key : String} {value : Json.Value}
    {holds : Node → Bool}
    (h : ∀ node ∈ nodes, node.get? key = if holds node then some value else none) :
    nodes.filterMap (·.get? key) = List.replicate (nodes.countP holds) value := by
  induction nodes with
  | nil => rfl
  | cons node rest ih =>
    have hrest := ih fun other hmem => h other (List.mem_cons_of_mem node hmem)
    have hfirst := h node List.mem_cons_self
    rw [List.filterMap_cons, List.countP_cons, hrest, hfirst]
    cases holds node with
    | false => rfl
    | true => rfl

/-- If those nodes that hold a value hold the same numeric one, a report counts them under it. -/
theorem Report.ofNodes_of_holders {nodes : List Node} {key : String} {value : Json.Value}
    (hvalue : value.isNumeric = true) {holds : Node → Bool}
    (h : ∀ node ∈ nodes, node.get? key = if holds node then some value else none) :
    Report.ofNodes nodes key =
      { key
        totalNodes := nodes.length
        agreeingNodes := nodes.countP holds
        missingNodes := nodes.length - nodes.countP holds
        value := if 0 < nodes.countP holds then some value else none } := by
  have hvalues := filterMap_eq_replicate h
  rw [Report.ofNodes, hvalues, List.length_replicate]
  cases nodes.countP holds with
  | zero => rfl
  | succ more =>
    have htally : tally (List.replicate (more + 1) value) = [(value, more + 1)] := by
      have hself := Json.Value.equals_self value hvalue
      have hpairwise : (List.replicate (more + 1) value).Pairwise
          fun value other => value.equals other = true :=
        List.pairwise_replicate.mpr (Or.inr hself)
      rw [List.replicate_succ] at hpairwise ⊢
      rw [tally_of_pairwise hpairwise, List.length_replicate]
    rw [htally]
    rfl

/-- If all nodes hold one value they agree on it. -/
theorem Report.ofNodes_of_agreement {nodes : List Node} {key : String} {value : Json.Value}
    (hvalue : value.isNumeric = true) (hnodes : ∀ node ∈ nodes, node.get? key = some value)
    (hne : nodes ≠ []) :
    (Report.ofNodes nodes key).isConverged = true ∧
      (Report.ofNodes nodes key).agreeingNodes = nodes.length := by
  have hholders : ∀ node ∈ nodes, node.get? key =
      if (fun _ => true : Node → Bool) node then some value else none := hnodes
  have hreport := Report.ofNodes_of_holders hvalue hholders
  have hall : nodes.countP (fun _ => true) = nodes.length :=
    List.countP_eq_length.mpr fun _ _ => rfl
  have hpositive := List.length_pos_of_ne_nil hne
  rw [hreport, Report.isConverged, hall, beq_self_eq_true, Bool.and_true]
  exact ⟨decide_eq_true hpositive, rfl⟩

/-- The elements of a list are those under its indexes. -/
theorem filterMap_range_getElem? {α β : Type} (elements : List α) (f : α → β) :
    (List.range elements.length).filterMap (fun index => (elements[index]?).map f) =
      elements.map f := by
  induction elements with
  | nil => rfl
  | cons first rest ih =>
    rw [List.length_cons, List.range_succ_eq_map, List.filterMap_cons, List.filterMap_map]
    exact congrArg (f first :: ·) ih

/-- A watch over all nodes of a world reports on all of them. -/
theorem Watch.report_ofAll {σ : Type} {k : Nat} (world : World σ k) (key : String)
    (poll : Duration) :
    (Watch.ofAll world key poll).report world = Report.ofNodes world.nodes key :=
  congrArg (Report.ofNodes · key) (filterMap_range_getElem? world.members (·.node))

end Convergence

end Epidemic
