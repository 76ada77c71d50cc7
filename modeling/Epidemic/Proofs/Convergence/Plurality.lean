import Epidemic.Proofs.Convergence.Agreement

/-!
# The value that most nodes hold

A tally has the distinct values in the order of their first holders, each with the number of all that
hold it. So the value that a report names is the first one that is held by the most nodes, and it is
named as its first holder has it: equal values need not be the same, as the two zeros show.
-/

namespace Epidemic.Convergence

/-! ## Counts and places in a tally -/

/-- Equal values are equalled by as many others. -/
theorem countP_congr_of_equals {first second : Json.Value} (h : first.equals second = true)
    (values : List Json.Value) : values.countP first.equals = values.countP second.equals := by
  refine List.countP_congr fun value _ => ⟨fun hfirst => ?_, fun hsecond => ?_⟩
  · exact Json.Value.equals_trans second first value (Json.Value.equals_symm first second h) hfirst
  · exact Json.Value.equals_trans first second value h hsecond

/-- If every value equals itself, each of them is counted under one that equals it. -/
theorem exists_mem_tally {values : List Json.Value} (hself : ∀ value ∈ values, value.equals value = true)
    {value : Json.Value} (h : value ∈ values) :
    ∃ entry ∈ tally values, entry.1.equals value = true := by
  induction values using tally_induction with
  | nil => cases h
  | cons first rest ih =>
    rw [tally_cons]
    cases hequal : first.equals value with
    | true => exact ⟨_, List.mem_cons_self, hequal⟩
    | false =>
      have hrest : value ∈ rest := by
        rcases List.mem_cons.mp h with rfl | hrest
        · exact absurd (hself value List.mem_cons_self) (ne_true_of_eq_false hequal)
        · exact hrest
      have hother : value ∈ rest.filter fun other => !first.equals other :=
        List.mem_filter.mpr ⟨hrest, by simp [hequal]⟩
      obtain ⟨entry, hentry, hcounted⟩ :=
        ih (fun other hmem => hself other (List.mem_cons_of_mem first (List.mem_of_mem_filter hmem)))
          hother
      exact ⟨entry, List.mem_cons_of_mem _ hentry, hcounted⟩

/-- A value that differs from the first one is equalled by as many others if what equals the first one
is left out. -/
theorem countP_filter_of_distinct {first value : Json.Value} (h : first.equals value = false)
    (rest : List Json.Value) :
    (rest.filter fun other => !first.equals other).countP value.equals =
      (first :: rest).countP value.equals := by
  have hfirst : ¬value.equals first = true := fun hequal =>
    ne_true_of_eq_false h (Json.Value.equals_symm value first hequal)
  rw [List.countP_filter, List.countP_cons_of_neg hfirst]
  refine List.countP_congr fun other _ => ?_
  rw [Bool.and_eq_true, and_iff_left_iff_imp, Bool.not_eq_true']
  intro hvalue
  refine eq_false_of_ne_true fun hother => ne_true_of_eq_false h ?_
  exact Json.Value.equals_trans first other value hother (Json.Value.equals_symm value other hvalue)

/-- Whether a value stands in a list behind no others than those that equal the value of some entry. -/
def MetAfter (before : Tally) (value : Json.Value) (values : List Json.Value) : Prop :=
  ∃ earlier later, values = earlier ++ value :: later ∧
    ∀ other ∈ earlier, ∃ entry ∈ before, entry.1.equals other = true

/-- It is one of the values. -/
theorem MetAfter.mem {before : Tally} {value : Json.Value} {values : List Json.Value}
    (h : MetAfter before value values) : value ∈ values := by
  obtain ⟨earlier, later, rfl, -⟩ := h
  exact List.mem_append_right earlier List.mem_cons_self

/-- What was left out because it equals the first value may be put in again, if that has an entry. -/
theorem MetAfter.of_filter {before : Tally} {first value : Json.Value} {rest : List Json.Value}
    (h : MetAfter before value (rest.filter fun other => !first.equals other))
    (hself : first.equals first = true) (counted : Nat) :
    MetAfter ((first, counted) :: before) value (first :: rest) := by
  obtain ⟨earlier, later, hsplit, hmet⟩ := h
  obtain ⟨kept, tail, hrest, hkept, htail⟩ := List.filter_eq_append_iff.mp hsplit
  obtain ⟨passed, last, hlast, hpassed, -, -⟩ := List.filter_eq_cons_iff.mp htail
  refine ⟨first :: (kept ++ passed), last, ?_, fun other hmem => ?_⟩
  · rw [hrest, hlast, List.cons_append, List.append_assoc]
  · cases hequal : first.equals other with
    | true => exact ⟨_, List.mem_cons_self, hequal⟩
    | false =>
      have hother : other ∈ kept := by
        rcases List.mem_cons.mp hmem with rfl | hmem
        · exact absurd hself (ne_true_of_eq_false hequal)
        · refine (List.mem_append.mp hmem).resolve_right fun hin => hpassed other hin ?_
          rw [hequal, Bool.not_false]
      have hearlier : other ∈ earlier := by
        rw [← hkept]
        exact List.mem_filter.mpr ⟨hother, by rw [hequal, Bool.not_false]⟩
      obtain ⟨entry, hentry, hcounted⟩ := hmet other hearlier
      exact ⟨entry, List.mem_cons_of_mem _ hentry, hcounted⟩

/-- If every value equals itself, an entry of a tally counts all values that equal its own, and this was
met when no other values had been met than those of the entries before. -/
theorem counted_and_met {values : List Json.Value}
    (hself : ∀ value ∈ values, value.equals value = true) {before after : Tally}
    {entry : Json.Value × Nat} (h : tally values = before ++ entry :: after) :
    entry.2 = values.countP entry.1.equals ∧ MetAfter before entry.1 values := by
  induction values using tally_induction generalizing before with
  | nil => simp [tally] at h
  | cons first rest ih =>
    have hfirst := hself first List.mem_cons_self
    rw [tally_cons] at h
    cases before with
    | nil =>
      obtain ⟨rfl, -⟩ := List.cons.inj h
      refine ⟨?_, [], rest, rfl, List.forall_mem_nil _⟩
      rw [List.countP_cons_of_pos hfirst, Nat.add_comm]
    | cons head before =>
      -- Among the values that do not equal the first one, the entry was met after `before`.
      obtain ⟨rfl, hothers⟩ := List.cons.inj h
      obtain ⟨hcount, hmet⟩ := ih
        (fun other hmem => hself other (List.mem_cons_of_mem first (List.mem_of_mem_filter hmem)))
        hothers
      have hdistinct : first.equals entry.1 = false := by
        rw [← Bool.not_eq_true']
        exact (List.mem_filter.mp hmet.mem).2
      rw [hcount, countP_filter_of_distinct hdistinct]
      exact ⟨rfl, hmet.of_filter hfirst _⟩

/-- If every value equals itself, the most common one is the first of those that are equalled by the
most. -/
theorem mostCommon_tally {values : List Json.Value}
    (hself : ∀ value ∈ values, value.equals value = true) {best : Json.Value × Nat}
    (h : mostCommon (tally values) = some best) :
    best.2 = values.countP best.1.equals ∧
      (∀ value ∈ values, values.countP value.equals ≤ best.2) ∧
      ∃ earlier later, values = earlier ++ best.1 :: later ∧
        ∀ value ∈ earlier, values.countP value.equals < best.2 := by
  have hleads := leads_of_mostCommon h
  -- An entry counts all values that equal whatever is counted under it, not only its own value.
  have hcounted : ∀ entry ∈ tally values, ∀ value, entry.1.equals value = true →
      entry.2 = values.countP value.equals := by
    intro entry hentry value hequal
    obtain ⟨before, after, hsplit⟩ := List.append_of_mem hentry
    rw [(counted_and_met hself hsplit).1, countP_congr_of_equals hequal]
  obtain ⟨before, after, hsplit, hbefore, -⟩ := id hleads
  obtain ⟨hbest, earlier, later, hvalues, hmet⟩ := counted_and_met hself hsplit
  refine ⟨hbest, fun value hmem => ?_, earlier, later, hvalues, fun value hmem => ?_⟩
  · obtain ⟨entry, hentry, hequal⟩ := exists_mem_tally hself hmem
    rw [← hcounted entry hentry value hequal]
    exact hleads.le hentry
  · obtain ⟨entry, hentry, hequal⟩ := hmet value hmem
    have hlisted : entry ∈ tally values := by
      rw [hsplit]
      exact List.mem_append_left _ hentry
    rw [← hcounted entry hlisted value hequal]
    exact hbefore entry hentry

/-- If there is no most common value, there is no value. -/
theorem eq_nil_of_mostCommon_tally {values : List Json.Value}
    (h : mostCommon (tally values) = none) : values = [] := by
  have hholders := (holders_tally values).1
  rw [eq_nil_of_mostCommon h] at hholders
  exact List.eq_nil_of_length_eq_zero hholders.symm

/-- If every value equals itself, the most common one has all holders exactly if all values are equal. -/
theorem eq_length_iff_of_mostCommon {values : List Json.Value}
    (hself : ∀ value ∈ values, value.equals value = true) {best : Json.Value × Nat}
    (h : mostCommon (tally values) = some best) :
    best.2 ≤ values.length ∧
      (best.2 = values.length ↔ ∀ value ∈ values, ∀ other ∈ values, value.equals other = true) := by
  obtain ⟨hcount, -, earlier, later, hsplit, -⟩ := mostCommon_tally hself h
  have hmem : best.1 ∈ values := by
    rw [hsplit]
    exact List.mem_append_right _ List.mem_cons_self
  rw [hcount, List.countP_eq_length]
  refine ⟨List.countP_le_length, fun hall value hvalue other hother => ?_, fun hall => hall best.1 hmem⟩
  exact Json.Value.equals_trans value best.1 other
    (Json.Value.equals_symm best.1 value (hall value hvalue)) (hall other hother)

/-! ## Reports -/

/-- The values that nodes hold for a key, in the order of the nodes. -/
def held (nodes : List Node) (key : String) : List Json.Value :=
  nodes.filterMap (·.get? key)

/-- How many nodes hold a value for a key that equals the given one. -/
def followers (nodes : List Node) (key : String) (value : Json.Value) : Nat :=
  nodes.countP fun node => (node.get? key).any value.equals

variable {nodes : List Node} {key : String}

/-- The followers of a value are the held values that equal it. -/
theorem countP_held (value : Json.Value) :
    (held nodes key).countP value.equals = followers nodes key value := by
  rw [held, List.countP_filterMap]
  refine List.countP_congr fun node _ => ?_
  cases node.get? key with
  | none => exact Iff.rfl
  | some other => exact Iff.rfl

/-- A node holds a value or is missing. -/
theorem length_held_add (nodes : List Node) (key : String) :
    (held nodes key).length + nodes.countP (fun node => (node.get? key).isNone) = nodes.length := by
  induction nodes with
  | nil => rfl
  | cons node rest ih =>
    rw [held] at ih ⊢
    rw [List.filterMap_cons, List.countP_cons, List.length_cons, ← ih]
    cases node.get? key with
    | none => simp only [Option.isNone_none, if_true, Nat.add_assoc]
    | some value =>
      simp only [Option.isNone_some, Bool.false_eq_true, if_false, List.length_cons]
      omega

/-- What a report says, by the tally of the values that are held. -/
theorem ofNodes_eq (nodes : List Node) (key : String) :
    Report.ofNodes nodes key =
      { key
        totalNodes := nodes.length
        agreeingNodes := ((mostCommon (tally (held nodes key))).map (·.2)).getD 0
        missingNodes := nodes.countP fun node => (node.get? key).isNone
        value := (mostCommon (tally (held nodes key))).map (·.1) } := by
  have hmissing : nodes.length - (held nodes key).length =
      nodes.countP fun node => (node.get? key).isNone := by
    have hall := length_held_add nodes key
    omega
  rw [← hmissing]
  rfl

/-- If every value that is held equals itself, as many nodes agree as the greatest number of followers
that a held value has, and the value is the first one that has so many. -/
theorem agreeing_and_value (hself : ∀ value ∈ held nodes key, value.equals value = true) :
    (Report.ofNodes nodes key).agreeingNodes =
        ((held nodes key).map (followers nodes key)).max?.getD 0 ∧
      (Report.ofNodes nodes key).value = (held nodes key).find? fun value =>
        followers nodes key value == (Report.ofNodes nodes key).agreeingNodes := by
  rw [ofNodes_eq]
  cases hbest : mostCommon (tally (held nodes key)) with
  | none =>
    rw [eq_nil_of_mostCommon_tally hbest]
    exact ⟨rfl, rfl⟩
  | some best =>
    obtain ⟨hcount, hle, earlier, later, hsplit, hless⟩ := mostCommon_tally hself hbest
    simp only [countP_held] at hcount hle hless
    have hmem : best.1 ∈ held nodes key := by
      rw [hsplit]
      exact List.mem_append_right _ List.mem_cons_self
    have hmax : ((held nodes key).map (followers nodes key)).max? = some best.2 := by
      refine List.max?_eq_some_iff.mpr ⟨?_, fun number hnumber => ?_⟩
      · rw [hcount]
        exact List.mem_map_of_mem hmem
      · obtain ⟨value, hvalue, rfl⟩ := List.mem_map.mp hnumber
        exact hle value hvalue
    refine ⟨by rw [hmax]; rfl, Eq.symm ?_⟩
    refine List.find?_eq_some_iff_append.mpr ⟨?_, earlier, later, hsplit, fun value hearlier => ?_⟩
    · rw [← hcount]
      exact beq_self_eq_true best.2
    · rw [Bool.not_eq_true', beq_eq_false_iff_ne]
      exact Nat.ne_of_lt (hless value hearlier)

/-- If every value that is held equals itself, all nodes agree or are missing exactly if all values that
are held are equal. -/
theorem agreeing_add_missing (hself : ∀ value ∈ held nodes key, value.equals value = true) :
    (Report.ofNodes nodes key).agreeingNodes + (Report.ofNodes nodes key).missingNodes ≤
        (Report.ofNodes nodes key).totalNodes ∧
      ((Report.ofNodes nodes key).agreeingNodes + (Report.ofNodes nodes key).missingNodes =
          (Report.ofNodes nodes key).totalNodes ↔
        ∀ value ∈ held nodes key, ∀ other ∈ held nodes key, value.equals other = true) := by
  have hall := length_held_add nodes key
  rw [ofNodes_eq]
  cases hbest : mostCommon (tally (held nodes key)) with
  | none =>
    rw [eq_nil_of_mostCommon_tally hbest] at hall ⊢
    refine ⟨Nat.le_of_eq hall, fun _ _ hmem => absurd hmem List.not_mem_nil, fun _ => hall⟩
  | some best =>
    obtain ⟨hle, hiff⟩ := eq_length_iff_of_mostCommon hself hbest
    simp only [Option.map_some, Option.getD_some]
    rw [← hiff]
    omega

/-- If every value that is held equals itself, nodes agree exactly if there are nodes and each of them
holds a value that equals the one of each. -/
theorem agree_iff
    (hself : ∀ node ∈ nodes, ∀ value, node.get? key = some value → value.equals value = true) :
    Agree key nodes ↔ nodes ≠ [] ∧ ∀ node ∈ nodes, ∀ other ∈ nodes,
      ∃ value value', node.get? key = some value ∧ other.get? key = some value' ∧
        value.equals value' = true := by
  constructor
  · intro hagree
    refine ⟨hagree.nonempty, fun node hnode other hother => ?_⟩
    obtain ⟨value, hvalue⟩ := Option.isSome_iff_exists.mp (hagree.held node hnode)
    obtain ⟨value', hvalue'⟩ := Option.isSome_iff_exists.mp (hagree.held other hother)
    refine ⟨value, value', hvalue, hvalue', ?_⟩
    refine hagree.equal.forall_of_forall_of_flip ?_ ?_ hnode hother value hvalue value' hvalue'
    · intro node hnode value hvalue value' hvalue'
      rw [← Option.some_inj.mp (hvalue.symm.trans hvalue')]
      exact hself node hnode value hvalue
    · refine hagree.equal.imp fun hequal value hvalue value' hvalue' => ?_
      exact Json.Value.equals_symm value' value (hequal value' hvalue' value hvalue)
  · rintro ⟨hne, hall⟩
    refine ⟨hne, fun node hnode => ?_, ?_⟩
    · obtain ⟨value, -, hvalue, -, -⟩ := hall node hnode node hnode
      rw [hvalue]
      rfl
    · refine List.pairwise_of_forall_mem_list fun first hfirst second hsecond => ?_
      obtain ⟨value, value', hvalue, hvalue', hequal⟩ := hall first hfirst second hsecond
      intro one hone another hanother
      rw [← Option.some_inj.mp (hvalue.symm.trans hone),
        ← Option.some_inj.mp (hvalue'.symm.trans hanother)]
      exact hequal

/-- A report counts the nodes and those that hold no value for the key. As many nodes agree as the
greatest number of nodes that hold one equal value, none if there is no value; the value is the first of
those that so many nodes hold, in the order of the nodes, as its first holder has it. All nodes agree or
are missing exactly if all values that are held are equal, and the report says that nodes agree exactly
if they do. It is asked only that every value that is held equals itself. -/
theorem report_names_most_common
    (hself : ∀ node ∈ nodes, ∀ value, node.get? key = some value → value.equals value = true) :
    let report := Report.ofNodes nodes key
    report.key = key ∧ report.totalNodes = nodes.length ∧
      report.missingNodes = nodes.countP (fun node => (node.get? key).isNone) ∧
      report.agreeingNodes = ((held nodes key).map (followers nodes key)).max?.getD 0 ∧
      report.value = (held nodes key).find? (fun value =>
        followers nodes key value == report.agreeingNodes) ∧
      report.agreeingNodes + report.missingNodes ≤ report.totalNodes ∧
      (report.agreeingNodes + report.missingNodes = report.totalNodes ↔
        ∀ value ∈ held nodes key, ∀ other ∈ held nodes key, value.equals other = true) ∧
      (report.isConverged = true ↔ nodes ≠ [] ∧ ∀ node ∈ nodes, ∀ other ∈ nodes,
        ∃ value value', node.get? key = some value ∧ other.get? key = some value' ∧
          value.equals value' = true) := by
  have hheld : ∀ value ∈ held nodes key, value.equals value = true := fun value hmem => by
    obtain ⟨node, hnode, hvalue⟩ := List.mem_filterMap.mp hmem
    exact hself node hnode value hvalue
  obtain ⟨hagreeing, hvalue⟩ := agreeing_and_value hheld
  obtain ⟨hle, hiff⟩ := agreeing_add_missing hheld
  exact ⟨rfl, rfl, congrArg Report.missingNodes (ofNodes_eq nodes key), hagreeing, hvalue, hle, hiff,
    Report.isConverged_iff.trans (agree_iff hself)⟩

/-- Of five nodes, two hold a zero, two hold a one and one holds nothing. The zero is named, with the sign
that its first holder has given it. -/
theorem report_names_most_common_tied :
    let values := [some (.float ⟨true, 0⟩), some (.int 1), none, some (.float .zero), some (.int 1)]
    let nodes := values.map fun value : Option Json.Value =>
      { Node.new "a" 0 with state := (value.map fun value => ("x", value)).toList }
    let report := Report.ofNodes nodes "x"
    (∀ node ∈ nodes, ∀ value, node.get? "x" = some value → value.equals value = true) ∧
      report.totalNodes = 5 ∧ report.missingNodes = 1 ∧ report.agreeingNodes = 2 ∧
      report.value = some (.float ⟨true, 0⟩) ∧ report.isConverged = false := by
  intro values nodes report
  have hself : ∀ node ∈ nodes, ∀ value, node.get? "x" = some value → value.equals value = true := by
    have hvalues : (held nodes "x").all (fun value => value.equals value) = true := rfl
    intro node hnode value hvalue
    exact List.all_eq_true.mp hvalues value (List.mem_filterMap.mpr ⟨node, hnode, hvalue⟩)
  obtain ⟨-, htotal, hmissing, hagreeing, hvalue, -⟩ := report_names_most_common hself
  refine ⟨hself, htotal, hmissing, hagreeing, hvalue.trans ?_, ?_⟩
  · rw [hagreeing]
    rfl
  · refine eq_false_of_ne_true fun htrue => ?_
    rw [Report.isConverged, htotal, hagreeing] at htrue
    exact absurd htrue (by decide)

end Epidemic.Convergence
