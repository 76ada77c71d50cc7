import Epidemic.Convergence.Report
import Mathlib.Data.List.Basic

/-!
# Tallies of values

A tally counts every holder under the first value that equals the held one. Its most common value has
more holders than those before it and as many as any after it.
-/

namespace Epidemic.Convergence

/-! ## Counting -/

/-- Values that equal the first one of a tally are counted under it, and all others as if it were not
there. -/
theorem foldl_count_cons (value : Json.Value) (counted : Nat) (before : Tally)
    (values : List Json.Value) :
    values.foldl (fun tally value => count value tally) ((value, counted) :: before) =
      (value, counted + values.countP value.equals) ::
        (values.filter fun other => !value.equals other).foldl
          (fun tally value => count value tally) before := by
  induction values generalizing counted before with
  | nil => rfl
  | cons other rest ih =>
    rw [List.foldl_cons, count]
    cases hequal : value.equals other with
    | true =>
      have hadded : counted + 1 + rest.countP value.equals =
          counted + (rest.countP value.equals + 1) := by omega
      rw [if_pos rfl, ih, List.countP_cons_of_pos hequal, List.filter_cons_of_neg (by simp [hequal]),
        hadded]
    | false =>
      rw [if_neg Bool.false_ne_true, ih, List.countP_cons_of_neg (by simp [hequal]),
        List.filter_cons_of_pos (by simp [hequal]), List.foldl_cons]

/-- A tally begins with the first value and the number of values that equal it, and goes on with the
tally of the others. -/
theorem tally_cons (value : Json.Value) (rest : List Json.Value) :
    tally (value :: rest) = (value, 1 + rest.countP value.equals) ::
      tally (rest.filter fun other => !value.equals other) :=
  foldl_count_cons value 1 [] rest

/-- What holds of no values, and of values whenever it holds of those that do not equal their first one,
holds of all values: a tally goes on in this way. -/
@[elab_as_elim]
theorem tally_induction {motive : List Json.Value → Prop} (nil : motive [])
    (cons : ∀ value rest, motive (rest.filter fun other => !value.equals other) →
      motive (value :: rest)) : ∀ values, motive values
  | [] => nil
  | value :: rest => cons value rest (tally_induction nil cons _)
termination_by values => values.length
decreasing_by exact Nat.lt_succ_of_le (List.length_filter_le _ _)

/-- The holders of all values together. -/
def holders : Tally → Nat
  | [] => 0
  | entry :: rest => entry.2 + holders rest

/-- A tally counts every holder, and only values that have one. -/
theorem holders_tally (values : List Json.Value) :
    holders (tally values) = values.length ∧ ∀ entry ∈ tally values, 0 < entry.2 := by
  induction values using tally_induction with
  | nil => exact ⟨rfl, List.forall_mem_nil _⟩
  | cons value rest ih =>
    obtain ⟨hothers, hpos⟩ := ih
    rw [tally_cons]
    constructor
    · have hsplit : rest.length = rest.countP value.equals +
          (rest.filter fun other => !value.equals other).length := by
        rw [rest.length_eq_countP_add_countP value.equals, List.countP_eq_length_filter]
        simp only [List.countP_eq_length_filter, Bool.not_eq_true, Bool.decide_eq_false]
      rw [holders, hothers, List.length_cons, hsplit]
      omega
    · intro entry hmem
      rcases List.mem_cons.mp hmem with rfl | hother
      · exact Nat.lt_of_lt_of_le Nat.zero_lt_one (Nat.le_add_right 1 _)
      · exact hpos entry hother

/-- No value has more holders than all values have together. -/
theorem le_holders {tally : Tally} {entry : Json.Value × Nat} (h : entry ∈ tally) :
    entry.2 ≤ holders tally := by
  induction tally with
  | nil => cases h
  | cons first rest ih =>
    rw [holders]
    rcases List.mem_cons.mp h with rfl | hrest
    · exact Nat.le_add_right _ _
    · exact Nat.le_trans (ih hrest) (Nat.le_add_left _ _)

/-- A value that has all the holders is the only one. -/
theorem eq_singleton_of_holders {tally : Tally} (hpos : ∀ entry ∈ tally, 0 < entry.2)
    {best : Json.Value × Nat} (hbest : best ∈ tally) (hall : best.2 = holders tally) :
    tally = [best] := by
  cases tally with
  | nil => cases hbest
  | cons first rest =>
    rw [holders] at hall
    rcases List.mem_cons.mp hbest with rfl | hrest
    · cases rest with
      | nil => rfl
      | cons second others =>
        have hsecond := hpos second (List.mem_cons_of_mem _ List.mem_cons_self)
        rw [holders] at hall
        omega
    · have hfirst := hpos first List.mem_cons_self
      have hle := le_holders hrest
      omega

/-! ## The first of the most common values -/

/-- Whether an entry of a tally has more holders than those before it and as many as any after it. -/
def Leads (best : Json.Value × Nat) (tally : Tally) : Prop :=
  ∃ before after, tally = before ++ best :: after ∧
    (∀ entry ∈ before, entry.2 < best.2) ∧ ∀ entry ∈ after, entry.2 ≤ best.2

namespace Leads

variable {best : Json.Value × Nat} {tally : Tally}

/-- It is an entry. -/
theorem mem (h : Leads best tally) : best ∈ tally := by
  obtain ⟨before, after, rfl, -, -⟩ := h
  exact List.mem_append_right before List.mem_cons_self

/-- No entry has more holders. -/
theorem le (h : Leads best tally) {entry : Json.Value × Nat} (hmem : entry ∈ tally) :
    entry.2 ≤ best.2 := by
  obtain ⟨before, after, rfl, hbefore, hafter⟩ := h
  rcases List.mem_append.mp hmem with hfirst | hlast
  · exact Nat.le_of_lt (hbefore entry hfirst)
  · rcases List.mem_cons.mp hlast with rfl | hlater
    · exact Nat.le_refl _
    · exact hafter entry hlater

/-- It still leads behind an entry that has fewer holders. -/
theorem cons (h : Leads best tally) {entry : Json.Value × Nat} (hless : entry.2 < best.2) :
    Leads best (entry :: tally) := by
  obtain ⟨before, after, rfl, hbefore, hafter⟩ := h
  refine ⟨entry :: before, after, rfl, fun other hmem => ?_, hafter⟩
  rcases List.mem_cons.mp hmem with rfl | hold
  · exact hless
  · exact hbefore other hold

/-- An entry that has no more holders than the first one may be put in after that. -/
theorem insert {first entry : Json.Value × Nat} (h : Leads best (first :: tally))
    (hle : entry.2 ≤ first.2) : Leads best (first :: entry :: tally) := by
  have hfirst : first.2 ≤ best.2 := h.le List.mem_cons_self
  obtain ⟨before, after, hsplit, hbefore, hafter⟩ := h
  cases before with
  | nil =>
    obtain ⟨rfl, rfl⟩ := List.cons.inj hsplit
    refine ⟨[], entry :: tally, rfl, List.forall_mem_nil _, fun other hmem => ?_⟩
    rcases List.mem_cons.mp hmem with rfl | hold
    · exact hle
    · exact hafter other hold
  | cons head rest =>
    obtain ⟨rfl, rfl⟩ := List.cons.inj hsplit
    have hless : first.2 < best.2 := hbefore first List.mem_cons_self
    refine ⟨first :: entry :: rest, after, rfl, fun other hmem => ?_, hafter⟩
    rcases List.mem_cons.mp hmem with rfl | hmem
    · exact hless
    · rcases List.mem_cons.mp hmem with rfl | hold
      · exact Nat.lt_of_le_of_lt hle hless
      · exact hbefore other (List.mem_cons_of_mem _ hold)

end Leads

/-- A tally of any values has a most common one, and this leads. -/
theorem exists_mostCommon (first : Json.Value × Nat) (rest : Tally) :
    ∃ best, mostCommon (first :: rest) = some best ∧ Leads best (first :: rest) := by
  rw [mostCommon, List.foldl_cons]
  dsimp only
  -- What the scan has kept so far stands as if it were the first entry of what is to come.
  induction rest generalizing first with
  | nil =>
    exact ⟨first, rfl, [], [], rfl, List.forall_mem_nil _, List.forall_mem_nil _⟩
  | cons entry rest ih =>
    rw [List.foldl_cons]
    dsimp only
    split
    · rename_i hless
      obtain ⟨best, hbest, hlater⟩ := ih entry
      exact ⟨best, hbest, hlater.cons (Nat.lt_of_lt_of_le hless (hlater.le List.mem_cons_self))⟩
    · rename_i hless
      obtain ⟨best, hbest, hlater⟩ := ih first
      exact ⟨best, hbest, hlater.insert (Nat.le_of_not_lt hless)⟩

/-- The most common value leads. -/
theorem leads_of_mostCommon {tally : Tally} {best : Json.Value × Nat}
    (h : mostCommon tally = some best) : Leads best tally := by
  cases tally with
  | nil => cases h
  | cons first rest =>
    obtain ⟨top, htop, hleads⟩ := exists_mostCommon first rest
    rw [Option.some_inj.mp (h.symm.trans htop)]
    exact hleads

/-- There is no most common value only if there is none at all. -/
theorem eq_nil_of_mostCommon {tally : Tally} (h : mostCommon tally = none) : tally = [] := by
  cases tally with
  | nil => rfl
  | cons first rest =>
    obtain ⟨top, htop, -⟩ := exists_mostCommon first rest
    exact absurd (htop.symm.trans h) (Option.some_ne_none top)

end Epidemic.Convergence
