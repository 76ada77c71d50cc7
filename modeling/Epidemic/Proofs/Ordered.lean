import Epidemic.Ordered
import Mathlib.Data.List.Sort

/-!
# Members of ascending lists

Which elements an ascending list has after an insertion, and how many. Only of elements that are
comparable can it be said that each of them has its place. Then the set of a list depends on nothing
but the members of the list, and it makes no difference whether the elements are inserted one by one
or sorted first.
-/

namespace Epidemic.Ordered

variable {α : Type} [LT α] [DecidableLT α]

/-- Insertion makes a list longer by one element at most. -/
theorem length_insert_le (a : α) (elements : List α) :
    (insert a elements).length ≤ elements.length + 1 := by
  induction elements with
  | nil => exact Nat.le_refl _
  | cons b rest ih =>
    rw [insert]
    split
    · exact Nat.le_refl _
    · split
      · simp only [List.length_cons]
        omega
      · exact Nat.le_succ _

/-- A set has no more elements than the list that it is made of. -/
theorem length_ofList_le (elements : List α) : (ofList elements).length ≤ elements.length := by
  induction elements with
  | nil => exact Nat.le_refl _
  | cons a rest ih =>
    have hinsert := length_insert_le a (ofList rest)
    simp only [ofList, List.foldr_cons, List.length_cons] at ih hinsert ⊢
    omega

/-- Insertion keeps the order. -/
theorem pairwise_insert (htrans : ∀ a b c : α, a < b → b < c → a < c) (a : α) {elements : List α}
    (h : elements.Pairwise (· < ·)) : (insert a elements).Pairwise (· < ·) := by
  induction elements with
  | nil => exact List.pairwise_singleton _ a
  | cons b rest ih =>
    obtain ⟨hfirst, hrest⟩ := List.pairwise_cons.mp h
    rw [insert]
    split
    · rename_i hlt
      refine List.pairwise_cons.mpr ⟨fun x hmem => ?_, h⟩
      rcases List.mem_cons.mp hmem with rfl | hmem
      · exact hlt
      · exact htrans a b x hlt (hfirst x hmem)
    · split
      · rename_i hgt
        refine List.pairwise_cons.mpr ⟨fun x hmem => ?_, ih hrest⟩
        rcases mem_of_mem_insert hmem with rfl | hmem
        · exact hgt
        · exact hfirst x hmem
      · exact h

/-- The set of a list is in ascending order. -/
theorem pairwise_ofList (htrans : ∀ a b c : α, a < b → b < c → a < c) (elements : List α) :
    (ofList elements).Pairwise (· < ·) := by
  induction elements with
  | nil => exact List.Pairwise.nil
  | cons a rest ih => exact pairwise_insert htrans a ih

variable [Std.Trichotomous (α := α) (· < ·)]

/-- An element is present after its insertion. -/
theorem mem_insert_self (a : α) (elements : List α) : a ∈ insert a elements := by
  induction elements with
  | nil => exact List.mem_singleton.mpr rfl
  | cons b rest ih =>
    rw [insert]
    split
    · exact List.mem_cons_self
    · rename_i hlt
      split
      · exact List.mem_cons_of_mem b ih
      · rename_i hgt
        have heq : a = b := Std.Trichotomous.trichotomous (r := (· < · : α → α → Prop)) a b hlt hgt
        rw [heq]
        exact List.mem_cons_self

/-- The insertion of a new element adds it at some place. -/
theorem perm_insert {a : α} {elements : List α} (h : a ∉ elements) :
    (insert a elements).Perm (a :: elements) := by
  induction elements with
  | nil => exact List.Perm.refl _
  | cons b rest ih =>
    rw [insert]
    split
    · exact List.Perm.refl _
    · rename_i hlt
      split
      · have hrest := ih fun hmem => h (List.mem_cons_of_mem b hmem)
        exact (hrest.cons b).trans (List.Perm.swap a b rest)
      · rename_i hgt
        have heq : a = b := Std.Trichotomous.trichotomous (r := (· < · : α → α → Prop)) a b hlt hgt
        rw [heq] at h
        exact absurd List.mem_cons_self h

/-- The members after an insertion. -/
theorem mem_insert {a x : α} {elements : List α} :
    x ∈ insert a elements ↔ x = a ∨ x ∈ elements := by
  constructor
  · exact mem_of_mem_insert
  · rintro (rfl | h)
    · exact mem_insert_self x elements
    · exact mem_insert_of_mem h

/-- The set of a list has the members of the list. -/
theorem mem_ofList {x : α} {elements : List α} : x ∈ ofList elements ↔ x ∈ elements := by
  induction elements with
  | nil => exact Iff.rfl
  | cons a rest ih =>
    have hinsert : x ∈ ofList (a :: rest) ↔ x = a ∨ x ∈ ofList rest := mem_insert
    rw [hinsert, ih, List.mem_cons]

/-- The set of a list without repetitions is a rearrangement of the list. -/
theorem perm_ofList {elements : List α} (h : elements.Nodup) :
    (ofList elements).Perm elements := by
  induction elements with
  | nil => exact List.Perm.refl _
  | cons a rest ih =>
    obtain ⟨hnew, hrest⟩ := List.nodup_cons.mp h
    have hinsert : (ofList (a :: rest)).Perm (a :: ofList rest) :=
      perm_insert fun hmem => hnew (mem_ofList.mp hmem)
    exact hinsert.trans ((ih hrest).cons a)

/-- An ascending list with the members of another list is the set of that list. -/
theorem eq_ofList [Std.Irrefl (α := α) (· < ·)] (htrans : ∀ a b c : α, a < b → b < c → a < c)
    {elements ascending : List α} (h : ascending.Pairwise (· < ·))
    (hmem : ∀ x, x ∈ ascending ↔ x ∈ elements) : ascending = ofList elements := by
  have : Std.Antisymm (α := α) (· < ·) :=
    ⟨fun a b hab hba => absurd (htrans a b a hab hba) (Std.Irrefl.irrefl a)⟩
  refine h.eq_of_mem_iff (pairwise_ofList htrans elements) fun x => ?_
  rw [mem_ofList]
  exact hmem x

/-! ## Sorting first -/

omit [Std.Trichotomous (α := α) (· < ·)] in
/-- The members after an element was added before the first one that is not below it. -/
theorem mem_place {a x : α} {elements : List α} :
    x ∈ place a elements ↔ x = a ∨ x ∈ elements := by
  induction elements with
  | nil => exact List.mem_cons
  | cons b rest ih =>
    rw [place]
    split
    · rw [List.mem_cons, ih, List.mem_cons]
      exact or_left_comm
    · exact List.mem_cons

omit [Std.Trichotomous (α := α) (· < ·)] in
/-- Sorting leaves the members. -/
theorem mem_sort {x : α} {elements : List α} : x ∈ sort elements ↔ x ∈ elements := by
  induction elements with
  | nil => exact Iff.rfl
  | cons a rest ih =>
    have hplace : x ∈ sort (a :: rest) ↔ x = a ∨ x ∈ sort rest := mem_place
    rw [hplace, ih, List.mem_cons]

variable [Std.Irrefl (α := α) (· < ·)]

/-- A sorted list is still sorted when an element was added before the first one that is not below
it. -/
theorem pairwise_place (htrans : ∀ a b c : α, a < b → b < c → a < c) (a : α) {elements : List α}
    (h : elements.Pairwise fun earlier later => ¬later < earlier) :
    (place a elements).Pairwise fun earlier later => ¬later < earlier := by
  induction elements with
  | nil => exact List.pairwise_singleton _ a
  | cons b rest ih =>
    obtain ⟨hfirst, hrest⟩ := List.pairwise_cons.mp h
    rw [place]
    split
    · rename_i hlt
      refine List.pairwise_cons.mpr ⟨fun x hmem => ?_, ih hrest⟩
      rcases mem_place.mp hmem with rfl | hmem
      · exact fun hgt => Std.Irrefl.irrefl b (htrans b x b hlt hgt)
      · exact hfirst x hmem
    · rename_i hnot
      refine List.pairwise_cons.mpr ⟨fun x hmem hlt => ?_, h⟩
      rcases List.mem_cons.mp hmem with rfl | hmem
      · exact hnot hlt
      · by_cases hbelow : b < x
        · exact hnot (htrans b x a hbelow hlt)
        · have heq : b = x := Std.Trichotomous.trichotomous (r := (· < · : α → α → Prop)) b x hbelow
            (hfirst x hmem)
          exact hnot (heq ▸ hlt)

/-- Sorting puts no element before one that is below it. -/
theorem pairwise_sort (htrans : ∀ a b c : α, a < b → b < c → a < c) (elements : List α) :
    (sort elements).Pairwise fun earlier later => ¬later < earlier := by
  induction elements with
  | nil => exact List.Pairwise.nil
  | cons a rest ih => exact pairwise_place htrans a ih

variable [DecidableEq α]

omit [LT α] [DecidableLT α] [Std.Trichotomous (α := α) (· < ·)] [Std.Irrefl (α := α) (· < ·)] in
/-- Leaving out repetitions leaves the members. -/
theorem mem_dedup {x : α} {elements : List α} : x ∈ dedup elements ↔ x ∈ elements := by
  fun_induction dedup elements with
  | case1 => exact Iff.rfl
  | case2 a => exact Iff.rfl
  | case3 b rest ih =>
    rw [ih, List.mem_cons, List.mem_cons, List.mem_cons]
    exact ⟨Or.inr, fun h => h.elim Or.inl id⟩
  | case4 a b rest hne ih => rw [List.mem_cons, ih, ← List.mem_cons]

omit [DecidableLT α] [Std.Irrefl (α := α) (· < ·)] in
/-- Without repetitions a sorted list is strictly ascending. -/
theorem pairwise_dedup {elements : List α}
    (h : elements.Pairwise fun earlier later => ¬later < earlier) :
    (dedup elements).Pairwise (· < ·) := by
  fun_induction dedup elements with
  | case1 => exact List.Pairwise.nil
  | case2 a => exact List.pairwise_singleton _ a
  | case3 b rest ih => exact ih (List.pairwise_cons.mp h).2
  | case4 a b rest hne ih =>
    obtain ⟨hfirst, hrest⟩ := List.pairwise_cons.mp h
    refine List.pairwise_cons.mpr ⟨fun x hmem => ?_, ih hrest⟩
    have hlater := mem_dedup.mp hmem
    by_contra hnot
    have heq : a = x := Std.Trichotomous.trichotomous (r := (· < · : α → α → Prop)) a x hnot
      (hfirst x hlater)
    -- The element right behind `a` is not `a`, and what comes after it is not below it.
    rcases List.mem_cons.mp hlater with rfl | hrestmem
    · exact hne heq
    · refine hne (Std.Trichotomous.trichotomous (r := (· < · : α → α → Prop)) a b ?_
        (hfirst b List.mem_cons_self))
      exact heq ▸ (List.pairwise_cons.mp hrest).1 x hrestmem

/-- To sort a list and to leave out what is repeated gives the set of the list. -/
theorem dedup_sort (htrans : ∀ a b c : α, a < b → b < c → a < c) (elements : List α) :
    dedup (sort elements) = ofList elements :=
  eq_ofList htrans (pairwise_dedup (pairwise_sort htrans elements)) fun _ =>
    mem_dedup.trans mem_sort

end Epidemic.Ordered
