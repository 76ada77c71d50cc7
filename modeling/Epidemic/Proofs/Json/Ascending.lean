import Epidemic.Proofs.Payload
import Mathlib.Data.List.Forall2
import Mathlib.Data.String.Basic

/-!
# Named values in ascending order

Merges keep the names in ascending order, so the values by name say everything about the result of
merges: two of them are the same list if they give every name the same value. The same holds of any
other sense in which values may be the same, in particular of the equality of values, in which the
two zeros are equal.
-/

namespace Epidemic.Json.Members

/-- Whether the names are in ascending order, each of them once. -/
def Ascending (members : Members) : Prop := members.Pairwise fun a b => a.1 < b.1

/-- Whether two lists have the same names in the same order, with values that are the same in some
sense. -/
def Alike (same : Value → Value → Prop) (a b : Members) : Prop :=
  List.Forall₂ (fun entry entry' => entry.1 = entry'.1 ∧ same entry.2 entry'.2) a b

variable {same : Value → Value → Prop} {members : Members} {name : String}

/-- An inserted name is the given one or one that was there. -/
theorem mem_insert {value : Value} {entry : String × Value}
    (h : entry ∈ insert name value members) : entry.1 = name ∨ entry ∈ members := by
  induction members with
  | nil =>
    rw [List.mem_singleton.mp h]
    exact Or.inl rfl
  | cons first rest ih =>
    obtain ⟨key, old⟩ := first
    rw [insert] at h
    split at h
    · rcases List.mem_cons.mp h with rfl | hold
      · exact Or.inl rfl
      · exact Or.inr hold
    · split at h
      · rcases List.mem_cons.mp h with rfl | hrest
        · exact Or.inr List.mem_cons_self
        · exact (ih hrest).imp_right (List.mem_cons_of_mem _)
      · rcases List.mem_cons.mp h with rfl | hrest
        · exact Or.inl rfl
        · exact Or.inr (List.mem_cons_of_mem _ hrest)

/-- Insertion keeps the order. -/
theorem Ascending.insert (h : Ascending members) (name : String) (value : Value) :
    Ascending (insert name value members) := by
  induction members with
  | nil => exact List.pairwise_singleton _ _
  | cons first rest ih =>
    obtain ⟨key, old⟩ := first
    obtain ⟨hfirst, hrest⟩ := List.pairwise_cons.mp h
    rw [Members.insert]
    split
    · rename_i hlt
      refine List.pairwise_cons.mpr ⟨fun entry hmem => ?_, h⟩
      rcases List.mem_cons.mp hmem with rfl | hlater
      · exact hlt
      · exact lt_trans hlt (hfirst entry hlater)
    · rename_i hnot
      split
      · rename_i hlt
        refine List.pairwise_cons.mpr ⟨fun entry hmem => ?_, ih hrest⟩
        rcases mem_insert hmem with heq | hold
        · rw [heq]
          exact hlt
        · exact hfirst entry hold
      · rename_i hnot'
        have heq : name = key := le_antisymm (not_lt.mp hnot') (not_lt.mp hnot)
        subst heq
        exact List.pairwise_cons.mpr ⟨hfirst, hrest⟩

/-- Merges keep the order. -/
theorem Ascending.merge (h : Ascending members) (updates : List (String × Value)) :
    Ascending (merge members updates) := by
  induction updates generalizing members with
  | nil => exact h
  | cons update rest ih => exact ih (h.insert update.1 update.2)

/-- A name below all names has no value. -/
theorem get?_eq_none (h : ∀ entry ∈ members, name < entry.1) : get? name members = none := by
  induction members with
  | nil => rfl
  | cons first rest ih =>
    obtain ⟨key, value⟩ := first
    have hne : key ≠ name := ne_of_gt (h (key, value) List.mem_cons_self)
    rw [get?, if_neg hne]
    exact ih fun entry hmem => h entry (List.mem_cons_of_mem _ hmem)

/-- A name below all names of an ascending list has no value. -/
theorem Ascending.get?_eq_none {key : String} {value : Value} {rest : Members}
    (h : Ascending ((key, value) :: rest)) (hlt : name < key) :
    get? name ((key, value) :: rest) = none := by
  refine Members.get?_eq_none fun entry hmem => ?_
  rcases List.mem_cons.mp hmem with rfl | hlater
  · exact hlt
  · exact lt_trans hlt ((List.pairwise_cons.mp h).1 entry hlater)

/-- The first names of two ascending lists that give values to the same names are equal. -/
theorem Ascending.first_eq {a b : Members} {key key' : String} {value value' : Value}
    (ha : Ascending ((key, value) :: a)) (hb : Ascending ((key', value') :: b))
    (h : ∀ name, Option.Rel same (get? name ((key, value) :: a)) (get? name ((key', value') :: b))) :
    key = key' := by
  rcases lt_trichotomy key key' with hlt | heq | hgt
  · have hkey := h key
    rw [hb.get?_eq_none hlt, get?, if_pos rfl] at hkey
    cases hkey
  · exact heq
  · have hkey := h key'
    rw [ha.get?_eq_none hgt, get?, if_pos rfl] at hkey
    cases hkey

/-- Ascending lists are alike if they give every name values that are the same. -/
theorem alike_of_get? {a b : Members} (ha : Ascending a) (hb : Ascending b)
    (h : ∀ name, Option.Rel same (get? name a) (get? name b)) : Alike same a b := by
  induction a generalizing b with
  | nil =>
    cases b with
    | nil => exact .nil
    | cons first rest =>
      have hfirst := h first.1
      rw [get?, get?, if_pos rfl] at hfirst
      cases hfirst
  | cons first rest ih =>
    obtain ⟨key, value⟩ := first
    cases b with
    | nil =>
      have hfirst := h key
      rw [get?, get?, if_pos rfl] at hfirst
      cases hfirst
    | cons first' rest' =>
      obtain ⟨key', value'⟩ := first'
      obtain rfl := ha.first_eq hb h
      obtain ⟨hbelow, hrest⟩ := List.pairwise_cons.mp ha
      obtain ⟨hbelow', hrest'⟩ := List.pairwise_cons.mp hb
      have hvalue : same value value' := by
        have hkey := h key
        rw [get?, get?, if_pos rfl, if_pos rfl] at hkey
        cases hkey with
        | some hsame => exact hsame
      refine .cons ⟨rfl, hvalue⟩ (ih hrest hrest' fun name => ?_)
      by_cases heq : key = name
      · subst heq
        rw [Members.get?_eq_none hbelow, Members.get?_eq_none hbelow']
        exact .none
      · have hname := h name
        rw [get?, get?, if_neg heq, if_neg heq] at hname
        exact hname

/-- Lists that are alike with equal values are equal. -/
theorem eq_of_alike {a b : Members} (h : Alike (· = ·) a b) : a = b := by
  induction h with
  | nil => rfl
  | cons hfirst _ ih => rw [Prod.ext hfirst.1 hfirst.2, ih]

/-- Lists that are alike up to the equality of values are equal objects. -/
theorem membersEqual_of_alike {a b : Members} (h : Alike (fun v w => v.equals w = true) a b) :
    Value.membersEqual a b = true := by
  induction h with
  | nil => rfl
  | @cons first first' rest rest' hfirst _ ih =>
    obtain ⟨key, value⟩ := first
    obtain ⟨key', value'⟩ := first'
    obtain ⟨hkey, hvalue⟩ := hfirst
    rw [Value.membersEqual, hvalue, ih, Bool.and_true, Bool.and_true]
    exact beq_iff_eq.mpr hkey

end Epidemic.Json.Members
