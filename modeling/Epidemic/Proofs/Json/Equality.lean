import Epidemic.Json.Value

/-!
# Equal values

Equality of values is symmetric and transitive. It is not reflexive, since a double that is not a
number equals nothing.
-/

namespace Epidemic

namespace Binary64

/-- Two doubles are equal in either order. -/
theorem equals_symm {x y : Binary64} (h : x.equals y = true) : y.equals x = true := by
  simp only [equals, Bool.and_eq_true, Bool.or_eq_true, decide_eq_true_eq] at h ⊢
  obtain ⟨⟨hx, hy⟩, hmagnitude, hsign⟩ := h
  refine ⟨⟨hy, hx⟩, hmagnitude.symm, ?_⟩
  rw [← hmagnitude]
  exact hsign.imp Eq.symm id

/-- What equals a double equals all that this one equals. -/
theorem equals_trans {x y z : Binary64} (h : x.equals y = true) (h' : y.equals z = true) :
    x.equals z = true := by
  simp only [equals, Bool.and_eq_true, Bool.or_eq_true, decide_eq_true_eq] at h h' ⊢
  obtain ⟨⟨hx, -⟩, hmagnitude, hsign⟩ := h
  obtain ⟨⟨-, hz⟩, hmagnitude', hsign'⟩ := h'
  refine ⟨⟨hx, hz⟩, hmagnitude.trans hmagnitude', ?_⟩
  rcases hsign with hsign | hzero
  · rw [hsign, hmagnitude]
    exact hsign'
  · exact Or.inr hzero

end Binary64

namespace Json.Value

mutual

/-- Two values are equal in either order. -/
theorem equals_symm : (a b : Value) → a.equals b = true → b.equals a = true
  | .null, b, h => by cases b <;> first | rfl | cases h
  | .bool _, b, h => by cases b <;> simp_all [equals]
  | .int _, b, h => by cases b <;> simp_all [equals]
  | .float _, b, h => by
    cases b <;> simp only [equals, Bool.false_eq_true] at h ⊢
    exact Binary64.equals_symm h
  | .string _, b, h => by cases b <;> simp_all [equals]
  | .array items, b, h => by
    cases b <;> simp only [equals, Bool.false_eq_true] at h ⊢
    exact itemsEqual_symm items _ h
  | .object members, b, h => by
    cases b <;> simp only [equals, Bool.false_eq_true] at h ⊢
    exact membersEqual_symm members _ h

/-- Two lists of values are equal in either order. -/
theorem itemsEqual_symm : (items others : List Value) → itemsEqual items others = true →
    itemsEqual others items = true
  | [], others, h => by cases others <;> simp_all [itemsEqual]
  | item :: rest, others, h => by
    cases others with
    | nil => simp [itemsEqual] at h
    | cons other rest' =>
      simp only [itemsEqual, Bool.and_eq_true] at h ⊢
      exact ⟨equals_symm item other h.1, itemsEqual_symm rest rest' h.2⟩

/-- Two lists of named values are equal in either order. -/
theorem membersEqual_symm : (members others : List (String × Value)) →
    membersEqual members others = true → membersEqual others members = true
  | [], others, h => by cases others <;> simp_all [membersEqual]
  | (name, value) :: rest, others, h => by
    cases others with
    | nil => simp [membersEqual] at h
    | cons other rest' =>
      obtain ⟨name', value'⟩ := other
      simp only [membersEqual, Bool.and_eq_true, beq_iff_eq] at h ⊢
      exact ⟨⟨h.1.1.symm, equals_symm value value' h.1.2⟩, membersEqual_symm rest rest' h.2⟩

end

mutual

/-- What equals a value equals all that this one equals. -/
theorem equals_trans : (a b c : Value) → a.equals b = true → b.equals c = true →
    a.equals c = true
  | .null, b, c, h, h' => by cases b <;> first | exact h' | cases h
  | .bool _, b, c, h, h' => by cases b <;> cases c <;> simp_all [equals]
  | .int _, b, c, h, h' => by cases b <;> cases c <;> simp_all [equals]
  | .float _, b, c, h, h' => by
    cases b <;> cases c <;> simp only [equals, Bool.false_eq_true] at h h' ⊢
    exact Binary64.equals_trans h h'
  | .string _, b, c, h, h' => by cases b <;> cases c <;> simp_all [equals]
  | .array items, b, c, h, h' => by
    cases b <;> cases c <;> simp only [equals, Bool.false_eq_true] at h h' ⊢
    exact itemsEqual_trans items _ _ h h'
  | .object members, b, c, h, h' => by
    cases b <;> cases c <;> simp only [equals, Bool.false_eq_true] at h h' ⊢
    exact membersEqual_trans members _ _ h h'

/-- What equals a list of values equals all that this one equals. -/
theorem itemsEqual_trans : (first second third : List Value) → itemsEqual first second = true →
    itemsEqual second third = true → itemsEqual first third = true
  | [], second, third, h, h' => by cases second <;> simp_all [itemsEqual]
  | item :: rest, second, third, h, h' => by
    cases second <;> cases third <;> simp only [itemsEqual, Bool.false_eq_true, Bool.and_eq_true]
      at h h' ⊢
    exact ⟨equals_trans item _ _ h.1 h'.1, itemsEqual_trans rest _ _ h.2 h'.2⟩

/-- What equals a list of named values equals all that this one equals. -/
theorem membersEqual_trans : (first second third : List (String × Value)) →
    membersEqual first second = true → membersEqual second third = true →
      membersEqual first third = true
  | [], second, third, h, h' => by cases second <;> simp_all [membersEqual]
  | (name, value) :: rest, second, third, h, h' => by
    cases second <;> cases third <;> simp only [membersEqual, Bool.false_eq_true, Bool.and_eq_true,
      beq_iff_eq] at h h' ⊢
    exact ⟨⟨h.1.1.trans h'.1.1, equals_trans value _ _ h.1.2 h'.1.2⟩,
      membersEqual_trans rest _ _ h.2 h'.2⟩

end

end Json.Value

end Epidemic
