import Epidemic.Decimal.Digits
import Mathlib.Data.List.Basic

/-!
# Texts of natural numbers

The text of a number consists of its digits, the first of which is zero only if the number is. So it
reads as digits up to its end whatever follows, unless another digit does, and different numbers have
different texts.
-/

namespace Epidemic.Decimal

/-- Digits are less than ten. -/
theorem lt_of_mem_digitsOf {n digit : Nat} (h : digit ∈ digitsOf n) : digit < 10 := by
  induction n using Nat.strongRecOn with
  | ind n ih =>
    rw [digitsOf] at h
    split at h
    · rename_i hlt
      rw [List.mem_singleton.mp h]
      exact hlt
    · rcases List.mem_append.mp h with hmem | hlast
      · exact ih (n / 10) (by omega) hmem
      · rw [List.mem_singleton.mp hlast]
        omega

/-- A digit is read back from its character. -/
theorem digit?_digitChar {digit : Nat} (h : digit < 10) :
    digit? (digitChar digit) = some digit := by
  have hall : ∀ digit : Fin 10, digit? (digitChar digit) = some digit.val := by decide
  exact hall ⟨digit, h⟩

/-- The digits of a number are read back from its text. -/
theorem filterMap_digit?_natText (n : Nat) : (natText n).filterMap digit? = digitsOf n := by
  have hcongr : (digitsOf n).filterMap (fun digit => digit? (digitChar digit)) =
      (digitsOf n).filterMap some :=
    List.filterMap_congr fun digit hmem => digit?_digitChar (lt_of_mem_digitsOf hmem)
  rw [natText, List.filterMap_map]
  exact hcongr.trans List.filterMap_some

/-- Different numbers have different texts. -/
theorem natText_injective {a b : Nat} (h : natText a = natText b) : a = b := by
  rw [← ofDigits_digitsOf a, ← ofDigits_digitsOf b, ← filterMap_digit?_natText a, h,
    filterMap_digit?_natText b]

/-- The character of a digit is one. -/
theorem isDigit_digitChar {digit : Nat} (h : digit < 10) : (digitChar digit).isDigit = true := by
  have hall : ∀ digit : Fin 10, (digitChar digit).isDigit = true := by decide
  exact hall ⟨digit, h⟩

/-- The text of a number consists of digits. -/
theorem isDigit_of_mem_natText {n : Nat} {c : Char} (h : c ∈ natText n) : c.isDigit = true := by
  obtain ⟨digit, hmem, rfl⟩ := List.mem_map.mp h
  exact isDigit_digitChar (lt_of_mem_digitsOf hmem)

/-- A number has at least one digit. -/
theorem natText_ne_nil (n : Nat) : natText n ≠ [] := by
  rw [natText, digitsOf]
  split
  · exact List.cons_ne_nil _ _
  · rw [List.map_append]
    exact List.append_ne_nil_of_right_ne_nil _ (List.cons_ne_nil _ _)

/-- The first digit of a number other than zero is none. -/
theorem exists_digitsOf_eq_cons {n : Nat} (h : n ≠ 0) :
    ∃ first rest, digitsOf n = first :: rest ∧ first ≠ 0 := by
  induction n using Nat.strongRecOn with
  | ind n ih =>
    rw [digitsOf]
    split
    · exact ⟨n, [], rfl, h⟩
    · obtain ⟨first, rest, heq, hfirst⟩ := ih (n / 10) (by omega) (by omega)
      refine ⟨first, rest ++ [n % 10], ?_, hfirst⟩
      rw [heq]
      rfl

/-- Of a text of digits, and another one after it that begins with none, the digits are taken. -/
theorem takeDigits_natText_append (n : Nat) {rest : List Char}
    (h : ∀ c ∈ rest.head?, c.isDigit = false) :
    takeDigits (natText n ++ rest) = (digitsOf n, rest) := by
  have hdigits : ∀ c ∈ natText n, c.isDigit = true := fun c hc => isDigit_of_mem_natText hc
  have hnone : rest.takeWhile Char.isDigit = [] ∧ rest.dropWhile Char.isDigit = rest := by
    cases rest with
    | nil => exact ⟨rfl, rfl⟩
    | cons c others =>
      have hc : ¬c.isDigit = true := by
        rw [h c rfl]
        exact Bool.false_ne_true
      exact ⟨List.takeWhile_cons_of_neg hc, List.dropWhile_cons_of_neg hc⟩
  rw [takeDigits, List.takeWhile_append_of_pos hdigits, List.dropWhile_append_of_pos hdigits,
    hnone.1, hnone.2, List.append_nil, filterMap_digit?_natText]

end Epidemic.Decimal
