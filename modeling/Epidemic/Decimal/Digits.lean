/-!
# Decimal digits of natural numbers

The digits of a number, most significant first, and the number of a list of digits.
-/

namespace Epidemic.Decimal

/-- The decimal digits of a number, most significant first; zero has one digit. -/
def digitsOf (n : Nat) : List Nat :=
  if n < 10 then [n] else digitsOf (n / 10) ++ [n % 10]

/-- A power of ten. -/
def tenTo (n : Nat) : Nat := Nat.pow 10 n

/-- The number written by a list of digits. -/
def ofDigits (digits : List Nat) : Nat :=
  digits.foldl (fun value digit => 10 * value + digit) 0

/-- The character of a digit. -/
def digitChar (digit : Nat) : Char := Char.ofNat (48 + digit)

/-- The digit of a character, if it is one of the ten. -/
def digit? (c : Char) : Option Nat :=
  if c.isDigit then some (c.toNat - 48) else none

/-- The decimal text of a natural number. -/
def natText (n : Nat) : List Char := (digitsOf n).map digitChar

/-- The decimal text of an integer. -/
def intText (n : Int) : List Char :=
  if n < 0 then '-' :: natText n.natAbs else natText n.natAbs

/-- The leading digits of a text, and the text after them. -/
def takeDigits (text : List Char) : List Nat × List Char :=
  ((text.takeWhile Char.isDigit).filterMap digit?, text.dropWhile Char.isDigit)

/-- What is written in digits is the number. -/
theorem ofDigits_digitsOf (n : Nat) : ofDigits (digitsOf n) = n := by
  induction n using Nat.strongRecOn with
  | ind n ih =>
    rw [digitsOf]
    split
    · simp [ofDigits]
    · have h := ih (n / 10) (by omega)
      simp only [ofDigits, List.foldl_append, List.foldl_cons, List.foldl_nil] at h ⊢
      rw [h]
      omega

/-- Taking digits never lengthens a text. -/
theorem length_takeDigits_le (text : List Char) : (takeDigits text).2.length ≤ text.length :=
  (List.dropWhile_suffix Char.isDigit).length_le

end Epidemic.Decimal
