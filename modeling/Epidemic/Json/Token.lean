import Epidemic.Decimal.Literal

/-!
# JSON tokens

The first half of reading JSON: a text is cut into brackets, punctuation, words, numbers and
strings. Numbers are kept as they are written. A string is kept as its content, unless escapes in
it name unpaired surrogates: it then has no content, which matters only to those who want to keep
it.
-/

namespace Epidemic.Json

/-- The pieces of a JSON text. -/
inductive Token where
  /-- The bracket that opens an array. -/
  | openArray
  /-- The bracket that closes an array. -/
  | closeArray
  /-- The brace that opens an object. -/
  | openObject
  /-- The brace that closes an object. -/
  | closeObject
  /-- The sign between two items or members. -/
  | comma
  /-- The sign between a key and its value. -/
  | colon
  /-- The word for no value. -/
  | null
  /-- A truth value. -/
  | bool (value : Bool)
  /-- A number as it is written. -/
  | number (literal : Decimal.Literal)
  /-- A string; none if it names unpaired surrogates. -/
  | string (content : Option String)

namespace Token

/-- Whether a character may stand between tokens. -/
def isBlank (c : Char) : Bool := c = ' ' || c = '\n' || c = '\t' || c = '\r'

/-! ## Strings -/

/-- A character of a string, or the half of one that an escape names. -/
inductive Atom where
  /-- A character. -/
  | char (c : Char)
  /-- A surrogate code unit. -/
  | surrogate (unit : Nat)

/-- The value of a hexadecimal digit. -/
def hexDigit? (c : Char) : Option Nat :=
  if '0' ≤ c ∧ c ≤ '9' then some (c.toNat - '0'.toNat)
  else if 'a' ≤ c ∧ c ≤ 'f' then some (c.toNat - 'a'.toNat + 10)
  else if 'A' ≤ c ∧ c ≤ 'F' then some (c.toNat - 'A'.toNat + 10)
  else none

/-- What four hexadecimal digits name. -/
def codeUnit? (a b c d : Char) : Option Atom := do
  let unit := (((← hexDigit? a) * 16 + (← hexDigit? b)) * 16 + (← hexDigit? c)) * 16 + (← hexDigit? d)
  return if 0xD800 ≤ unit ∧ unit < 0xE000 then .surrogate unit else .char (Char.ofNat unit)

/-- What a single character after the escape sign stands for. -/
def escape? (c : Char) : Option Char :=
  match c with
  | '"' => some '"'
  | '\\' => some '\\'
  | '/' => some '/'
  | 'b' => some '\x08'
  | 'f' => some '\x0c'
  | 'n' => some '\n'
  | 'r' => some '\r'
  | 't' => some '\t'
  | _ => none

/-- The atoms of a string up to its closing quote, and the text after the quote. Control characters
have to be escaped. -/
def scanString : List Char → Option (List Atom × List Char)
  | [] => none
  | '"' :: rest => some ([], rest)
  | '\\' :: 'u' :: a :: b :: c :: d :: rest => do
    let atom ← codeUnit? a b c d
    let (atoms, after) ← scanString rest
    return (atom :: atoms, after)
  | '\\' :: escaped :: rest => do
    let c ← escape? escaped
    let (atoms, after) ← scanString rest
    return (.char c :: atoms, after)
  | c :: rest =>
    if c < ' ' then none
    else do
      let (atoms, after) ← scanString rest
      return (.char c :: atoms, after)

/-- The characters of a list of atoms; a high surrogate joins with the low one that follows it, and
any other surrogate has no meaning. -/
def join? : List Atom → Option (List Char)
  | [] => some []
  | .char c :: rest => (c :: ·) <$> join? rest
  | .surrogate high :: .surrogate low :: rest =>
    if high < 0xDC00 ∧ 0xDC00 ≤ low then
      (Char.ofNat (0x10000 + (high - 0xD800) * 0x400 + (low - 0xDC00)) :: ·) <$> join? rest
    else none
  | .surrogate _ :: _ => none

/-- A string leaves less text than it was scanned from. -/
theorem length_scanString_lt {text : List Char} {atoms : List Atom} {after : List Char}
    (h : scanString text = some (atoms, after)) : after.length < text.length := by
  fun_induction scanString text generalizing atoms with
  | case1 => cases h
  | case2 rest =>
    cases h
    exact Nat.lt_succ_self _
  | case3 a b c d rest ih =>
    simp only [Option.bind_eq_bind, Option.bind_eq_some_iff, Prod.exists] at h
    obtain ⟨_, _, _, _, hs, h⟩ := h
    cases h
    have := ih hs
    simp only [List.length_cons]
    omega
  | case4 escaped rest _ ih =>
    simp only [Option.bind_eq_bind, Option.bind_eq_some_iff, Prod.exists] at h
    obtain ⟨_, _, _, _, hs, h⟩ := h
    cases h
    have := ih hs
    simp only [List.length_cons]
    omega
  | case5 => cases h
  | case6 c rest _ _ _ _ ih =>
    simp only [Option.bind_eq_bind, Option.bind_eq_some_iff, Prod.exists] at h
    obtain ⟨_, _, hs, h⟩ := h
    cases h
    have := ih hs
    simp only [List.length_cons]
    omega

/-! ## Numbers -/

/-- The digits before the point: a zero alone, or any digits that do not begin with zero. -/
def scanWhole : List Char → Option (List Nat × List Char)
  | [] => none
  | c :: rest =>
    if c = '0' then some ([0], rest)
    else if c.isDigit then some (Decimal.takeDigits (c :: rest))
    else none

/-- The digits after a point, if there is a point; at least one must follow it. -/
def scanFraction : List Char → Option (Option (List Nat) × List Char)
  | '.' :: rest =>
    let (digits, after) := Decimal.takeDigits rest
    if digits.isEmpty then none else some (some digits, after)
  | text => some (none, text)

/-- The digits of an exponent, of which there must be one, with its sign. -/
def scanExponentDigits (negative : Bool) (text : List Char) : Option (Option Int × List Char) :=
  let (digits, after) := Decimal.takeDigits text
  let size : Int := Decimal.ofDigits digits
  if digits.isEmpty then none else some (some (if negative then -size else size), after)

/-- The exponent, if one is written. -/
def scanExponent : List Char → Option (Option Int × List Char)
  | c :: rest =>
    if c = 'e' ∨ c = 'E' then
      match rest with
      | '-' :: digits => scanExponentDigits true digits
      | '+' :: digits => scanExponentDigits false digits
      | digits => scanExponentDigits false digits
    else some (none, c :: rest)
  | [] => some (none, [])

/-- A number, whose sign was read already, and the text after it. -/
def scanNumber (negative : Bool) (text : List Char) : Option (Decimal.Literal × List Char) := do
  let (whole, text) ← scanWhole text
  let (fraction, text) ← scanFraction text
  let (exponent, text) ← scanExponent text
  return (⟨negative, whole, fraction, exponent⟩, text)

/-- The digits before the point are not empty. -/
theorem length_scanWhole_lt {text after : List Char} {digits : List Nat}
    (h : scanWhole text = some (digits, after)) : after.length < text.length := by
  cases text with
  | nil => cases h
  | cons c rest =>
    rw [scanWhole] at h
    split at h
    · cases h
      exact Nat.lt_succ_self _
    · split at h
      · rename_i hd
        have h := congrArg Prod.snd (Option.some.inj h)
        simp only [Decimal.takeDigits, List.dropWhile_cons_of_pos hd] at h
        have := Decimal.length_takeDigits_le rest
        simp only [Decimal.takeDigits, h] at this
        exact Nat.lt_succ_of_le this
      · cases h

/-- A fraction never lengthens the text. -/
theorem length_scanFraction_le {text after : List Char} {digits : Option (List Nat)}
    (h : scanFraction text = some (digits, after)) : after.length ≤ text.length := by
  unfold scanFraction at h
  split at h
  · rename_i rest
    have := Decimal.length_takeDigits_le rest
    dsimp only at h
    split at h
    · cases h
    · cases h
      simp only [List.length_cons]
      omega
  · cases h
    exact Nat.le_refl _

/-- The digits of an exponent never lengthen the text. -/
theorem length_scanExponentDigits_le {negative : Bool} {text after : List Char}
    {exponent : Option Int} (h : scanExponentDigits negative text = some (exponent, after)) :
    after.length ≤ text.length := by
  have := Decimal.length_takeDigits_le text
  unfold scanExponentDigits at h
  dsimp only at h
  split at h
  · cases h
  · cases h
    exact this

/-- An exponent never lengthens the text. -/
theorem length_scanExponent_le {text after : List Char} {exponent : Option Int}
    (h : scanExponent text = some (exponent, after)) : after.length ≤ text.length := by
  unfold scanExponent at h
  split at h
  · split at h
    · split at h <;>
      · have := length_scanExponentDigits_le h
        simp only [List.length_cons] at this ⊢
        omega
    · cases h
      exact Nat.le_refl _
  · cases h
    exact Nat.le_refl _

/-- A number leaves less text than it was scanned from. -/
theorem length_scanNumber_lt {negative : Bool} {text after : List Char}
    {literal : Decimal.Literal} (h : scanNumber negative text = some (literal, after)) :
    after.length < text.length := by
  simp only [scanNumber, Option.bind_eq_bind, Option.bind_eq_some_iff, Prod.exists] at h
  obtain ⟨_, _, hw, _, _, hf, _, _, he, h⟩ := h
  cases h
  have := length_scanWhole_lt hw
  have := length_scanFraction_le hf
  have := length_scanExponent_le he
  omega

/-! ## Texts -/

/-- The token that a character is by itself. -/
def mark? (c : Char) : Option Token :=
  match c with
  | '[' => some .openArray
  | ']' => some .closeArray
  | '\x7b' => some .openObject
  | '\x7d' => some .closeObject
  | ',' => some .comma
  | ':' => some .colon
  | _ => none

/-- The token at the beginning of a text that does not begin with a blank, and the text after
it. -/
def scan : List Char → Option (Token × List Char)
  | [] => none
  | '"' :: rest => do
    let (atoms, after) ← scanString rest
    return (.string ((join? atoms).map String.ofList), after)
  | 'n' :: 'u' :: 'l' :: 'l' :: rest => some (.null, rest)
  | 't' :: 'r' :: 'u' :: 'e' :: rest => some (.bool true, rest)
  | 'f' :: 'a' :: 'l' :: 's' :: 'e' :: rest => some (.bool false, rest)
  | '-' :: rest => do
    let (literal, after) ← scanNumber true rest
    return (.number literal, after)
  | c :: rest =>
    match mark? c with
    | some token => some (token, rest)
    | none => do
      let (literal, after) ← scanNumber false (c :: rest)
      return (.number literal, after)

/-- A token leaves less text than it was scanned from. -/
theorem length_scan_lt {text after : List Char} {token : Token}
    (h : scan text = some (token, after)) : after.length < text.length := by
  unfold scan at h
  split at h
  · cases h
  · simp only [Option.bind_eq_bind, Option.bind_eq_some_iff, Prod.exists] at h
    obtain ⟨_, _, hs, h⟩ := h
    cases h
    have := length_scanString_lt hs
    simp only [List.length_cons]
    omega
  · cases h
    simp only [List.length_cons]
    omega
  · cases h
    simp only [List.length_cons]
    omega
  · cases h
    simp only [List.length_cons]
    omega
  · simp only [Option.bind_eq_bind, Option.bind_eq_some_iff, Prod.exists] at h
    obtain ⟨_, _, hs, h⟩ := h
    cases h
    have := length_scanNumber_lt hs
    simp only [List.length_cons]
    omega
  · split at h
    · cases h
      exact Nat.lt_succ_self _
    · simp only [Option.bind_eq_bind, Option.bind_eq_some_iff, Prod.exists] at h
      obtain ⟨_, _, hs, h⟩ := h
      cases h
      exact length_scanNumber_lt hs

/-- All tokens of a text; none if it cannot be cut into tokens. -/
def ofText (text : List Char) : Option (List Token) :=
  match text with
  | [] => some []
  | c :: rest =>
    if isBlank c then ofText rest
    else
      match h : scan (c :: rest) with
      | none => none
      | some (token, after) =>
        have : after.length < rest.length + 1 := length_scan_lt h
        (token :: ·) <$> ofText after
termination_by text.length

end Token

end Epidemic.Json
