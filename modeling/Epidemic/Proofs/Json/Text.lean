import Epidemic.Json.Document
import Epidemic.Json.Writer
import Epidemic.Proofs.Decimal

/-!
# Documents of written values

The text that is written for a value is the text of a document of the same shape. What stands after
the text is read in the state after the value, so the texts of the items of an array and of the
members of an object can be read one after the other.

This concerns values without doubles, with integers that fit in 64 bits.
-/

namespace Epidemic.Json

/-- The literal that is written for an integer. -/
def literalOf (n : Int) : Decimal.Literal := ⟨n < 0, Decimal.digitsOf n.natAbs, none, none⟩

namespace Value

mutual

/-- Whether a value holds no doubles, and no integers but the signed and the unsigned ones of 64
bits. -/
def isExact : Value → Bool
  | .float _ => false
  | .int n => decide (-Width.words64 ≤ 2 * n ∧ n < Width.words64)
  | .array items => itemsExact items
  | .object members => membersExact members
  | _ => true

/-- The same for a list of values. -/
def itemsExact : List Value → Bool
  | [] => true
  | item :: rest => item.isExact && itemsExact rest

/-- The same for a list of named values. -/
def membersExact : List (String × Value) → Bool
  | [] => true
  | (_, item) :: rest => item.isExact && membersExact rest

end

mutual

/-- The document of the text that is written for an exact value. -/
def document : Value → Document
  | .null => .null
  | .bool value => .bool value
  | .int n => .number (literalOf n)
  | .float _ => .null
  | .string text => .string (some text)
  | .array items => .array (itemDocuments items)
  | .object members => .object (memberDocuments members)

/-- The documents of the items of an array. -/
def itemDocuments : List Value → List Document
  | [] => []
  | item :: rest => item.document :: itemDocuments rest

/-- The documents of the members of an object. -/
def memberDocuments : List (String × Value) → List (Option String × Document)
  | [] => []
  | (name, item) :: rest => (some name, item.document) :: memberDocuments rest

end

end Value

namespace Token

/-! ## Strings -/

/-- A hexadecimal digit is read back from its character. -/
theorem hexDigit?_hexDigit {n : Nat} (h : n < 16) : hexDigit? (hexDigit n) = some n := by
  have hall : ∀ n : Fin 16, hexDigit? (hexDigit n) = some n.val := by decide
  exact hall ⟨n, h⟩

/-- Two hexadecimal digits after two zeros name the control character with this number. -/
theorem codeUnit?_hexDigit {c : Char} (h : c < ' ') :
    codeUnit? '0' '0' (hexDigit (c.toNat / 16)) (hexDigit (c.toNat % 16)) = some (.char c) := by
  have hsmall : c.toNat < 32 := h
  have hhigh : hexDigit? (hexDigit (c.toNat / 16)) = some (c.toNat / 16) :=
    hexDigit?_hexDigit (by omega)
  have hlow : hexDigit? (hexDigit (c.toNat % 16)) = some (c.toNat % 16) :=
    hexDigit?_hexDigit (by omega)
  have hzero : hexDigit? '0' = some 0 := by decide
  have hunit : ((0 * 16 + 0) * 16 + c.toNat / 16) * 16 + c.toNat % 16 = c.toNat := by omega
  rw [codeUnit?, hhigh, hlow, hzero]
  simp only [Option.bind_eq_bind, Option.bind_some, Option.pure_def, hunit, Char.ofNat_toNat]
  rw [if_neg (by omega)]

variable {c : Char} {rest after : List Char} {atoms : List Atom}

/-- An escaped character of a string stands for another one. -/
theorem scanString_escaped {escaped : Char} (h : scanString rest = some (atoms, after))
    (hc : escape? escaped = some c) :
    scanString ('\\' :: escaped :: rest) = some (.char c :: atoms, after) := by
  have hunicode : escaped ≠ 'u' := by
    rintro rfl
    cases hc
  rw [scanString.eq_4 _ _ fun _ _ _ _ _ hu _ => hunicode hu, hc, h]
  rfl

/-- A character of a string that needs no escape stands for itself. -/
theorem scanString_plain (h : scanString rest = some (atoms, after)) (hquote : c ≠ '"')
    (hescape : c ≠ '\\') (hprintable : ' ' ≤ c) :
    scanString (c :: rest) = some (.char c :: atoms, after) := by
  have hcontrol : ¬c < ' ' := Char.not_lt.mpr hprintable
  rw [scanString.eq_5 _ _ hquote (fun _ _ _ _ _ hc _ => hescape hc) fun _ _ hc _ => hescape hc,
    if_neg hcontrol, h]
  rfl

/-- A character is read back from how it is written in a string. -/
theorem scanString_escapeChar (h : scanString rest = some (atoms, after)) :
    scanString (escapeChar c ++ rest) = some (.char c :: atoms, after) := by
  have hletter (escaped : Char) (hc : escape? escaped = some c) :
      scanString (['\\', escaped] ++ rest) = some (.char c :: atoms, after) :=
    scanString_escaped h hc
  unfold escapeChar
  split_ifs with hquote hescape hprintable hback hfeed hline hreturn htab
  · exact hletter '"' (congrArg some hquote.symm)
  · exact hletter '\\' (congrArg some hescape.symm)
  · exact scanString_plain h hquote hescape hprintable
  · exact hletter 'b' (congrArg some hback.symm)
  · exact hletter 'f' (congrArg some hfeed.symm)
  · exact hletter 'n' (congrArg some hline.symm)
  · exact hletter 'r' (congrArg some hreturn.symm)
  · exact hletter 't' (congrArg some htab.symm)
  · have hcontrol : c < ' ' := Char.not_le.mp hprintable
    simp only [List.cons_append, List.nil_append]
    rw [scanString, codeUnit?_hexDigit hcontrol, h]
    rfl

/-- The characters of a string are read back up to its closing quote. -/
theorem scanString_flatMap_escapeChar (text rest : List Char) :
    scanString (text.flatMap escapeChar ++ '"' :: rest) = some (text.map .char, rest) := by
  induction text with
  | nil => rfl
  | cons c text ih =>
    rw [List.flatMap_cons, List.append_assoc]
    exact scanString_escapeChar ih

/-- Characters join to themselves. -/
theorem join?_map_char (text : List Char) : join? (text.map .char) = some text := by
  induction text with
  | nil => rfl
  | cons c text ih =>
    rw [List.map_cons, join?, ih]
    rfl

/-- A string is read back from its text in quotes. -/
theorem scan_quoted (text : String) (rest : List Char) :
    scan (quoted text ++ rest) = some (.string (some text), rest) := by
  have hscan := scanString_flatMap_escapeChar text.toList rest
  rw [quoted, List.cons_append, List.append_assoc, List.singleton_append, scan, hscan]
  simp only [Option.bind_eq_bind, Option.bind_some, Option.pure_def, join?_map_char,
    Option.map_some, String.ofList_toList]

/-! ## Numbers -/

/-- Whether a text that stands after a value is empty or goes on with punctuation. -/
def Follows (rest : List Char) : Prop := ∀ c ∈ rest.head?, c = ',' ∨ c = ']' ∨ c = '\x7d'

/-- Punctuation is no digit. -/
theorem Follows.isDigit_eq_false (h : Follows rest) : ∀ c ∈ rest.head?, c.isDigit = false := by
  intro c hc
  rcases h c hc with rfl | rfl | rfl <;> rfl

/-- The digits of a number are read back from its text. -/
theorem scanWhole_natText (n : Nat) (h : Follows rest) :
    scanWhole (Decimal.natText n ++ rest) = some (Decimal.digitsOf n, rest) := by
  have htake := Decimal.takeDigits_natText_append n h.isDigit_eq_false
  by_cases hzero : n = 0
  · subst hzero
    have hdigits : Decimal.digitsOf 0 = [0] := by
      rw [Decimal.digitsOf]
      rfl
    rw [Decimal.natText, hdigits]
    rfl
  · obtain ⟨first, others, hdigits, hfirst⟩ := Decimal.exists_digitsOf_eq_cons hzero
    have hlt : first < 10 := Decimal.lt_of_mem_digitsOf (hdigits ▸ List.mem_cons_self)
    have hchar : Decimal.digitChar first ≠ '0' := by
      intro heq
      have hread := Decimal.digit?_digitChar hlt
      rw [heq] at hread
      exact hfirst (Option.some.inj hread).symm
    have htext : Decimal.natText n = Decimal.digitChar first :: others.map Decimal.digitChar := by
      rw [Decimal.natText, hdigits, List.map_cons]
    rw [htext, List.cons_append] at htake ⊢
    rw [scanWhole, if_neg hchar, if_pos (Decimal.isDigit_digitChar hlt), htake]

/-- A natural number is read back from its text. -/
theorem scanNumber_natText (negative : Bool) (n : Nat) (h : Follows rest) :
    scanNumber negative (Decimal.natText n ++ rest) =
      some (⟨negative, Decimal.digitsOf n, none, none⟩, rest) := by
  have hfraction : scanFraction rest = some (none, rest) := by
    unfold scanFraction
    split
    · rcases h '.' rfl with heq | heq | heq <;> cases heq
    · rfl
  have hexponent : scanExponent rest = some (none, rest) := by
    cases rest with
    | nil => rfl
    | cons c others =>
      have hc : ¬(c = 'e' ∨ c = 'E') := by
        rcases h c rfl with rfl | rfl | rfl <;> decide
      unfold scanExponent
      exact if_neg hc
  rw [scanNumber, scanWhole_natText n h]
  simp only [Option.bind_eq_bind, Option.bind_some, Option.pure_def, hfraction, hexponent]

/-- A text that begins with a digit begins with a number. -/
theorem scan_digit {c : Char} {rest after : List Char} {literal : Decimal.Literal}
    (h : c.isDigit = true) (hscan : scanNumber false (c :: rest) = some (literal, after)) :
    scan (c :: rest) = some (.number literal, after) := by
  unfold scan
  split
  · rename_i heq
    cases heq
  iterate 5
    rename_i heq
    cases heq
    cases h
  · rename_i heq
    cases heq
    have hmark : mark? c = none := by
      unfold mark?
      split <;> first | rfl | cases h
    rw [hmark, hscan]
    rfl

/-- An integer is read back from its text. -/
theorem scan_intText (n : Int) (h : Follows rest) :
    scan (Decimal.intText n ++ rest) = some (.number (literalOf n), rest) := by
  rw [Decimal.intText, literalOf]
  split
  · rename_i hneg
    rw [List.cons_append, scan, scanNumber_natText true _ h, decide_eq_true hneg]
    rfl
  · rename_i hneg
    have hnumber := scanNumber_natText false n.natAbs h
    obtain ⟨first, others, htext⟩ := List.exists_cons_of_ne_nil (Decimal.natText_ne_nil n.natAbs)
    have hdigit : first.isDigit = true :=
      Decimal.isDigit_of_mem_natText (htext ▸ List.mem_cons_self)
    rw [decide_eq_false hneg]
    rw [htext, List.cons_append] at hnumber ⊢
    exact scan_digit hdigit hnumber

/-- The text of an integer begins with no blank. -/
theorem exists_intText_eq_cons (n : Int) :
    ∃ c others, Decimal.intText n = c :: others ∧ isBlank c = false := by
  rw [Decimal.intText]
  split
  · exact ⟨_, _, rfl, rfl⟩
  · obtain ⟨first, others, htext⟩ := List.exists_cons_of_ne_nil (Decimal.natText_ne_nil n.natAbs)
    have hdigit : first.isDigit = true :=
      Decimal.isDigit_of_mem_natText (htext ▸ List.mem_cons_self)
    refine ⟨first, others, htext, Bool.eq_false_iff.mpr fun hblank => ?_⟩
    simp only [isBlank, Bool.or_eq_true, decide_eq_true_eq] at hblank
    rcases hblank with ((rfl | rfl) | rfl) | rfl <;> cases hdigit

/-- A token at the beginning of a text is the first one of its tokens. -/
theorem ofText_of_scan {token : Token} (hblank : isBlank c = false)
    (h : scan (c :: rest) = some (token, after)) :
    ofText (c :: rest) = (token :: ·) <$> ofText after := by
  rw [ofText, hblank, if_neg Bool.false_ne_true]
  split
  · rename_i hnone
    rw [h] at hnone
    cases hnone
  · rename_i found more hsome
    rw [h] at hsome
    cases hsome
    rfl

end Token

namespace Document

/-- What the automaton makes of a text. -/
def State.read (state : State) (text : List Char) : Option State :=
  (Token.ofText text).bind state.run

variable {state : State} {stack : List Frame} {c : Char} {rest after : List Char} {token : Token}

/-- The text after its first token is read in the state after this token. -/
theorem State.read_of_scan {next : State} (hblank : Token.isBlank c = false)
    (hscan : Token.scan (c :: rest) = some (token, after)) (hstep : state.step token = some next) :
    state.read (c :: rest) = next.read after := by
  rw [State.read, State.read, Token.ofText_of_scan hblank hscan]
  cases Token.ofText after with
  | none => rfl
  | some tokens =>
    simp only [Option.map_eq_map, Option.map_some, Option.bind_some, State.run, hstep]

/-- Whether the automaton takes the next token as the beginning of a value, unless an array ends
with it. -/
def State.Awaits (state : State) (stack : List Frame) : Prop :=
  ∀ token, token ≠ .closeArray → state.step token = State.begin token stack

/-- Whether the automaton takes a string as the key of a member. -/
def State.AwaitsKey (state : State) (before : List (Option String × Document))
    (stack : List Frame) : Prop :=
  ∀ key, state.step (.string key) = some (.colon before key stack)

/-- A value is awaited where a value has to come. -/
theorem State.awaits_value (stack : List Frame) : (State.value stack).Awaits stack :=
  fun _ _ => rfl

/-- A value is awaited at the beginning of an array. -/
theorem State.awaits_firstItem (stack : List Frame) :
    (State.firstItem stack).Awaits (.array [] :: stack) := by
  intro token hne
  cases token <;> first | rfl | exact absurd rfl hne

/-- A key is awaited at the beginning of an object. -/
theorem State.awaitsKey_firstKey (stack : List Frame) : (State.firstKey stack).AwaitsKey [] stack :=
  fun _ => rfl

/-- A key is awaited where a further key has to come. -/
theorem State.awaitsKey_nextKey (before : List (Option String × Document)) (stack : List Frame) :
    (State.nextKey before stack).AwaitsKey before stack :=
  fun _ => rfl

mutual

/-- The text of a value is read as its document. -/
theorem State.read_compactChars : (value : Value) → value.isExact = true → (state : State) →
    (stack : List Frame) → state.Awaits stack → (rest : List Char) → Token.Follows rest →
      state.read (value.compactChars ++ rest) = (State.after value.document stack).read rest
  | .null, _, state, stack, hstate, rest, _ => by
    rw [Value.compactChars, Value.document]
    exact State.read_of_scan rfl rfl (hstate .null nofun)
  | .bool true, _, state, stack, hstate, rest, _ => by
    rw [Value.compactChars, Value.document]
    exact State.read_of_scan rfl rfl (hstate (.bool true) nofun)
  | .bool false, _, state, stack, hstate, rest, _ => by
    rw [Value.compactChars, Value.document]
    exact State.read_of_scan rfl rfl (hstate (.bool false) nofun)
  | .int n, _, state, stack, hstate, rest, hrest => by
    obtain ⟨c, others, htext, hblank⟩ := Token.exists_intText_eq_cons n
    have hscan := Token.scan_intText n hrest
    rw [Value.compactChars, Value.document]
    rw [htext, List.cons_append] at hscan ⊢
    exact State.read_of_scan hblank hscan (hstate _ nofun)
  | .float _, hexact, _, _, _, _, _ => by
    rw [Value.isExact] at hexact
    cases hexact
  | .string text, _, state, stack, hstate, rest, _ => by
    rw [Value.compactChars, Value.document]
    exact State.read_of_scan rfl (Token.scan_quoted text rest) (hstate _ nofun)
  | .array [], _, state, stack, hstate, rest, _ => by
    rw [Value.compactChars, Value.compactItems, Value.document, Value.itemDocuments]
    refine (State.read_of_scan rfl rfl (hstate .openArray nofun)).trans ?_
    exact State.read_of_scan rfl rfl rfl
  | .array (item :: items), hexact, state, stack, hstate, rest, _ => by
    rw [Value.isExact] at hexact
    rw [Value.compactChars, Value.document]
    refine (State.read_of_scan rfl rfl (hstate .openArray nofun)).trans ?_
    exact State.read_compactItems (item :: items) nofun hexact _ [] stack
      (State.awaits_firstItem stack) rest
  | .object [], _, state, stack, hstate, rest, _ => by
    rw [Value.compactChars, Value.compactMembers, Value.document, Value.memberDocuments]
    refine (State.read_of_scan rfl rfl (hstate .openObject nofun)).trans ?_
    exact State.read_of_scan rfl rfl rfl
  | .object (member :: members), hexact, state, stack, hstate, rest, _ => by
    rw [Value.isExact] at hexact
    rw [Value.compactChars, Value.document]
    refine (State.read_of_scan rfl rfl (hstate .openObject nofun)).trans ?_
    exact State.read_compactMembers (member :: members) nofun hexact _ [] stack
      (State.awaitsKey_firstKey stack) rest

/-- The text of the items of an array is read as their documents. -/
theorem State.read_compactItems : (items : List Value) → items ≠ [] →
    Value.itemsExact items = true → (state : State) → (before : List Document) →
      (stack : List Frame) → state.Awaits (.array before :: stack) → (rest : List Char) →
        state.read (Value.compactItems items ++ rest) =
          (State.after (.array (before.reverse ++ Value.itemDocuments items)) stack).read rest
  | [], hne, _, _, _, _, _, _ => absurd rfl hne
  | [item], _, hexact, state, before, stack, hstate, rest => by
    rw [Value.itemsExact, Bool.and_eq_true] at hexact
    rw [Value.compactItems, List.append_assoc, Value.itemDocuments, Value.itemDocuments,
      ← List.reverse_cons]
    refine (State.read_compactChars item hexact.1 state _ hstate _ fun c hc => ?_).trans ?_
    · exact Or.inr (Or.inl (Option.some.inj hc).symm)
    · exact State.read_of_scan rfl rfl rfl
  | item :: next :: items, _, hexact, state, before, stack, hstate, rest => by
    rw [Value.itemsExact, Bool.and_eq_true] at hexact
    rw [Value.compactItems.eq_3 item (next :: items) nofun, List.append_assoc, List.cons_append,
      Value.itemDocuments, List.append_cons before.reverse, ← List.reverse_cons]
    refine (State.read_compactChars item hexact.1 state _ hstate _ fun c hc => ?_).trans ?_
    · exact Or.inl (Option.some.inj hc).symm
    · refine (State.read_of_scan rfl rfl rfl).trans ?_
      exact State.read_compactItems (next :: items) nofun hexact.2 _ (item.document :: before) stack
        (State.awaits_value _) rest

/-- The text of the members of an object is read as their documents. -/
theorem State.read_compactMembers : (members : List (String × Value)) → members ≠ [] →
    Value.membersExact members = true → (state : State) →
      (before : List (Option String × Document)) → (stack : List Frame) →
        state.AwaitsKey before stack → (rest : List Char) →
          state.read (Value.compactMembers members ++ rest) =
            (State.after (.object (before.reverse ++ Value.memberDocuments members)) stack).read rest
  | [], hne, _, _, _, _, _, _ => absurd rfl hne
  | [(name, item)], _, hexact, state, before, stack, hstate, rest => by
    rw [Value.membersExact, Bool.and_eq_true] at hexact
    rw [Value.compactMembers, List.append_assoc, List.cons_append, List.append_assoc,
      Value.memberDocuments, Value.memberDocuments, ← List.reverse_cons]
    refine (State.read_of_scan rfl (Token.scan_quoted name _) (hstate (some name))).trans ?_
    refine (State.read_of_scan rfl rfl rfl).trans ?_
    refine (State.read_compactChars item hexact.1 _ _ (State.awaits_value _) _ fun c hc => ?_).trans
      ?_
    · exact Or.inr (Or.inr (Option.some.inj hc).symm)
    · exact State.read_of_scan rfl rfl rfl
  | (name, item) :: next :: members, _, hexact, state, before, stack, hstate, rest => by
    rw [Value.membersExact, Bool.and_eq_true] at hexact
    rw [Value.compactMembers.eq_3 name item (next :: members) nofun, List.append_assoc, List.cons_append,
      List.append_assoc, List.cons_append, Value.memberDocuments, List.append_cons before.reverse,
      ← List.reverse_cons]
    refine (State.read_of_scan rfl (Token.scan_quoted name _) (hstate (some name))).trans ?_
    refine (State.read_of_scan rfl rfl rfl).trans ?_
    refine (State.read_compactChars item hexact.1 _ _ (State.awaits_value _) _ fun c hc => ?_).trans
      ?_
    · exact Or.inl (Option.some.inj hc).symm
    · refine (State.read_of_scan rfl rfl rfl).trans ?_
      exact State.read_compactMembers (next :: members) nofun hexact.2 _
        ((some name, item.document) :: before) stack (State.awaitsKey_nextKey _ stack) rest

end

/-- The text of a value is the text of its document. -/
theorem ofText_compactChars {value : Value} (hexact : value.isExact = true) :
    ofText value.compactChars = some value.document := by
  have hread : (State.value []).read value.compactChars = some (.after value.document []) := by
    have hall := State.read_compactChars value hexact _ [] (State.awaits_value []) [] nofun
    have hend : Token.ofText [] = some [] := by rw [Token.ofText]
    rw [List.append_nil] at hall
    rw [hall, State.read, hend, Option.bind_some, State.run]
  obtain ⟨tokens, htokens, hrun⟩ := Option.bind_eq_some_iff.mp hread
  rw [ofText, htokens, Option.bind_some, ofTokens, hrun]

end Document

end Epidemic.Json
