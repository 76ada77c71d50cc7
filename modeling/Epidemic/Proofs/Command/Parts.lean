import Epidemic.Command.Run

/-!
# Parts of an argument list

The parts of an argument list are determined by three things. Together they are the arguments, only
the last one can be a flag without a value, and the wish for more messages is recognised.

They are also what a loop comes across that walks through an argument vector, by one place or by
two. The loop never asks for an argument outside of the vector.
-/

namespace Epidemic.Command

/-- The argument that names a flag. -/
def Flag.name : Flag → String
  | .config => "--config"
  | .nodes => "--nodes"
  | .fanout => "--fanout"
  | .latency => "--latency-ms"
  | .jitter => "--jitter-ms"
  | .dropRate => "--drop-rate"
  | .seed => "--seed"
  | .rumorRounds => "--rumor-rounds"
  | .origin => "--from"
  | .key => "--key"
  | .timeout => "--timeout-ms"

/-- A flag is recognised by its name. -/
theorem Flag.ofArgument?_name (flag : Flag) : ofArgument? flag.name = some flag := by
  cases flag <;> rfl

/-- What is recognised as a flag is its name. -/
theorem Flag.eq_name_of_ofArgument? {argument : String} {flag : Flag}
    (h : ofArgument? argument = some flag) : argument = flag.name := by
  unfold ofArgument? at h
  split at h <;> cases h <;> rfl

namespace Item

/-- The arguments that a part consists of. -/
def arguments : Item → List String
  | .setting flag value => [flag.name, value]
  | .verbose => ["--verbose"]
  | .unrecognised argument => [argument]

/-- Whether a part is a flag without a value. -/
def lacksValue : Item → Bool
  | .unrecognised argument => (Flag.ofArgument? argument).isSome
  | _ => false

/-- The flag of a part with its value, if the part has one. -/
def pair? : Item → Option (Flag × String)
  | .setting flag value => some (flag, value)
  | _ => none

/-- Whether a list of parts is the reading of an argument list: it consists of these arguments, in
their order, and flags have values wherever arguments follow them. -/
structure AreOf (arguments : List String) (items : List Item) : Prop where
  /-- Together the parts are the arguments. -/
  flatMap_eq : items.flatMap Item.arguments = arguments
  /-- Only in last place there may be a flag without a value. -/
  lacksValue_eq : ∀ item ∈ items.dropLast, item.lacksValue = false
  /-- The wish for more messages is recognised. -/
  not_mem : .unrecognised "--verbose" ∉ items

/-- An argument that stands for itself is a part of its own. -/
theorem arguments_single (argument : String) : (single argument).arguments = [argument] := by
  rw [single]
  split
  · rename_i h
    rw [h]
    rfl
  · rfl

/-- An argument that stands for itself lacks a value only if it names a flag. -/
theorem lacksValue_single {argument : String} (h : Flag.ofArgument? argument = none) :
    (single argument).lacksValue = false := by
  rw [single]
  split
  · rfl
  · rw [lacksValue, h]
    rfl

/-- An argument that stands for itself is no unrecognised wish for more messages. -/
theorem single_ne (argument : String) : single argument ≠ .unrecognised "--verbose" := by
  rw [single]
  split
  · exact nofun
  · rename_i h
    exact fun heq => h (Item.unrecognised.inj heq)

/-- One more part in front is read if it has its value or nothing follows. -/
theorem AreOf.cons {item : Item} {items : List Item} {arguments : List String}
    (h : AreOf arguments items) (hvalue : item.lacksValue = false ∨ items = [])
    (hitem : item ≠ .unrecognised "--verbose") :
    AreOf (item.arguments ++ arguments) (item :: items) := by
  refine ⟨?_, fun other hmem => ?_, fun hmem => ?_⟩
  · rw [List.flatMap_cons, h.flatMap_eq]
  · cases items with
    | nil => cases hmem
    | cons next items =>
      rw [List.dropLast_cons_cons] at hmem
      rcases List.mem_cons.mp hmem with rfl | hlater
      · exact hvalue.resolve_right (List.cons_ne_nil _ _)
      · exact h.lacksValue_eq other hlater
  · rcases List.mem_cons.mp hmem with heq | hlater
    · exact hitem heq.symm
    · exact h.not_mem hlater

/-- The parts of an argument list are a reading of it. -/
theorem areOf_ofArguments (arguments : List String) : AreOf arguments (ofArguments arguments) := by
  fun_induction ofArguments arguments with
  | case1 => exact ⟨rfl, nofun, nofun⟩
  | case2 argument =>
    have hnil : AreOf [] [] := ⟨rfl, nofun, nofun⟩
    have h := hnil.cons (Or.inr rfl) (single_ne argument)
    rw [arguments_single] at h
    exact h
  | case3 argument value rest flag hflag ih =>
    have hitem : setting flag value ≠ .unrecognised "--verbose" := nofun
    rw [Flag.eq_name_of_ofArgument? hflag]
    exact ih.cons (Or.inl rfl) hitem
  | case4 argument value rest hflag ih =>
    have h := ih.cons (Or.inl (lacksValue_single hflag)) (single_ne argument)
    rw [arguments_single] at h
    exact h

/-- The first part of a reading is read first, and then the other ones. -/
theorem ofArguments_cons {item : Item} {items : List Item}
    (hvalue : item.lacksValue = false ∨ items = []) (hitem : item ≠ .unrecognised "--verbose") :
    ofArguments (item.arguments ++ items.flatMap Item.arguments) =
      item :: ofArguments (items.flatMap Item.arguments) := by
  have halone {argument : String} (hargument : Flag.ofArgument? argument = none ∨ items = []) :
      ofArguments (argument :: items.flatMap Item.arguments) =
        single argument :: ofArguments (items.flatMap Item.arguments) := by
    cases hrest : items.flatMap Item.arguments with
    | nil => rfl
    | cons value rest =>
      have hne : items ≠ [] := by
        rintro rfl
        cases hrest
      rw [ofArguments, hargument.resolve_right hne]
  cases item with
  | setting flag value =>
    rw [arguments, List.cons_append, List.cons_append, List.nil_append, ofArguments,
      Flag.ofArgument?_name]
  | verbose => exact halone (Or.inl rfl)
  | unrecognised argument =>
    have hsingle : single argument = .unrecognised argument := by
      rw [single, if_neg]
      rintro rfl
      exact hitem rfl
    have hargument : Flag.ofArgument? argument = none ∨ items = [] :=
      hvalue.imp_left fun h => Option.not_isSome_iff_eq_none.mp (Bool.eq_false_iff.mp h)
    rw [← hsingle, arguments_single]
    exact halone hargument

/-- An argument list has no other reading than its parts. -/
theorem AreOf.eq_ofArguments {arguments : List String} {items : List Item}
    (h : AreOf arguments items) : items = ofArguments arguments := by
  induction items generalizing arguments with
  | nil =>
    rw [← h.flatMap_eq]
    rfl
  | cons item items ih =>
    have hvalue : item.lacksValue = false ∨ items = [] := by
      cases items with
      | nil => exact Or.inr rfl
      | cons next items => exact Or.inl (h.lacksValue_eq item List.mem_cons_self)
    have hitem : item ≠ .unrecognised "--verbose" := by
      rintro rfl
      exact h.not_mem List.mem_cons_self
    have hrest : AreOf (items.flatMap Item.arguments) items := by
      refine ⟨rfl, fun other hmem => ?_, fun hmem => h.not_mem (List.mem_cons_of_mem _ hmem)⟩
      cases items with
      | nil => cases hmem
      | cons next items => exact h.lacksValue_eq other (List.mem_cons_of_mem _ hmem)
    rw [← h.flatMap_eq, List.flatMap_cons, ofArguments_cons hvalue hitem, ← ih hrest]

end Item

namespace Options

variable {m : Type → Type} [Monad m]

variable {readFile : String → m (Except String ByteArray)} {arguments : List String} {place : Nat}

/-- At the end of the vector the loop ends. -/
theorem loop?_of_drop_eq_nil (h : arguments.drop place = []) (options : Options) :
    loop? readFile arguments place options = return some (.ok options) := by
  rw [loop?, if_neg (Nat.not_lt.mpr (List.drop_eq_nil_iff.mp h))]

/-- Before the end of the vector the loop takes one argument, or a flag and its value. -/
theorem loop?_of_drop_eq_cons {argument : String} {rest : List String}
    (h : arguments.drop place = argument :: rest) (options : Options) :
    loop? readFile arguments place options =
      match Flag.ofArgument? argument, rest.head? with
      | some flag, some value => do
        match ← apply readFile options flag value with
        | .error failure => return some (.error failure)
        | .ok options => loop? readFile arguments (place + 2) options
      | _, _ => loop? readFile arguments (place + 1) options := by
  have hplace : place < arguments.length := by
    rw [← Nat.not_le, ← List.drop_eq_nil_iff, h]
    exact List.cons_ne_nil _ _
  have hfirst : arguments[place]? = some argument := by rw [← List.head?_drop, h, List.head?_cons]
  have hsecond : arguments[place + 1]? = rest.head? := by
    rw [← List.head?_drop, ← List.drop_drop, h, List.drop_one, List.tail_cons]
  have hstep := loop?.eq_def readFile arguments place options
  rw [if_pos hplace, hfirst, hsecond] at hstep
  exact hstep

variable [LawfulMonad m]

/-- An argument that stands for itself changes nothing. -/
theorem read_single (argument : String) (items : List Item) (options : Options) :
    Prod.snd <$> read readFile (Item.single argument :: items) options =
      Prod.snd <$> read readFile items options := by
  rw [Item.single]
  split
  · rfl
  · rw [read, map_bind]
    simp only [map_pure, bind_pure_comp]

/-- The loop reads the parts of the arguments from its place on, and nothing outside of the
vector. -/
theorem loop?_eq (readFile : String → m (Except String ByteArray)) (arguments : List String)
    (place : Nat) (options : Options) :
    loop? readFile arguments place options =
      some <$> Prod.snd <$> read readFile (Item.ofArguments (arguments.drop place)) options := by
  generalize hrest : arguments.drop place = rest
  fun_induction Item.ofArguments rest generalizing place options with
  | case1 => rw [loop?_of_drop_eq_nil hrest, read, map_pure, map_pure]
  | case2 argument =>
    have hnext : arguments.drop (place + 1) = [] := by
      rw [← List.drop_drop, hrest, List.drop_one, List.tail_cons]
    rw [loop?_of_drop_eq_cons hrest, read_single, read, map_pure, map_pure, List.head?_nil]
    cases Flag.ofArgument? argument <;> exact loop?_of_drop_eq_nil hnext options
  | case3 argument value rest flag hflag ih =>
    have hnext : arguments.drop (place + 2) = rest := by
      rw [← List.drop_drop, hrest, List.drop_succ_cons, List.drop_succ_cons, List.drop_zero]
    rw [loop?_of_drop_eq_cons hrest, hflag, List.head?_cons, read, map_bind, map_bind]
    refine bind_congr fun result => ?_
    cases result with
    | error failure => simp only [map_pure]
    | ok options => exact ih _ options hnext
  | case4 argument value rest hflag ih =>
    have hnext : arguments.drop (place + 1) = value :: rest := by
      rw [← List.drop_drop, hrest, List.drop_one, List.tail_cons]
    rw [loop?_of_drop_eq_cons hrest, hflag, read_single]
    exact ih _ options hnext

end Options

end Epidemic.Command
