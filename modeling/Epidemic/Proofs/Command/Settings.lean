import Epidemic.Proofs.Command.Parts
import Epidemic.Proofs.Json.RoundTrip
import Mathlib.Data.List.DropRight

/-!
# Options in terms of the settings

The options that the command runs with are determined by the settings that were read, without going
through them one after the other. A setting of the configuration counts if no later one has its
flag and no file has been read after it, and the other settings count if no later one has their
flag.

Values are read in their order up to the first that cannot be read.
-/

namespace Epidemic.Command

/-- What the value of a flag stands for. -/
abbrev Flag.Value : Flag → Type
  | .config => SimulationConfig
  | .dropRate => Binary64
  | .origin => NodeId
  | .key => String
  | _ => Nat

/-- What a value stands for that is given to a flag. -/
def Flag.read {m : Type → Type} [Monad m] (readFile : String → m (Except String ByteArray)) :
    (flag : Flag) → String → m (Except Failure flag.Value)
  | .config, path => do
    match ← readFile path with
    | .error reason => return .error (.file reason)
    | .ok bytes => return Options.configOfBytes bytes
  | .dropRate, text => return (readFloat text).mapError .number
  | .rumorRounds, text => return (readNatural Width.words32 text).mapError .number
  | .origin, text => return .ok text
  | .key, text => return .ok text
  | .nodes, text => return (readWord text).mapError .number
  | .fanout, text => return (readWord text).mapError .number
  | .latency, text => return (readWord text).mapError .number
  | .jitter, text => return (readWord text).mapError .number
  | .seed, text => return (readWord text).mapError .number
  | .timeout, text => return (readWord text).mapError .number

/-- A flag with what its value stands for. -/
structure Setting where
  /-- The flag. -/
  flag : Flag
  /-- What its value stands for. -/
  value : flag.Value

namespace Setting

/-- The value that is given to a flag last. -/
def last? (flag : Flag) : List Setting → Option flag.Value
  | [] => none
  | setting :: rest =>
    (last? flag rest).or (if h : setting.flag = flag then some (h ▸ setting.value) else none)

/-- The settings after the last file. -/
def sinceFile (settings : List Setting) : List Setting :=
  settings.rtakeWhile fun setting => setting.flag ≠ .config

/-- Microseconds of a number of milliseconds, at most the greatest number of 64 bits. -/
def micros (millis : Nat) : Nat := min (1000 * millis) (Width.words64 - 1)

/-- The configuration of the last file, or the default one, in which every flag that is given after
the file has its last value. -/
def config (settings : List Setting) : SimulationConfig :=
  let base := (last? .config settings).getD .default
  let later := sinceFile settings
  { nodeCount := (last? .nodes later).getD base.nodeCount
    fanout := (last? .fanout later).getD base.fanout
    latencyMicros := ((last? .latency later).map micros).getD base.latencyMicros
    jitterMicros := ((last? .jitter later).map micros).getD base.jitterMicros
    dropRate := (last? .dropRate later).getD base.dropRate
    seed := ((last? .seed later).map UInt64.ofNat).or base.seed
    rumorRounds := (last? .rumorRounds later).getD base.rumorRounds
    rumorIntervalMillis := base.rumorIntervalMillis }

/-- The options that a list of settings asks for. -/
def options (settings : List Setting) : Options where
  config := config settings
  origin := (last? .origin settings).getD "node-0"
  key := (last? .key settings).getD "x"
  timeoutMillis := (last? .timeout settings).getD 2000

/-- The settings of flags with their values, up to the first value that cannot be read, and why it
cannot. -/
def readAll {m : Type → Type} [Monad m] (readFile : String → m (Except String ByteArray)) :
    List (Flag × String) → m (List Setting × Option Failure)
  | [] => return ([], none)
  | (flag, text) :: rest => do
    match ← flag.read readFile text with
    | .error failure => return ([], some failure)
    | .ok value =>
      let (settings, failure) ← readAll readFile rest
      return (⟨flag, value⟩ :: settings, failure)

/-- What comes of settings and a failure after them. -/
def result : List Setting × Option Failure → Except Failure Options
  | (settings, none) => .ok (options settings)
  | (_, some failure) => .error failure

/-- Options in which a flag has another value. -/
def assign (options : Options) : Setting → Options
  | ⟨.config, config⟩ => { options with config }
  | ⟨.nodes, nodeCount⟩ => { options with config := { options.config with nodeCount } }
  | ⟨.fanout, fanout⟩ => { options with config := { options.config with fanout } }
  | ⟨.latency, millis⟩ =>
    { options with config := { options.config with latencyMicros := micros millis } }
  | ⟨.jitter, millis⟩ =>
    { options with config := { options.config with jitterMicros := micros millis } }
  | ⟨.dropRate, dropRate⟩ => { options with config := { options.config with dropRate } }
  | ⟨.seed, seed⟩ => { options with config := { options.config with seed := some (.ofNat seed) } }
  | ⟨.rumorRounds, rumorRounds⟩ => { options with config := { options.config with rumorRounds } }
  | ⟨.origin, origin⟩ => { options with origin }
  | ⟨.key, key⟩ => { options with key }
  | ⟨.timeout, timeoutMillis⟩ => { options with timeoutMillis }

/-! ## One more setting -/

variable {settings : List Setting} {flag : Flag}

/-- The last value of a flag is the one that is given at the end. -/
theorem last?_concat_self (value : flag.Value) :
    last? flag (settings ++ [⟨flag, value⟩]) = some value := by
  induction settings with
  | nil => rw [List.nil_append, last?, last?, Option.none_or, dif_pos rfl]
  | cons setting rest ih =>
    rw [List.cons_append, last?, ih]
    rfl

/-- The last value of a flag is not changed by another flag. -/
theorem last?_concat_of_ne {setting : Setting} (h : setting.flag ≠ flag) :
    last? flag (settings ++ [setting]) = last? flag settings := by
  induction settings with
  | nil => rw [List.nil_append, last?, last?, dif_neg h, Option.or_none, last?]
  | cons first rest ih => rw [List.cons_append, last?, ih, last?]

/-- After a file there are no settings yet. -/
theorem sinceFile_concat_config (config : SimulationConfig) :
    sinceFile (settings ++ [⟨.config, config⟩]) = [] :=
  List.rtakeWhile_concat_neg _ _ _ Bool.false_ne_true

/-- Every other setting is one after the last file. -/
theorem sinceFile_concat_of_ne {setting : Setting} (h : setting.flag ≠ .config) :
    sinceFile (settings ++ [setting]) = sinceFile settings ++ [setting] :=
  List.rtakeWhile_concat_pos _ _ _ (decide_eq_true h)

/-- The options after one more setting are those before, in which its flag has its value. -/
theorem options_concat (settings : List Setting) (setting : Setting) :
    options (settings ++ [setting]) = assign (options settings) setting := by
  obtain ⟨flag, value⟩ := setting
  have hself (settings : List Setting) : last? flag (settings ++ [⟨flag, value⟩]) = some value :=
    last?_concat_self value
  have hother (settings : List Setting) (other : Flag) (h : flag ≠ other) :
      last? other (settings ++ [⟨flag, value⟩]) = last? other settings :=
    last?_concat_of_ne h
  have hsince (h : flag ≠ .config) :
      sinceFile (settings ++ [⟨flag, value⟩]) = sinceFile settings ++ [⟨flag, value⟩] :=
    sinceFile_concat_of_ne h
  -- A file starts a new configuration; every other flag has its own place in the options.
  cases flag with
  | config =>
    have hnone : sinceFile (settings ++ [⟨.config, value⟩]) = [] := sinceFile_concat_config value
    simp (disch := decide) only [options, config, hnone, hself, hother]
    rfl
  | _ =>
    simp (disch := decide) only [options, config, hsince, hself, hother]
    rfl

/-! ## All settings -/

variable {m : Type → Type} [Monad m] [LawfulMonad m]
  {readFile : String → m (Except String ByteArray)}

/-- A flag is applied by reading its value and giving it to the flag. -/
theorem apply_eq (options : Options) (flag : Flag) (text : String) :
    options.apply readFile flag text =
      (Except.map fun value => assign options ⟨flag, value⟩) <$> flag.read readFile text := by
  cases flag with
  | config =>
    rw [Options.apply, Flag.read, map_bind]
    refine bind_congr fun bytes => ?_
    cases bytes <;> simp only [map_pure] <;> rfl
  | latency | jitter =>
    have hmicros : Options.microsOfMillis = micros :=
      funext fun millis => congrArg (min · _) (Nat.mul_comm millis 1000)
    rw [Options.apply, Flag.read, map_pure, Options.set, hmicros]
    · rfl
    · nofun
  | _ =>
    rw [Options.apply, Flag.read, map_pure]
    · rfl
    · nofun

/-- The options after a list of parts are those of the settings that were read before and in the
list. -/
theorem read_options (items : List Item) (settings : List Setting) :
    Prod.snd <$> Options.read readFile items (options settings) =
      (fun found => result (settings ++ found.1, found.2)) <$>
        readAll readFile (items.filterMap Item.pair?) := by
  induction items generalizing settings with
  | nil => simp only [Options.read, List.filterMap_nil, readAll, map_pure, List.append_nil, result]
  | cons item items ih =>
    cases item with
    | verbose => exact ih settings
    | unrecognised argument =>
      have hrest := ih settings
      rw [Options.read, map_bind]
      simp only [map_pure, bind_pure_comp]
      exact hrest
    | setting flag text =>
      have hpairs : (Item.setting flag text :: items).filterMap Item.pair? =
          (flag, text) :: items.filterMap Item.pair? := rfl
      rw [Options.read, apply_eq, hpairs, readAll, map_bind, bind_map_left, map_bind]
      refine bind_congr fun value => ?_
      cases value with
      | error failure => simp only [Except.map, map_pure, result]
      | ok value =>
        have hrest := ih (settings ++ [⟨flag, value⟩])
        rw [options_concat] at hrest
        simp only [Except.map, bind_pure_comp, hrest, Functor.map_map, List.append_assoc,
          List.singleton_append]

end Setting

/-! ## The command line -/

/-- How a run ends with the options that were read, or with the failure to read them. -/
def Ending.ofResult (surroundings : Surroundings) : Except Failure Options → Ending
  | .error failure => .failed failure
  | .ok options => simulate options surroundings

/-- The arguments of the command are read from the left: a flag takes the argument after it whatever
that is, and every other argument stands for itself, also a flag in last place. No argument is asked
for that does not exist. If every value can be read, the command runs with the options that the
settings ask for, and else it fails for the first value that cannot. -/
theorem settings_are_read {m : Type → Type} [Monad m] [LawfulMonad m]
    (readFile : String → m (Except String ByteArray)) (surroundings : Surroundings)
    {arguments : List String}
    (hhelp : ∀ argument ∈ arguments, argument ≠ "--help" ∧ argument ≠ "-h") :
    ∃ items : List Item,
      (∀ others, Item.AreOf arguments.tail others ↔ others = items) ∧
      Options.loop? readFile arguments 1 .default =
        (fun found => some (Setting.result found)) <$>
          Setting.readAll readFile (items.filterMap Item.pair?) ∧
      Outcome.ending <$> run readFile surroundings arguments.tail =
        (fun found => Ending.ofResult surroundings (Setting.result found)) <$>
          Setting.readAll readFile (items.filterMap Item.pair?) := by
  have hread : Prod.snd <$> Options.read readFile (Item.ofArguments arguments.tail) .default =
      Setting.result <$>
        Setting.readAll readFile ((Item.ofArguments arguments.tail).filterMap Item.pair?) :=
    Setting.read_options (Item.ofArguments arguments.tail) []
  have hwish : (arguments.tail.any fun argument => argument = "--help" || argument = "-h") =
      false := by
    refine List.any_eq_false.mpr fun argument hmem => ?_
    obtain ⟨hlong, hshort⟩ := hhelp argument (List.mem_of_mem_tail hmem)
    simp only [hlong, hshort, decide_false, Bool.or_self, Bool.false_eq_true, not_false_eq_true]
  refine ⟨Item.ofArguments arguments.tail, fun others => ⟨Item.AreOf.eq_ofArguments, ?_⟩, ?_, ?_⟩
  · rintro rfl
    exact Item.areOf_ofArguments arguments.tail
  · rw [Options.loop?_eq, List.drop_one, hread, Functor.map_map]
  · have hending : Outcome.ending <$> run readFile surroundings arguments.tail =
        Ending.ofResult surroundings <$> Prod.snd <$>
          Options.read readFile (Item.ofArguments arguments.tail) .default := by
      rw [run, hwish, if_neg Bool.false_ne_true, map_bind, Functor.map_map, ← bind_pure_comp]
      refine bind_congr fun found => ?_
      obtain ⟨ignored, result⟩ := found
      cases result <;> exact map_pure _ _
    rw [hending, hread, Functor.map_map]

/-- Files of which one widens the fanout. -/
def shelf (path : String) : Id (Except String ByteArray) :=
  if path = "wide.json" then .ok (Json.Value.object [("fanout", .int 7)]).compact.toUTF8
  else .error "No such file or directory (os error 2)"

/-- The file of the shelf is read. -/
theorem read_shelf :
    Flag.read shelf .config "wide.json" = .ok { SimulationConfig.default with fanout := 7 } := by
  have htext (text : String) : String.fromUTF8? text.toUTF8 = some text := by
    rw [String.fromUTF8?, String.toUTF8_eq_toByteArray, dif_pos text.isValidUTF8]
    rfl
  have hexact : (Json.Value.object [("fanout", .int 7)]).isExact = true := by decide
  have hword : Json.Record.word (Json.Value.int 7).document = .ok 7 :=
    Json.Record.word_document (by decide)
  have hconfig : SimulationConfig.ofDocument (Json.Value.object [("fanout", .int 7)]).document =
      .ok { SimulationConfig.default with fanout := 7 } := by
    have hfields : Json.Record.ofDocument
        { names := SimulationConfig.fieldNames, allowsFewer := true }
          (Json.Value.object [("fanout", .int 7)]).document =
        .ok [("fanout", (Json.Value.int 7).document)] := by
      simp only [Json.Value.document, Json.Value.memberDocuments]
      rfl
    have hfanout : Json.Record.defaulted [("fanout", (Json.Value.int 7).document)] "fanout"
        SimulationConfig.default.fanout Json.Record.word = .ok 7 :=
      hword
    rw [SimulationConfig.ofDocument, hfields]
    simp only [bind, Except.bind, hfanout]
    rfl
  have hread : Json.Record.ofText SimulationConfig.ofDocument
      (Json.Value.object [("fanout", .int 7)]).compact =
      .ok { SimulationConfig.default with fanout := 7 } := by
    rw [Json.Record.ofText, Json.Value.compact, String.toList_ofList,
      Json.Document.ofText_compactChars hexact]
    exact hconfig
  have hbytes : Options.configOfBytes (Json.Value.object [("fanout", .int 7)]).compact.toUTF8 =
      .ok { SimulationConfig.default with fanout := 7 } := by
    rw [Options.configOfBytes, htext]
    exact congrArg (Except.mapError Failure.config) hread
  exact hbytes

/-- Arguments with a flag as a value, a repeated flag, a file after other settings, and a flag in last
place. -/
def lineOfArguments : List String :=
  ["gossip-sim", "--nodes", "5", "--key", "--seed", "--config", "wide.json", "7", "--latency-ms", "1",
    "--latency-ms", "18446744073709551615", "--from"]

/-- The settings of these arguments. -/
def settingsOfLine : List Setting :=
  [⟨.nodes, (5 : Nat)⟩, ⟨.key, "--seed"⟩, ⟨.config, { SimulationConfig.default with fanout := 7 }⟩,
    ⟨.latency, (1 : Nat)⟩, ⟨.latency, (18446744073709551615 : Nat)⟩]

/-- A flag may be the value of another one, a file discards earlier settings, latencies are cut to 64
bits, and a flag in last place means nothing. -/
theorem settings_are_read_repeated :
    (∀ argument ∈ lineOfArguments, argument ≠ "--help" ∧ argument ≠ "-h") ∧
    Options.loop? shelf lineOfArguments 1 .default = some (.ok (Setting.options settingsOfLine)) ∧
    Setting.options settingsOfLine =
      { config :=
          { SimulationConfig.default with fanout := 7, latencyMicros := 18446744073709551615 }
        origin := "node-0"
        key := "--seed"
        timeoutMillis := 2000 } ∧
    (run shelf ⟨0, 1⟩ lineOfArguments.tail).run.ending =
      simulate (Setting.options settingsOfLine) ⟨0, 1⟩ := by
  have hhelp : ∀ argument ∈ lineOfArguments, argument ≠ "--help" ∧ argument ≠ "-h" := by decide
  obtain ⟨items, hitems, hloop, hrun⟩ := settings_are_read shelf ⟨0, 1⟩ hhelp
  have hparts : Item.ofArguments lineOfArguments.tail = items :=
    (hitems _).mp (Item.areOf_ofArguments _)
  have hpairs : items.filterMap Item.pair? =
      [(.nodes, "5"), (.key, "--seed"), (.config, "wide.json"), (.latency, "1"),
        (.latency, "18446744073709551615")] := by
    rw [← hparts]
    rfl
  have hread : Setting.readAll shelf (items.filterMap Item.pair?) = (settingsOfLine, none) := by
    have hnodes : Flag.read shelf .nodes "5" = .ok 5 := rfl
    have hkey : Flag.read shelf .key "--seed" = .ok "--seed" := rfl
    have hshort : Flag.read shelf .latency "1" = .ok 1 := rfl
    have hlong : Flag.read shelf .latency "18446744073709551615" = .ok 18446744073709551615 := rfl
    simp only [hpairs, Setting.readAll, hnodes, hkey, read_shelf, hshort, hlong]
    rfl
  rw [hread] at hloop hrun
  exact ⟨hhelp, hloop, rfl, hrun⟩

end Epidemic.Command
