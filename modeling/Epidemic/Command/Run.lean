import Epidemic.Command.Argument
import Epidemic.Simulation.Basic

/-!
# The command

The command sets up a simulation from its arguments, makes one broadcast that sets a key to `1`,
waits until the nodes agree on the key, and shows the counters of the simulation and how far the
nodes agreed. How files are read is left to the caller.

The options are read from the parts of the argument list. A loop over the places of an argument vector
reads them, too; it asks for every argument with a check.
-/

namespace Epidemic.Command

/-- What the arguments ask for. -/
structure Options where
  /-- The configuration of the simulation. -/
  config : SimulationConfig
  /-- The node that makes the broadcast. -/
  origin : NodeId
  /-- The key that is broadcast. -/
  key : String
  /-- How long to wait for agreement, in milliseconds. -/
  timeoutMillis : Nat

/-- Why the command fails. -/
inductive Failure where
  /-- A value is no number. -/
  | number (fault : NumberFault)
  /-- A file cannot be read, for the reason that the system gives. -/
  | file (reason : String)
  /-- A file is no text. -/
  | encoding
  /-- A file is no configuration. -/
  | config (fault : Json.Fault)
  /-- The simulation refuses. -/
  | refused (fault : Fault)

/-- The wording of a failure. A text that is no configuration is refused in words of the command's
own, which name the kind of the fault and not the place where it was found. -/
def Failure.message : Failure → String
  | .number fault => fault.message
  | .file reason => reason
  | .encoding => "stream did not contain valid UTF-8"
  | .config .malformed => "the configuration is not valid JSON"
  | .config .mismatch => "the configuration does not have the expected fields"
  | .refused fault => fault.message

namespace Options

/-- What is done without arguments. -/
def default : Options := ⟨.default, "node-0", "x", 2000⟩

/-- The configuration that the bytes of a file hold. -/
def configOfBytes (bytes : ByteArray) : Except Failure SimulationConfig :=
  match String.fromUTF8? bytes with
  | none => .error .encoding
  | some text => (Json.Record.ofText SimulationConfig.ofDocument text).mapError .config

/-- Microseconds of a number of milliseconds, at most 64 bits of them. -/
def microsOfMillis (millis : Nat) : Nat := min (millis * 1000) (Width.words64 - 1)

/-- Options in which a flag has been given a value, other than that of a file. -/
def set (options : Options) (flag : Flag) (value : String) : Except Failure Options :=
  let word := (readWord value).mapError .number
  let config := options.config
  match flag with
  | .config => .ok options
  | .nodes => word.map fun nodeCount => { options with config := { config with nodeCount } }
  | .fanout => word.map fun fanout => { options with config := { config with fanout } }
  | .latency => word.map fun millis =>
    { options with config := { config with latencyMicros := microsOfMillis millis } }
  | .jitter => word.map fun millis =>
    { options with config := { config with jitterMicros := microsOfMillis millis } }
  | .dropRate => ((readFloat value).mapError .number).map fun dropRate =>
    { options with config := { config with dropRate } }
  | .seed => word.map fun seed =>
    { options with config := { config with seed := some (UInt64.ofNat seed) } }
  | .rumorRounds => ((readNatural Width.words32 value).mapError .number).map fun rumorRounds =>
    { options with config := { config with rumorRounds } }
  | .origin => .ok { options with origin := value }
  | .key => .ok { options with key := value }
  | .timeout => word.map fun timeoutMillis => { options with timeoutMillis }

variable {m : Type → Type} [Monad m]

/-- Options in which a flag has been given a value; a file takes the place of the whole
configuration. -/
def apply (readFile : String → m (Except String ByteArray)) (options : Options) (flag : Flag)
    (value : String) : m (Except Failure Options) :=
  match flag with
  | .config => do
    match ← readFile value with
    | .error reason => return .error (.file reason)
    | .ok bytes => return (configOfBytes bytes).map fun config => { options with config }
  | flag => return options.set flag value

/-- Options after all parts of an argument list, or the first failure, together with the arguments
up to there that were not recognised. -/
def read (readFile : String → m (Except String ByteArray)) :
    List Item → Options → m (List String × Except Failure Options)
  | [], options => return ([], .ok options)
  | .verbose :: rest, options => read readFile rest options
  | .unrecognised argument :: rest, options => do
    let (arguments, result) ← read readFile rest options
    return (argument :: arguments, result)
  | .setting flag value :: rest, options => do
    match ← apply readFile options flag value with
    | .error failure => return ([], .error failure)
    | .ok options => read readFile rest options

/-- The options after a walk through an argument vector from a place on, or the first failure; none
if an argument is asked for that the vector does not have. -/
def loop? (readFile : String → m (Except String ByteArray)) (arguments : List String) (place : Nat)
    (options : Options) : m (Option (Except Failure Options)) :=
  if place < arguments.length then
    match arguments[place]? with
    | none => return none
    | some argument =>
      match Flag.ofArgument? argument, arguments[place + 1]? with
      | some flag, some value => do
        match ← apply readFile options flag value with
        | .error failure => return some (.error failure)
        | .ok options => loop? readFile arguments (place + 2) options
      | _, _ => loop? readFile arguments (place + 1) options
  else return some (.ok options)
termination_by arguments.length - place

end Options

/-! ## Running -/

/-- How the command ends. -/
inductive Ending where
  /-- It shows how it is used. -/
  | usage
  /-- It fails. -/
  | failed (failure : Failure)
  /-- It shows the counters and the agreement. -/
  | finished (stats : SimulationStats) (report : Convergence.Report)

/-- What a run of the command shows. -/
structure Outcome where
  /-- The arguments that were passed over. -/
  ignored : List String
  /-- How it ends. -/
  ending : Ending

/-- What a run takes from its surroundings apart from files. -/
structure Surroundings where
  /-- The wall clock, in milliseconds. -/
  wall : Nat
  /-- The seed of a simulation that has none of its own. -/
  seed : UInt64

/-- Sets up the simulation, makes the broadcast, waits, and shuts the simulation down. The time of
the simulation is counted and does not take any. -/
def simulate (options : Options) (surroundings : Surroundings) : Ending :=
  let generators := Simulation.Generators.ofSeed options.config surroundings.seed
  match Simulation.new options.config generators true surroundings.wall with
  | .error fault => .failed (.refused fault)
  | .ok simulation =>
    let (id, _) := MessageId.random (Random.Cipher.ofSeed surroundings.seed)
    match simulation.broadcastFrom options.origin id "set" [(options.key, .int 1)] with
    | (.error fault, _) => .failed (.refused fault)
    | (.ok _, simulation) =>
      let (_, simulation) := simulation.wait options.key (.ofMillis options.timeoutMillis)
      .finished simulation.shutdown.stats (simulation.report options.key)

/-- Runs the command. -/
def run {m : Type → Type} [Monad m] (readFile : String → m (Except String ByteArray))
    (surroundings : Surroundings) (arguments : List String) : m Outcome := do
  if arguments.any fun argument => argument = "--help" || argument = "-h" then
    return { ignored := [], ending := .usage }
  else
    let (ignored, result) ← Options.read readFile (Item.ofArguments arguments) .default
    match result with
    | .error failure => return { ignored, ending := .failed failure }
    | .ok options => return { ignored, ending := simulate options surroundings }

/-! ## What is shown -/

/-- How the command is used, under the name of the program. -/
def usage (program : String) : String :=
  String.join [
    "Usage: ", program, " [options]\n",
    "  --config <file.json>   load a SimulatorConfig\n",
    "  --nodes <n>            number of nodes (default 10)\n",
    "  --fanout <n>           peers per forward (default 3)\n",
    "  --latency-ms <ms>      per-hop delay (default 5)\n",
    "  --jitter-ms <ms>       extra random per-hop delay (default 0)\n",
    "  --drop-rate <p>        loss probability in [0, 1] (default 0)\n",
    "  --seed <n>             reproducible topology, selection and loss\n",
    "  --rumor-rounds <n>     re-push rounds per message (default 8)\n",
    "  --from <node-id>       broadcast origin (default node-0)\n",
    "  --key <key>            state key to broadcast and watch (default x)\n",
    "  --timeout-ms <ms>      convergence timeout (default 2000)\n",
    "  --verbose              debug logging\n",
    "Example: ", program, " --nodes 50 --fanout 4 --drop-rate 0.1 --seed 7\n"]

/-- The exit code of an ending. -/
def Ending.exitCode : Ending → Nat
  | .failed _ => 1
  | _ => 0

/-- What an ending writes to the standard output. -/
def Ending.output : Ending → Option String
  | .finished stats report => some (stats.toJson.pretty ++ "\n" ++ report.toJson.pretty ++ "\n")
  | _ => none

end Epidemic.Command
