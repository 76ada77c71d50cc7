import Epidemic.Command.Run

/-!
# The program

The command line around `Epidemic.Command`: it reads files, the clock and the entropy of the system,
and prints.
-/

namespace Epidemic

/-- The reason that belongs to a number of the system, with this number. Numbers may come with a minus
sign. -/
def reasonText (code : UInt32) : String :=
  let number := min code.toNat (Width.words32 - code.toNat)
  let reason :=
    match number with
    | 2 => "No such file or directory"
    | 13 => "Permission denied"
    | 20 => "Not a directory"
    | 21 => "Is a directory"
    | 36 => "File name too long"
    | _ => "The file cannot be read"
  String.join [reason, " (os error ", toString number, ")"]

/-- Reads the bytes of a file, or gives the reason why they cannot be read. -/
def readFile (path : String) : IO (Except String ByteArray) := do
  try
    return .ok (← IO.FS.readBinFile path)
  catch reason =>
    match reason with
    | .noFileOrDirectory _ code _ => return .error (reasonText code)
    | .inappropriateType _ code _ => return .error (reasonText code)
    | .permissionDenied _ code _ => return .error (reasonText code)
    | .invalidArgument _ code _ => return .error (reasonText code)
    | other => return .error (toString other)

end Epidemic

/-- Runs the command with the arguments of the program. -/
def main (arguments : List String) : IO UInt32 := do
  let bytes ← IO.getRandomBytes 8
  let seed := bytes.foldl (fun value byte => value * 256 + UInt64.ofNat byte.toNat) (0 : UInt64)
  let wall ← IO.monoMsNow
  let outcome ← Epidemic.Command.run Epidemic.readFile ⟨wall, seed⟩ arguments
  for argument in outcome.ignored do
    IO.eprintln ("Ignoring unrecognised argument: " ++ argument)
  match outcome.ending with
  | .usage => IO.eprint (Epidemic.Command.usage "gossip-sim")
  | .failed failure => IO.eprintln ("Error: " ++ failure.message)
  | .finished _ _ => IO.print (outcome.ending.output.getD "")
  return UInt32.ofNat outcome.ending.exitCode
