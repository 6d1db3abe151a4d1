import GlyphStack.CommandLine.Session

/-!
The command line. It fetches the bytes of the program and writes what the run sends out as the run
goes on.
-/

namespace GlyphStack.CommandLine

/-- How many units are carried out before what they sent out is written. -/
def unitsPerTurn : Nat := 256

/-- Writes what a machine has sent out so far. -/
def flushOutput (machine : Machine) : IO Machine := do
  let (texts, machine) := machine.takeOutput
  let out ← IO.getStdout
  for text in texts do
    out.putStr text
  out.flush
  return machine

/-- Runs a machine to its end; `budget` counts the units that it may still take. -/
partial def runTurns (machine : Machine) (limit budget : Option Nat) :
    IO (Except Failure Unit) := do
  let units := match budget with
    | some left => min left unitsPerTurn
    | none => unitsPerTurn
  let (ending, machine) := machine.runUpTo units
  let machine ← flushOutput machine
  match ending with
  | .finished => return .ok ()
  | .failed failure => return .error failure
  | .unfinished =>
      match limit, budget.map (· - units) with
      | some limit, some 0 => return (machine.outOfBudget limit).1
      | _, budget => runTurns machine limit budget

/-- The read fault of a failed system call. Some calls report the number of their reason negated, as
a word. -/
def readFaultOf : IO.Error → ReadFault
  | .noFileOrDirectory _ _ _ | .noSuchThing _ _ _ => .missing
  | .inappropriateType _ number reason =>
      let number := min number.toNat (4294967296 - number.toNat)
      if number = 20 then .refused "Not a directory" number
      else if number = 21 then .directory
      else .refused reason number
  | .permissionDenied _ number _ =>
      .refused "Permission denied" (min number.toNat (4294967296 - number.toNat))
  | e => .refused e.toString 0

/-- The bytes of a program source. -/
def fetch (source : ProgramSource) : IO (Except ReadFault ByteArray) := do
  try
    match source with
    | .inline code => return .ok code.toUTF8
    | .file path => return .ok (← IO.FS.readBinFile path)
    | .standardInput => return .ok (← (← IO.getStdin).readBinToEnd)
  catch e => return .error (readFaultOf e)

/-- Writes an answer. -/
def write (answer : Answer) : IO UInt32 := do
  IO.print answer.output
  IO.eprint answer.errors
  return answer.status.toUInt32

/-- Runs what the arguments ask for. -/
def respond (invocation : Invocation) : IO UInt32 := do
  let bytes ← fetch invocation.source
  match programText (fun _ => bytes) invocation.source with
  | .error fault => write (unreadable invocation.source fault)
  | .ok code =>
      let result ← match invocation.machine code with
        | .error failure => pure (.error failure)
        | .ok machine =>
            runTurns machine invocation.maxSteps (invocation.maxSteps.map (max 1))
      let (status, errors) := report result
      write { status, errors }

/-- Answers the arguments of the command line. -/
def runArguments (arguments : List String) : IO UInt32 :=
  match readArguments arguments with
  | .error e => write { status := usageStatus, errors := e.message }
  | .ok .version => write { status := 0, output := versionText }
  | .ok .help => write { status := 0, output := helpText }
  | .ok (.run invocation) => respond invocation

end GlyphStack.CommandLine

/-- The command line. -/
def main (arguments : List String) : IO UInt32 :=
  GlyphStack.CommandLine.runArguments arguments
