import GlyphStack.CommandLine.Arguments
import GlyphStack.Machine.Run

/-!
A run from the command line: where the program comes from, the machine it is run on, and what the
run answers on standard output, standard error and as its exit status.
-/

namespace GlyphStack.CommandLine

/-- Where the program of a run comes from. -/
inductive ProgramSource where
  | inline (code : String)
  | file (path : String)
  | standardInput
deriving DecidableEq, Repr

/-- Why a program cannot be read. -/
inductive ReadFault where
  /-- The system refuses, for a reason that has a number. -/
  | refused (reason : String) (number : Nat)
  /-- The bytes are not UTF-8. -/
  | notText
deriving DecidableEq, Repr

/-- The fault that there is no such file. -/
def ReadFault.missing : ReadFault := .refused "No such file or directory" 2

/-- The fault that the file is a directory. -/
def ReadFault.directory : ReadFault := .refused "Is a directory" 21

/-- What a run answers. -/
structure Answer where
  status : Nat
  output : String := ""
  errors : String := ""
deriving DecidableEq, Repr

/-- The exit status of a program that fails. -/
def failureStatus : Nat := 126

/-- The exit status when the machine brings its host down. -/
def crashStatus : Nat := 101

/-- The exit status when the program cannot be read. -/
def unreadableStatus : Nat := 1

/-- The exit status when the arguments are refused. -/
def usageStatus : Nat := 2

/-- The answer to a request for the version. -/
def versionText : String := "wl 0.1.0\n"

/-- The answer to a request for help. -/
def helpText : String :=
  "Usage: wl [OPTIONS] [FILE]\n\n" ++
  "Runs the program of FILE, or of standard input.\n\n" ++
  "  -e, --execute CODE         Run CODE\n" ++
  "  -D, --define NAME=VALUE    Give a variable a value first (repeatable)\n" ++
  "      --max-stack-size N     Values that one stack may hold\n" ++
  "      --max-frame-depth N    Frames that may be open\n" ++
  "      --max-steps N          Units that may be carried out\n" ++
  "  -v, --verbose              Report progress\n" ++
  "  -h, --help                 Show this help\n" ++
  "  -V, --version              Show the version\n"

/-- The option as it is written in a message. -/
def Flag.written : Flag → String
  | .execute => "--execute <CODE>"
  | .define => "--define <NAME=VALUE>"
  | .maxStackSize => "--max-stack-size <N>"
  | .maxFrameDepth => "--max-frame-depth <N>"
  | .maxSteps => "--max-steps <N>"
  | .verbose => "--verbose"
  | .version => "--version"
  | .help => "--help"

/-- The wording of a usage error. -/
def UsageError.message : UsageError → String
  | .unknownOption argument => "error: unexpected argument '" ++ argument ++ "' found\n"
  | .missingValue flag => "error: a value is required for '" ++ flag.written ++ "'\n"
  | .unexpectedValue flag => "error: no value is expected for '" ++ flag.written ++ "'\n"
  | .repeated flag =>
      "error: the argument '" ++ flag.written ++ "' cannot be used multiple times\n"
  | .notACount text => "error: invalid count '" ++ text ++ "'\n"
  | .notADefinition text => "error: expected NAME=VALUE, got '" ++ text ++ "'\n"
  | .unexpectedFile argument => "error: unexpected argument '" ++ argument ++ "' found\n"

/-- The wording of a read fault. -/
def ReadFault.message : ReadFault → String
  | .refused reason number => s!"{reason} (os error {number})"
  | .notText => "stream did not contain valid UTF-8"

namespace ProgramSource

/-- The program source as it is named in a message. -/
def written : ProgramSource → String
  | .inline _ => "command line"
  | .file path => path
  | .standardInput => "standard input"

/-- Where diagnostics say that the program comes from. -/
def origin : ProgramSource → Origin
  | .inline _ => { name := "<execute>" }
  | .file path => { name := path }
  | .standardInput => { name := "<stdin>" }

end ProgramSource

namespace Invocation

/-- Where the program comes from: from the arguments, from the file they name unless that is a
single dash, and otherwise from standard input. -/
def source (invocation : Invocation) : ProgramSource :=
  match invocation.code, invocation.file with
  | some code, _ => .inline code
  | none, some path => if path = "-" then .standardInput else .file path
  | none, none => .standardInput

/-- Reads the name of an infinity or of not-a-number, in letters of any case, with or without a
sign. -/
def readNamedNumber? (cs : List Char) : Option Float :=
  let (negative, name) := Number.Numeral.takeSign cs
  let name := String.ofList (name.map Char.toLower)
  if name = "inf" ∨ name = "infinity" then some (Number.infinity negative)
  else if name = "nan" then some Number.nan
  else none

/-- The value of a definition: a number if its text, without blanks at the ends, is a numeral or
names an infinity or not-a-number, and otherwise the text as it is. -/
def definedValue (text : String) : Value :=
  let trimmed := Text.trim text.toList
  match Number.Numeral.read? trimmed, readNamedNumber? trimmed with
  | some numeral, _ => .number numeral.toFloat
  | none, some x => .number x
  | none, none => .string text

/-- The variables that the definitions make; a later definition of a name counts. -/
def bindings (invocation : Invocation) : Dictionary :=
  invocation.defines.foldl (fun bindings (name, text) => bindings.put name (definedValue text))
    .empty

/-- The limits of the run. -/
def limits (invocation : Invocation) : Limits :=
  let usual : Limits := {}
  { usual with
    stackSize := invocation.maxStackSize.getD usual.stackSize
    frameDepth := invocation.maxFrameDepth.getD usual.frameDepth }

/-- The machine that runs a program. -/
def machine (invocation : Invocation) (code : String) : Except Failure Machine :=
  let machine := ((Machine.onHeap .empty code).withLimits invocation.limits).withOrigin
    invocation.source.origin
  match machine.withBindings invocation.bindings with
  | .ok machine => .ok machine
  | .error fault => .error { fault }

/-- Runs a program: what it sent out and its failure, if it failed. There is no answer if a run
without a budget takes more than `fuel` units. -/
def run? (fuel : Nat) (invocation : Invocation) (code : String) :
    Option (String × Except Failure Unit) :=
  match invocation.machine code with
  | .error failure => some ("", .error failure)
  | .ok machine =>
      let answer := match invocation.maxSteps with
        | some budget => some (machine.runWithBudget budget)
        | none => machine.run? fuel
      answer.map fun (result, machine) => (String.join machine.store.output.toList, result)

end Invocation

/-- What a run writes about its end, and its exit status. For a crash the text stands for what the
runtime of the host writes as it goes down. -/
def report : Except Failure Unit → Nat × String
  | .ok _ => (0, "")
  | .error failure =>
      (if failure.fault = .crash then crashStatus else failureStatus, failure.message ++ "\n")

/-- The answer when the program cannot be read. -/
def unreadable (source : ProgramSource) (fault : ReadFault) : Answer where
  status := unreadableStatus
  errors := "Error: failed to read " ++ source.written ++ ": " ++ fault.message ++ "\n"

/-- The text of a program's bytes. -/
def decode (bytes : ByteArray) : Except ReadFault String :=
  match String.fromUTF8? bytes with
  | some code => .ok code
  | none => .error .notText

/-- The program of a source whose bytes can be had with `fetch`. -/
def programText (fetch : ProgramSource → Except ReadFault ByteArray) (source : ProgramSource) :
    Except ReadFault String :=
  match source with
  | .inline code => .ok code
  | source => do decode (← fetch source)

/-- The answer to the arguments of a command line, given how the bytes of a program source can be
had. There is no answer if a run without a budget takes more than `fuel` units. -/
def answer? (fuel : Nat) (fetch : ProgramSource → Except ReadFault ByteArray)
    (arguments : List String) : Option Answer :=
  match readArguments arguments with
  | .error e => some { status := usageStatus, errors := e.message }
  | .ok .version => some { status := 0, output := versionText }
  | .ok .help => some { status := 0, output := helpText }
  | .ok (.run invocation) =>
      match programText fetch invocation.source with
      | .error fault => some (unreadable invocation.source fault)
      | .ok code =>
          (invocation.run? fuel code).map fun (output, result) =>
            let (status, errors) := report result
            { status, output, errors }

end GlyphStack.CommandLine
