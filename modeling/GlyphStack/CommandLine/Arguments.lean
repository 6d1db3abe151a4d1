import GlyphStack.Text.LetterCase
import GlyphStack.Number.Numeral

/-!
The arguments of the command line. Options come in a short form, of which several may share one
dash, and a long form; the value of an option is attached to it or is the next argument. After `--`
every argument is a file name. The arguments are read from left to right, and the first one that
asks for the version or for help, or that cannot be taken, ends the reading.
-/

namespace GlyphStack.CommandLine

/-- An option of the command line. -/
inductive Flag where
  | execute
  | define
  | maxStackSize
  | maxFrameDepth
  | maxSteps
  | verbose
  | version
  | help
deriving DecidableEq, Repr

/-- The option of a letter. -/
def Flag.ofLetter? : Char → Option Flag
  | 'e' => some .execute
  | 'D' => some .define
  | 'v' => some .verbose
  | 'V' => some .version
  | 'h' => some .help
  | _ => none

/-- The option of a long name. -/
def Flag.ofName? : String → Option Flag
  | "execute" => some .execute
  | "define" => some .define
  | "max-stack-size" => some .maxStackSize
  | "max-frame-depth" => some .maxFrameDepth
  | "max-steps" => some .maxSteps
  | "verbose" => some .verbose
  | "version" => some .version
  | "help" => some .help
  | _ => none

/-- Whether an option needs a value. -/
def Flag.takesValue : Flag → Bool
  | .execute | .define | .maxStackSize | .maxFrameDepth | .maxSteps => true
  | .verbose | .version | .help => false

/-- A run that the arguments ask for. -/
structure Invocation where
  /-- The file that holds the program. -/
  file : Option String := none
  /-- The program itself. -/
  code : Option String := none
  /-- Names in lower case with the text of their values, in the order given. -/
  defines : List (String × String) := []
  maxStackSize : Option Nat := none
  maxFrameDepth : Option Nat := none
  maxSteps : Option Nat := none
  verbose : Bool := false
deriving DecidableEq, Repr

/-- What the arguments ask for. -/
inductive Request where
  | run (invocation : Invocation)
  | version
  | help
deriving DecidableEq, Repr

/-- Why arguments are refused. -/
inductive UsageError where
  | unknownOption (argument : String)
  | missingValue (flag : Flag)
  | unexpectedValue (flag : Flag)
  | repeated (flag : Flag)
  | notACount (text : String)
  | notADefinition (text : String)
  | unexpectedFile (argument : String)
deriving DecidableEq, Repr

/-- Reads a count of at most 64 bits, with or without a plus sign. -/
def readCount (text : String) : Except UsageError Nat :=
  let digits := match text.toList with
    | '+' :: digits => digits
    | digits => digits
  if digits ≠ [] ∧ digits.all Char.isDigit ∧ Number.Numeral.spelled digits ≤ Number.maxCount then
    .ok (Number.Numeral.spelled digits)
  else .error (.notACount text)

/-- Reads a definition: a name that is not empty, an equals sign, and the text of the value. -/
def readDefinition (text : String) : Except UsageError (String × String) :=
  let name := text.toList.takeWhile (· ≠ '=')
  match text.toList.dropWhile (· ≠ '=') with
  | _ :: value =>
      if name.isEmpty then .error (.notADefinition text)
      else .ok (Text.lowercase (String.ofList name), String.ofList value)
  | [] => .error (.notADefinition text)

namespace Invocation

/-- Fills a place that must be empty so far. -/
def once {α : Type} (flag : Flag) (place : Option α) (a : α) : Except UsageError (Option α) :=
  match place with
  | none => .ok (some a)
  | some _ => .error (.repeated flag)

/-- Takes the value of an option. -/
def withValue (invocation : Invocation) (flag : Flag) (value : String) :
    Except UsageError Invocation := do
  match flag with
  | .execute => return { invocation with code := ← once flag invocation.code value }
  | .define =>
      return { invocation with defines := invocation.defines ++ [← readDefinition value] }
  | .maxStackSize =>
      return { invocation with
        maxStackSize := ← once flag invocation.maxStackSize (← readCount value) }
  | .maxFrameDepth =>
      return { invocation with
        maxFrameDepth := ← once flag invocation.maxFrameDepth (← readCount value) }
  | .maxSteps =>
      return { invocation with maxSteps := ← once flag invocation.maxSteps (← readCount value) }
  | .verbose | .version | .help => throw (.unexpectedValue flag)

/-- Takes a file name; there is at most one. -/
def withFile (invocation : Invocation) (file : String) : Except UsageError Invocation :=
  match invocation.file with
  | none => .ok { invocation with file := some file }
  | some _ => .error (.unexpectedFile file)

end Invocation

/-- What an argument leaves to do: go on to the next one, take it as the value of an option, or
stop. -/
inductive Pending where
  | nothing (invocation : Invocation)
  | value (flag : Flag) (invocation : Invocation)
  | stop (request : Request)

/-- Takes an option that has no value. -/
def takeSwitch (invocation : Invocation) (flag : Flag) : Except UsageError Pending :=
  match flag with
  | .version => .ok (.stop .version)
  | .help => .ok (.stop .help)
  | .verbose =>
      if invocation.verbose then .error (.repeated flag)
      else .ok (.nothing { invocation with verbose := true })
  | _ => .error (.missingValue flag)

/-- Takes the letters after a single dash. What follows the letter of an option with a value is that
value, after an equals sign if there is one. -/
def takeLetters (invocation : Invocation) : List Char → Except UsageError Pending
  | [] => .ok (.nothing invocation)
  | letter :: rest =>
      match Flag.ofLetter? letter with
      | none => .error (.unknownOption (String.ofList ['-', letter]))
      | some flag =>
          if flag.takesValue then
            match rest with
            | [] => .ok (.value flag invocation)
            | '=' :: value => .nothing <$> invocation.withValue flag (String.ofList value)
            | value => .nothing <$> invocation.withValue flag (String.ofList value)
          else
            match takeSwitch invocation flag with
            | .ok (.nothing invocation) => takeLetters invocation rest
            | other => other

/-- Takes what follows two dashes: a name, and a value if an equals sign follows the name. -/
def takeName (invocation : Invocation) (argument : List Char) : Except UsageError Pending :=
  let name := String.ofList (argument.takeWhile (· ≠ '='))
  match Flag.ofName? name, argument.dropWhile (· ≠ '=') with
  | none, _ => .error (.unknownOption ("--" ++ name))
  | some flag, _ :: value =>
      if flag.takesValue then .nothing <$> invocation.withValue flag (String.ofList value)
      else .error (.unexpectedValue flag)
  | some flag, [] =>
      if flag.takesValue then .ok (.value flag invocation) else takeSwitch invocation flag

/-- Takes file names only. -/
def takeFiles (invocation : Invocation) : List String → Except UsageError Request
  | [] => .ok (.run invocation)
  | file :: rest => do takeFiles (← invocation.withFile file) rest

/-- Takes one argument that is not the value of an option. -/
def takeArgument (invocation : Invocation) (argument : String) : Except UsageError Pending :=
  match argument.toList with
  | '-' :: '-' :: name => takeName invocation name
  | '-' :: letter :: letters => takeLetters invocation (letter :: letters)
  | _ => .nothing <$> invocation.withFile argument

/-- Whether an argument is an option by its form; a single dash is not. -/
def looksLikeOption (argument : String) : Bool :=
  match argument.toList with
  | '-' :: _ :: _ => true
  | _ => false

/-- Takes the arguments one after the other; `due` is the option whose value comes next. -/
def takeArguments (due : Option Flag) (invocation : Invocation) :
    List String → Except UsageError Request
  | [] =>
      match due with
      | none => .ok (.run invocation)
      | some flag => .error (.missingValue flag)
  | argument :: rest =>
      match due with
      | some flag =>
          if looksLikeOption argument then .error (.missingValue flag)
          else
            match invocation.withValue flag argument with
            | .ok invocation => takeArguments none invocation rest
            | .error e => .error e
      | none =>
          if argument = "--" then takeFiles invocation rest
          else
            match takeArgument invocation argument with
            | .ok (.nothing invocation) => takeArguments none invocation rest
            | .ok (.value flag invocation) => takeArguments (some flag) invocation rest
            | .ok (.stop request) => .ok request
            | .error e => .error e

/-- Reads the arguments of the command line. -/
def readArguments (arguments : List String) : Except UsageError Request :=
  takeArguments none {} arguments

end GlyphStack.CommandLine
