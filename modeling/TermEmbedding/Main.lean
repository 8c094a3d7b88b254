import TermEmbedding.Linear.Floating
import TermEmbedding.Program.Run

/-!
# The program

The outer layer: it asks the machine for what the library leaves open, the environment, lines and
files, and prints what the library says.
-/

namespace TermEmbedding

/-- Text from outside as the library takes it. -/
def textOf (s : String) : Text := s.toList

/-- Text of the library as the machine takes it. -/
def stringOf (t : Text) : String := String.ofList t

/-- Code points as the machine takes them. -/
def printable (ps : List CodePoint) : String := stringOf (Text.ofCodePoints ps)

/-- The error of the library that a machine's error is. -/
def fileError : IO.Error → FileError
  | .noFileOrDirectory .. => .missing
  | .permissionDenied .. => .forbidden
  | .inappropriateType _ code _ => if code = 20 then .noDirectory else .directory
  | .invalidArgument _ code _ => if code = 36 then .nameTooLong else .forbidden
  | _ => .missing

/-- Carries out a computation on the files of the machine. -/
def perform {α : Type} : Interaction α → IO α
  | .done value => return value
  | .read path next => do
    let answer ← try
        let contents ← IO.FS.readBinFile (stringOf path.text)
        pure (.ok contents.toList)
      catch e => pure (.error (fileError e))
    perform (next answer)
  | .write path contents next => do
    let answer ← try
        IO.FS.writeBinFile (stringOf path.text) ⟨contents.toArray⟩
        pure (.ok ())
      catch e => pure (.error (fileError e))
    perform (next answer)
  | .status path next => do
    let answer ← try
        let _ ← IO.FS.readBinFile (stringOf path.text)
        pure .file
      catch e =>
        pure (match fileError e with
          | .directory => .directory
          | .nameTooLong => .nameTooLong
          | _ => .absent)
    perform (next answer)

def readText (name : String) : IO Text := do
  let contents ← try IO.FS.readFile name catch _ => pure ""
  return textOf contents

/-- The variable of an entry of the environment, and its value. -/
def variableOf? (entry : Text) : Option (Text × Text) :=
  match entry.dropWhile (· ≠ '=') with
  | [] => none
  | _ :: value => some (entry.takeWhile (· ≠ '='), value)

/-- The account of a line of the list of accounts, and its home directory. -/
def accountOf? (line : Text) : Option (Text × Text) :=
  match Text.pieces ':' line with
  | [name, _, _, _, _, home, _] => some (name, home)
  | _ => none

def readEnvironment : IO Environment := do
  let entries ← readText "/proc/self/environ"
  let accounts ← readText "/etc/passwd"
  return ⟨(Text.pieces '\x00' entries).filterMap variableOf?,
    (Text.pieces '\n' accounts).filterMap accountOf?⟩

/-- Reads lines and carries out their commands. -/
partial def readLines (program : Program) (s : Session) : IO Unit := do
  IO.print (stringOf program.prompt)
  (← IO.getStdout).flush
  let input ← (← IO.getStdin).getLine
  if input.isEmpty then IO.print (printable (Program.line Program.farewell.codePoints))
  else
    let line := textOf (input.dropEndWhile (· == '\n')).toString
    let (next, printed) ← perform (Program.runLine program.settings s line)
    IO.print (printable printed)
    readLines program next

/-- Says why a run ended early, and gives the code of the process. -/
def report (e : RunError) : IO UInt32 := do
  IO.eprintln (stringOf e.message)
  return match e with
    | .help => 0
    | .arguments _ => 2
    | _ => 1

def runArguments (argv : List String) : IO UInt32 := do
  let environment ← readEnvironment
  match ← perform (Program.prepare NoiseSource.congruential environment (argv.map textOf)) with
  | .error e => report e
  | .ok program =>
    match program.commands with
    | [] =>
      IO.print (printable (Program.line Program.banner.codePoints))
      readLines program .new
      return 0
    | commands =>
      let run ← perform (Program.runCommands program.settings .new commands)
      IO.print (printable run.printed)
      match run.error with
      | none => return 0
      | some e => report e

end TermEmbedding

def main (argv : List String) : IO UInt32 := TermEmbedding.runArguments argv
