import TermEmbedding.Program.Arguments
import TermEmbedding.Program.Library
import TermEmbedding.Session.Handling

/-!
# Runs of the program

A run begins with the arguments and the environment, which between them say what library is wanted,
what seed models start from and how much is told about what the program does. If the arguments hold
commands, these are carried out and the run is over; otherwise the program reads lines until there
are no more. A failure that is not explained to the user ends a run of commands, but while lines are
read it is shown and the next line is read.
-/

namespace TermEmbedding

/-- How a run of the program ends before its work is done, or instead of it. -/
inductive RunError where
  /-- The arguments make no sense. -/
  | arguments (error : ArgumentError)
  /-- Help was asked for, and that is all. -/
  | help
  /-- The environment holds a seed that is no integer. -/
  | seed (text : Text)
  /-- The environment asks for a level of diagnostics that does not exist. -/
  | level (text : Text)
  /-- The level of diagnostics was dropped from the arguments. -/
  | noLevel
  | library (error : LibraryError)
  /-- A command failed and nothing explains the failure. -/
  | command (failure : CommandFailure)
  /-- A command was dropped from the arguments. -/
  | noCommand

/-- A run of the program: what it has printed, and whether it ended early. -/
structure Run where
  printed : List CodePoint
  error : Option RunError

/-- A program that is ready to work. -/
structure Program where
  settings : Settings
  prompt : Text
  /-- The commands, apart from those that were dropped. -/
  commands : List (Option Text)

namespace Program

/-! ## Getting ready -/

def defaultPrompt : Text := ">> ".toList

/-- What the arguments are when none are given. -/
def defaultArguments (environment : Environment) : Arguments where
  library := (environment.get? "FETISH_CONTEXT_LIB".toList).getD Library.bundledName
  seed := .unspecified
  logLevel :=
    some (Text.upper ((environment.get? "FETISH_LOG_LEVEL".toList).getD "WARNING".toList))
  prompt := defaultPrompt
  commands := []

/-- The seed that the environment holds. -/
def environmentSeed (environment : Environment) : Except RunError Seed :=
  match environment.get? "FETISH_SEED".toList with
  | none | some [] => return .unspecified
  | some t =>
    match integer? t with
    | some seed => return .integer seed
    | none => throw (.seed t)

/-- The levels of diagnostics that exist. More of them exist than can be asked for by arguments. -/
def knownLevels : List Text :=
  Arguments.levels ++ ["CRITICAL".toList, "FATAL".toList, "WARN".toList, "NOTSET".toList]

/-- Reads arguments and environment, up to the library, which is still to be found. -/
def configure (source : NoiseSource Float) (environment : Environment) (argv : List Text) :
    Except RunError (Text × Program) := do
  match Arguments.read (defaultArguments environment) argv with
  | .error e => throw (.arguments e)
  | .ok .help => throw .help
  | .ok (.arguments a) =>
    let seed ← match a.seed with
      | .unspecified => environmentSeed environment
      | seed => pure seed
    match a.logLevel with
    | none => throw .noLevel
    | some level =>
      if knownLevels.contains level then
        return (a.library, ⟨⟨source, seed, environment⟩, a.prompt, a.commands⟩)
      else throw (.level level)

/-- Gets the program ready. -/
def prepare (source : NoiseSource Float) (environment : Environment) (argv : List Text) :
    Interaction (Except RunError Program) := do
  match configure source environment argv with
  | .error e => return .error e
  | .ok (target, program) =>
    match ← Library.find environment target with
    | .error e => return .error (.library e)
    | .ok _ => return .ok program

/-! ## Working -/

variable [Routines Float]

/-- A text that is printed as a line. -/
def line (ps : List CodePoint) : List CodePoint := ps ++ [.char '\n']

/-- Carries out commands until one fails without explanation. -/
def runCommands (settings : Settings) (s : Session) : List (Option Text) → Interaction Run
  | [] => return ⟨[], none⟩
  | none :: _ => return ⟨[], some .noCommand⟩
  | some command :: rest => do
    match ← s.handle settings command with
    | (_, .error f) => return ⟨[], some (.command f)⟩
    | (next, .ok answer) =>
      let run ← runCommands settings next rest
      return { run with printed := line answer ++ run.printed }

def banner : Text := "Term embedding REPL. Type help for commands, Ctrl-D to exit.".toList

def farewell : Text := "\nCTRL-D".toList

/-- Carries out the command of a line, and gives what is printed for it. A blank line is none. -/
def runLine (settings : Settings) (s : Session) (input : Text) :
    Interaction (Session × List CodePoint) := do
  if (Text.strip input).isEmpty then return (s, [])
  else
    match ← s.handle settings input with
    | (next, .ok answer) => return (next, line answer)
    | (next, .error f) => return (next, line (Text.codePoints ("Error: ".toList ++ f.message)))

/-- Carries out the commands of lines, with the prompt before each of them and before their end. -/
def runLines (program : Program) (s : Session) : List Text → Interaction (List CodePoint)
  | [] => return program.prompt.codePoints ++ line farewell.codePoints
  | input :: rest => do
    let (next, printed) ← runLine program.settings s input
    let later ← runLines program next rest
    return program.prompt.codePoints ++ printed ++ later

/-- A run on arguments, an environment and the lines that are there to be read. -/
def run (source : NoiseSource Float) (environment : Environment) (argv lines : List Text) :
    Interaction Run := do
  match ← prepare source environment argv with
  | .error e => return ⟨[], some e⟩
  | .ok program =>
    match program.commands with
    | [] =>
      let printed ← runLines program .new lines
      return ⟨line banner.codePoints ++ printed, none⟩
    | commands => runCommands program.settings .new commands

end Program

namespace RunError

def programName : Text := "fetish-repl".toList

def usage : Text :=
  ("usage: fetish-repl [-h] [-e COMMAND] [--seed SEED] " ++
    "[--log-level \x7bDEBUG,INFO,WARNING,ERROR\x7d] [--prompt PROMPT] [context_library]").toList

def message : RunError → Text
  | arguments e => usage ++ '\n' :: programName ++ ": error: ".toList ++ e.message
  | help => []
  | seed t => "FETISH_SEED must be an integer, got ".toList ++ t.quoted
  | level t => "Unknown level: ".toList ++ t.quoted
  | noLevel => "No level of diagnostics was given".toList
  | library e =>
    "Error occurred when loading context generation library: ".toList ++ e.message
  | command f => f.message
  | noCommand => "No command was given".toList

end RunError

end TermEmbedding
