import TermEmbedding.Noise
import TermEmbedding.Text.Digit
import TermEmbedding.Text.Numeral
import TermEmbedding.Text.Quoted
import TermEmbedding.Text.Upper

/-!
# Arguments of the program

The program takes options and the name of a library. Options have long names, which may be cut short
as long as it is clear which is meant, and some have a letter. The argument of an option is the next
argument of the program, or it stands behind an equals sign, or right behind the letter. Two dashes
alone end the options; where they are attached to an option they are dropped, which leaves the
option without an argument that it can use.

What looks like an option is told apart before anything is read: an argument with a dash in front,
unless it is the dash alone, a negative number, or has a blank in it and no known beginning.
-/

namespace TermEmbedding

/-- What the program is told on its command line. -/
structure Arguments where
  library : Text
  seed : Seed
  /-- The level of diagnostics, unless it was dropped. -/
  logLevel : Option Text
  prompt : Text
  /-- The commands, apart from those that were dropped. -/
  commands : List (Option Text)
deriving Inhabited

/-- The options of the program. -/
inductive ProgramOption where
  | help
  | execute
  | seed
  | logLevel
  | prompt
deriving DecidableEq, Inhabited

namespace ProgramOption

/-- All options with their long names and their letters. -/
def all : List (ProgramOption × Text × Option Char) :=
  [(help, "--help".toList, some 'h'), (execute, "--execute".toList, some 'e'),
    (seed, "--seed".toList, none), (logLevel, "--log-level".toList, none),
    (prompt, "--prompt".toList, none)]

def longName : ProgramOption → Text
  | help => "--help".toList
  | execute => "--execute".toList
  | seed => "--seed".toList
  | logLevel => "--log-level".toList
  | prompt => "--prompt".toList

def shown (o : ProgramOption) : Text :=
  match o with
  | help => "-h/".toList ++ o.longName
  | execute => "-e/".toList ++ o.longName
  | o => o.longName

def ofLetter? (c : Char) : Option ProgramOption :=
  (all.find? fun (_, _, letter) ↦ letter = some c).map (·.1)

/-- The option of a complete name. -/
def ofName? : Text → Option ProgramOption
  | ['-', c] => ofLetter? c
  | name => (all.find? fun (_, long, _) ↦ long = name).map (·.1)

/-- The options whose long names begin with a text. -/
def beginningWith (t : Text) : List ProgramOption :=
  (all.filter fun (_, long, _) ↦ t.isPrefixOf long).map (·.1)

end ProgramOption

/-- Why the arguments make no sense. -/
inductive ArgumentError where
  | ambiguous (argument : Text) (options : List ProgramOption)
  | noArgument (option : ProgramOption)
  | unexpectedArgument (option : ProgramOption) (argument : Text)
  | noInteger (option : ProgramOption) (argument : Text)
  | noChoice (option : ProgramOption) (argument : Text) (choices : List Text)
  | unrecognized (arguments : List Text)
deriving DecidableEq, Inhabited

namespace ArgumentError

/-- The beginning of a message about an option. -/
def aboutOption (o : ProgramOption) : Text := "argument ".toList ++ o.shown ++ ": ".toList

def message : ArgumentError → Text
  | ambiguous argument options =>
    "ambiguous option: ".toList ++ argument ++ " could match ".toList ++
      Text.join ", ".toList (options.map (·.longName))
  | noArgument o => aboutOption o ++ "expected one argument".toList
  | unexpectedArgument o argument =>
    aboutOption o ++ "ignored explicit argument ".toList ++ argument.quoted
  | noInteger o argument => aboutOption o ++ "invalid int value: ".toList ++ argument.quoted
  | noChoice o argument choices =>
    aboutOption o ++ "invalid choice: ".toList ++ argument.quoted ++ " (choose from ".toList ++
      Text.join ", ".toList (choices.map Text.quoted) ++ [')']
  | unrecognized arguments =>
    "unrecognized arguments: ".toList ++ Text.join [' '] arguments

end ArgumentError

namespace Arguments

/-! ## Telling options apart -/

/-- What an argument is taken for. -/
inductive Token where
  /-- No option. -/
  | plain (t : Text)
  /-- The two dashes that end the options. -/
  | ending
  /-- An option, with the text that is attached to it, and whether that text stands right behind a
  letter. -/
  | option (o : ProgramOption) (behindLetter : Bool) (attached : Option Text)
  /-- Something with the form of an option that is none. -/
  | unknown (t : Text)
deriving DecidableEq, Inhabited

/-- Whether a text is a negative number. It may have a line end behind it. -/
def isNegativeNumber : Text → Bool
  | '-' :: rest =>
    let magnitude := if rest.getLast? = some '\n' then rest.dropLast else rest
    let isDigits (t : Text) : Bool := t ≠ [] && t.all fun c ↦ (digitValue? c).isSome
    isDigits magnitude ||
      match magnitude.dropWhile fun c ↦ (digitValue? c).isSome with
      | '.' :: fraction => isDigits fraction
      | _ => false
  | _ => false

/-- The part of an argument before its first equals sign, and the part behind it. -/
def splitEquals (t : Text) : Text × Option Text :=
  match t.dropWhile (· ≠ '=') with
  | [] => (t, none)
  | _ :: rest => (t.takeWhile (· ≠ '='), some rest)

/-- The options that an argument with a dash in front may stand for. -/
def candidates : Text → List Token
  | '-' :: '-' :: rest =>
    let (name, attached) := splitEquals ('-' :: '-' :: rest)
    (ProgramOption.beginningWith name).map (.option · false attached)
  | '-' :: c :: rest =>
    ((ProgramOption.ofLetter? c).map (.option · true (some rest))).toList
  | _ => []

/-- Tells what an argument is. -/
def classify (t : Text) : Except ArgumentError Token :=
  match t with
  | [] | ['-'] => return .plain t
  | '-' :: _ =>
    match ProgramOption.ofName? t with
    | some o => return .option o false none
    | none =>
      let (name, attached) := splitEquals t
      match attached, ProgramOption.ofName? name with
      | some _, some o => return .option o (name.length = 2) attached
      | _, _ =>
        match candidates t with
        | [token] => return token
        | [] =>
          if isNegativeNumber t || ' ' ∈ t then return .plain t else return .unknown t
        | tokens => throw (.ambiguous t (tokens.filterMap fun
            | .option o _ _ => some o
            | _ => none))
  | _ => return .plain t

/-- Tells what the arguments are. Behind the end of the options all are plain. -/
def tokens : List Text → Except ArgumentError (List Token)
  | [] => return []
  | t :: rest =>
    if t = ['-', '-'] then return .ending :: rest.map .plain
    else do
      let token ← classify t
      return token :: (← tokens rest)

/-! ## Reading -/

/-- What was read so far. -/
structure Progress where
  arguments : Arguments
  /-- Whether the place of the library is taken. -/
  placed : Bool
  /-- Arguments that nothing is known of. -/
  leftOver : List Text

/-- How reading goes on. -/
inductive Outcome where
  | arguments (a : Arguments)
  /-- Help is asked for. -/
  | help

/-- The levels of diagnostics that can be asked for. -/
def levels : List Text :=
  ["DEBUG".toList, "INFO".toList, "WARNING".toList, "ERROR".toList]

/-- What stands for a prompt that was dropped. -/
def droppedPrompt : Text := "[]".toList

/-- The arguments with the argument of an option, or with what remains of it when it was dropped. -/
def take (a : Arguments) (o : ProgramOption) : Option Text → Except ArgumentError Arguments
  | none =>
    match o with
    | .help => return a
    | .execute => return { a with commands := a.commands ++ [none] }
    | .seed => return { a with seed := .malformed }
    | .logLevel => return { a with logLevel := none }
    | .prompt => return { a with prompt := droppedPrompt }
  | some t =>
    match o with
    | .help => return a
    | .execute => return { a with commands := a.commands ++ [some t] }
    | .seed =>
      match integer? t with
      | some seed => return { a with seed := .integer seed }
      | none => throw (.noInteger o t)
    | .logLevel =>
      let level := Text.upper t
      if levels.contains level then return { a with logLevel := some level }
      else throw (.noChoice o level levels)
    | .prompt => return { a with prompt := t }

/-- A text that is attached to an option as its argument. -/
def attachedArgument (t : Text) : Option Text := if t = ['-', '-'] then none else some t

/-- A request for help by letter, with a text right behind it: the letters of further options. They
have to be known, and what takes an argument must have it. -/
def helpByLetter (rest : List Token) : Text → Except ArgumentError Outcome
  | [] => throw (.unexpectedArgument .help [])
  | c :: attached =>
    match ProgramOption.ofLetter? c, attached with
    | none, _ => throw (.unexpectedArgument .help (c :: attached))
    | some .help, [] => return .help
    | some .help, _ => helpByLetter rest attached
    | some o, [] =>
      match rest with
      | .plain _ :: _ => return .help
      | _ => throw (.noArgument o)
    | some _, _ => return .help

/-- Reads the arguments one by one. The end of the options is itself left over if the place of the
library is taken, unless it stands right behind the library. -/
def readTokens (p : Progress) : List Token → Except ArgumentError Outcome
  | [] =>
    if p.leftOver = [] then return .arguments p.arguments
    else throw (.unrecognized p.leftOver)
  | .plain t :: .ending :: rest =>
    if p.placed then readTokens { p with leftOver := p.leftOver ++ [t, ['-', '-']] } rest
    else readTokens { p with arguments.library := t, placed := true } rest
  | .plain t :: rest =>
    if p.placed then readTokens { p with leftOver := p.leftOver ++ [t] } rest
    else readTokens { p with arguments.library := t, placed := true } rest
  | .ending :: rest =>
    if p.placed then readTokens { p with leftOver := p.leftOver ++ [['-', '-']] } rest
    else readTokens p rest
  | .unknown t :: rest => readTokens { p with leftOver := p.leftOver ++ [t] } rest
  | .option .help _ none :: _ => return .help
  | .option .help true (some attached) :: rest => helpByLetter rest attached
  | .option .help false (some attached) :: _ => throw (.unexpectedArgument .help attached)
  | .option o _ (some attached) :: rest => do
    let arguments ← take p.arguments o (attachedArgument attached)
    readTokens { p with arguments := arguments } rest
  | .option o _ none :: .plain t :: rest => do
    let arguments ← take p.arguments o (some t)
    readTokens { p with arguments := arguments } rest
  | .option o _ none :: _ => throw (.noArgument o)

/-- Reads the arguments of the program, where some have values already. -/
def read (default : Arguments) (argv : List Text) : Except ArgumentError Outcome := do
  let tokens ← tokens argv
  readTokens ⟨default, false, []⟩ tokens

end Arguments

end TermEmbedding
