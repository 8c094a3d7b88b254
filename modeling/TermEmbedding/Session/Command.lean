import TermEmbedding.Text.Blank
import TermEmbedding.Text.CodePoint

/-!
# Command lines

A command line is a word and, behind blanks, an argument. Blanks around the line and between its two
parts say nothing. Some words take an argument and some do not, and a word that is given an argument
it does not take is no more known than a word that nobody has heard of. The argument of a binding is
itself split, at its first equals sign.
-/

namespace TermEmbedding

/-- What a session can be told to do. -/
inductive Command where
  | help
  | parse (text : Text)
  | generateContext (path : Text)
  | loadContext (path : Text)
  | unloadContext
  | listTypes
  | listBindings
  | letBind (name expression : Text)
  | evaluate (expression : Text)
  | simulate (expression : Text)
  | updateModels
  | listPrimitiveTerms (typeText : Text)
  | saveContext (path : Text)
  | loadModels (path : Text)
  | saveModels (path : Text)
deriving DecidableEq, Inhabited

/-- Why a line is no command. -/
inductive CommandError where
  | empty
  | unknownWord (word : Text)
  | unknownWordWithArgument (word : Text)
  | malformedBinding (body : Text)
deriving DecidableEq, Inhabited

def CommandError.message : CommandError → Text
  | empty => "Empty command".toList
  | unknownWord word => word ++ " is not a recognized command (without arguments)".toList
  | unknownWordWithArgument word => word ++ " is not a recognized command (with arguments)".toList
  | malformedBinding body =>
    "Let body ".toList ++ body ++ " does not have the format [var] = [expr]".toList

namespace Command

/-- The name under which a command reports failures. -/
def label : Command → Text
  | help => "Help".toList
  | parse _ => "Parse".toList
  | generateContext _ => "Generate Context".toList
  | loadContext _ => "Load Context".toList
  | unloadContext => "Unload Context".toList
  | listTypes => "List Types".toList
  | listBindings => "List Bindings".toList
  | letBind _ _ => "Let".toList
  | evaluate _ => "Evaluate".toList
  | simulate _ => "Simulate".toList
  | updateModels => "Update Models".toList
  | listPrimitiveTerms _ => "List Primitive Terms".toList
  | saveContext _ => "Save Context".toList
  | loadModels _ => "Load Models".toList
  | saveModels _ => "Save Models".toList

def helpText : Text :=
  ("generate_context [path]: Generates a Context from the path to json-ized Params to " ++
    "generate it from\n" ++
    "load_context [path]: Loads a json-ized Context from the given path\n" ++
    "unload_context: Unloads the current Context\n" ++
    "list_types: Lists all types matching type numbers to their definitions\n" ++
    "list_bindings: Lists every bound variable with the term it names\n" ++
    "parse [expr]: Parses the given s-expression, and renders what it parsed as\n" ++
    "let [var] = [expr]: Evaluates the expression, and binds it to the given variable\n" ++
    "eval [expr] | evaluate [expr]: Evaluates the expression, and prints the result\n" ++
    "simulate [expr] | sim [expr]: Simulates the given expression [via a drawn sample], and " ++
    "prints the result\n" ++
    "list_primitive_terms [type_num] | list_prim_terms [type_num]: Lists the primitive terms of " ++
    "the type with the given number\n" ++
    "update_models: Folds newly evaluated applications into the embeddings\n" ++
    "save_context [path]: Saves the current Context, json-ized, to the given path\n" ++
    "load_models [path]: Loads the jsonized interpreter+embedder state from the given path\n" ++
    "save_models [path]: Saves the interpreter+embedder state as json to the given path\n" ++
    "help: Prints this help screen").toList

/-! ## Reading a line -/

/-- The word of a line and its argument, if it has one. -/
def split (line : Text) : Except CommandError (Text × Option Text) :=
  match Text.strip line with
  | [] => throw .empty
  | trimmed =>
    let word := trimmed.takeWhile (!isBlank ·)
    match Text.stripStart (trimmed.dropWhile (!isBlank ·)) with
    | [] => return (word, none)
    | argument => return (word, some argument)

/-- The words that take no argument. -/
def plainWords : List (Text × Command) :=
  [("help".toList, help), ("unload_context".toList, unloadContext),
    ("list_types".toList, listTypes), ("list_bindings".toList, listBindings),
    ("update_models".toList, updateModels)]

/-- The words that take an argument as it is. -/
def argumentWords : List (Text × (Text → Command)) :=
  [("parse".toList, parse), ("generate_context".toList, generateContext),
    ("load_context".toList, loadContext), ("evaluate".toList, evaluate),
    ("eval".toList, evaluate), ("simulate".toList, simulate), ("sim".toList, simulate),
    ("list_primitive_terms".toList, listPrimitiveTerms),
    ("list_prim_terms".toList, listPrimitiveTerms), ("save_context".toList, saveContext),
    ("load_models".toList, loadModels), ("save_models".toList, saveModels)]

/-- The command that binds a variable to an expression. -/
def readBinding (body : Text) : Except CommandError Command :=
  match body.dropWhile (· ≠ '=') with
  | [] => throw (.malformedBinding body)
  | _ :: rest =>
    let name := Text.strip (body.takeWhile (· ≠ '='))
    let expression := Text.strip rest
    if name = [] || expression = [] then throw (.malformedBinding body)
    else return .letBind name expression

def ofWord (word : Text) : Option Text → Except CommandError Command
  | none =>
    match plainWords.lookup word with
    | some command => return command
    | none => throw (.unknownWord word)
  | some argument =>
    if word = "let".toList then readBinding argument
    else match argumentWords.lookup word with
      | some command => return command argument
      | none => throw (.unknownWordWithArgument word)

def read (line : Text) : Except CommandError Command := do
  let (word, argument) ← split line
  ofWord word argument

end Command

end TermEmbedding
