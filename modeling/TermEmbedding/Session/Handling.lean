import TermEmbedding.Expression.Reader
import TermEmbedding.Session.Failure

/-!
# Carrying out commands

A command answers with a text or fails. Its effect on the session is given beside its answer, so it
is plain to see what a failure leaves behind: bindings and contexts change only when everything has
gone well, while a model keeps what it found out on the way.

Answers are code points rather than text, since the names of primitive terms may hold stray
surrogates.
-/

namespace TermEmbedding

/-- What a command answers. -/
abbrev Answer := Except CommandFailure (List CodePoint)

namespace Session

variable [Routines Float]

def say (t : Text) : Answer := return t.codePoints

def lines (ls : List Text) : Text := Text.join ['\n'] ls

/-! ## Commands on contexts -/

/-- The session with a new workspace, and what is said of it. -/
def enter (settings : Settings) (s : Session) (verb : Text) (contents : Bytes)
    (context : Context) : Session × Answer :=
  match Workspace.new settings contents context with
  | .error e => (s, .error (.model e))
  | .ok w =>
    ({ s with workspace := some w },
      say (verb ++ " context with ".toList ++ numeral context.size ++ " types".toList))

/-- Reads a file and goes on with its contents. -/
def withFile (settings : Settings) (s : Session) (pathText : Text)
    (next : Bytes → Session × Answer) : Interaction (Session × Answer) := do
  let path := Path.expand settings.environment pathText
  match ← Interaction.readFile path with
  | .error e => return (s, .error (.reading path e))
  | .ok contents => return next contents

def generateContext (settings : Settings) (s : Session) (pathText : Text) :
    Interaction (Session × Answer) :=
  withFile settings s pathText fun parameters ↦
    match Context.generate parameters with
    | .error e => (s, .error (.definition e))
    | .ok contents =>
      match Context.load contents with
      | .error e => (s, .error (.definition e))
      | .ok context => s.enter settings "Generated".toList contents context

def loadContext (settings : Settings) (s : Session) (pathText : Text) :
    Interaction (Session × Answer) :=
  withFile settings s pathText fun contents ↦
    match Context.load contents with
    | .error e => (s, .error (.definition e))
    | .ok context => s.enter settings "Loaded".toList contents context

def saveContext (settings : Settings) (w : Workspace) (pathText : Text) : Interaction Answer := do
  let path := Path.expand settings.environment pathText
  match ← Interaction.writeFile path w.contents with
  | .error e => return .error (.writing path e)
  | .ok () => return say "Successfully wrote out context JSON".toList

/-! ## Commands on expressions -/

/-- The text of an expression that is an application. -/
def parse (s : Session) (text : Text) : Answer :=
  match Expression.readApplied s.bindings text with
  | .error e => .error (.expression e)
  | .ok e => say e.text

/-- Evaluates an expression and binds a name to the outcome. -/
def letBind (s : Session) (w : Workspace) (name text : Text) : Session × Answer :=
  match Expression.read s.bindings text with
  | .error e => (s, .error (.expression e))
  | .ok e =>
    match w.evaluate e with
    | (.error f, w) => ({ s with workspace := some w }, .error (.model f))
    | (.ok r, w) => (⟨s.bindings.bind name r, some w⟩, say r.text)

/-- The name that is bound to the outcome of an evaluation. -/
def answerName : Text := "ans".toList

def simulate (settings : Settings) (s : Session) (w : Workspace) (text : Text) :
    Session × Answer :=
  match Expression.read s.bindings text with
  | .error e => (s, .error (.expression e))
  | .ok e =>
    match w.simulate settings.source e with
    | (.error f, w) => ({ s with workspace := some w }, .error (.model f))
    | (.ok v, w) =>
      ({ s with workspace := some w }, match v.text? with
        | some t => say t
        | none => .error .parts)

def updateModels (s : Session) (w : Workspace) : Session × Answer :=
  match w.update with
  | (.error f, w) => ({ s with workspace := some w }, .error (.model f))
  | (.ok (), w) => ({ s with workspace := some w }, say "Updated models".toList)

/-! ## Lists -/

/-- The types of a context with their texts. -/
def listTypes (w : Workspace) : Answer :=
  say (lines ((Kind.allTexts w.context.kinds).zipIdx.map fun (t, n) ↦
    '#' :: numeral n ++ ": ".toList ++ t))

def listBindings (s : Session) : Answer :=
  say (lines (s.bindings.names.map fun name ↦
    name ++ " = ".toList ++ ((s.bindings.get? name).map (·.text)).getD []))

/-- The primitive terms of a type with their names. -/
def listPrimitiveTerms (w : Workspace) (typeText : Text) : Answer :=
  match integer? (Text.strip typeText) with
  | none => .error (.typeNumber typeText)
  | some typeId =>
    match w.context.kind typeId with
    | .error fault => .error (.type fault)
    | .ok _ =>
      return joined ((w.context.primitiveNames typeId).zipIdx.map fun (name, i) ↦
        Text.codePoints ('p' :: numeral i ++ ": ".toList) ++ name)
where
  /-- Lines of code points as one list. -/
  joined : List (List CodePoint) → List CodePoint
    | [] => []
    | [line] => line
    | line :: rest => line ++ CodePoint.char '\n' :: joined rest

/-! ## All commands -/

/-- Goes on with the workspace, which most commands need. -/
def inWorkspace (s : Session) (next : Workspace → Interaction (Session × Answer)) :
    Interaction (Session × Answer) :=
  match s.workspace with
  | none => return (s, .error .noContext)
  | some w => next w

def carryOut (settings : Settings) (s : Session) : Command → Interaction (Session × Answer)
  | .help => return (s, say Command.helpText)
  | .parse text => return (s, s.parse text)
  | .generateContext path => s.generateContext settings path
  | .loadContext path => s.loadContext settings path
  | .unloadContext => return ({ s with workspace := none }, say "Unloaded context".toList)
  | .listBindings => return (s, s.listBindings)
  | .listTypes => s.inWorkspace fun w ↦ return (s, listTypes w)
  | .letBind name text => s.inWorkspace fun w ↦ return s.letBind w name text
  | .evaluate text => s.inWorkspace fun w ↦ return s.letBind w answerName text
  | .simulate text => s.inWorkspace fun w ↦ return s.simulate settings w text
  | .updateModels => s.inWorkspace fun w ↦ return s.updateModels w
  | .listPrimitiveTerms text => s.inWorkspace fun w ↦ return (s, listPrimitiveTerms w text)
  | .saveContext path => s.inWorkspace fun w ↦ return (s, ← saveContext settings w path)
  | .loadModels _ => s.inWorkspace fun _ ↦
      return (s, .error (.unimplemented "load_models".toList))
  | .saveModels _ => s.inWorkspace fun _ ↦
      return (s, .error (.unimplemented "save_models".toList))

/-- The answer of a command, with an explained failure as a text. -/
def explained (command : Command) (answer : Answer) : Answer :=
  match answer with
  | .ok t => return t
  | .error f =>
    match f.kind? with
    | some kind =>
      say (command.label ++ ": ".toList ++ kind.text ++ ": ".toList ++ f.message)
    | none => .error f

/-- Carries out the command that a line spells. -/
def handle (settings : Settings) (s : Session) (line : Text) : Interaction (Session × Answer) :=
  match Command.read line with
  | .error e => return (s, say ("Error: ".toList ++ e.message))
  | .ok command => do
    let (next, answer) ← s.carryOut settings command
    return (next, explained command answer)

end Session

end TermEmbedding
