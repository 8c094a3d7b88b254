import TermEmbedding.Files.Tree
import TermEmbedding.Session.Handling

/-!
# What comes of a command

Whatever the files hold, a command ends in one of few ways. It is refused or only says something,
and the session is left as it is. It opens a workspace or closes one. Or it works on the model of
the workspace, and then the workspace that the work leaves takes its place, also if the work has
failed. A property that sessions keep is shown to be kept by going through these ways, and not
through the commands.
-/

namespace TermEmbedding

namespace Interaction

variable {α β : Type}

/-- The values that a computation may end with, whatever it is answered. -/
inductive MayEnd : Interaction α → α → Prop
  | done (a : α) : MayEnd (.done a) a
  | read {path : Path} {next : Except FileError Bytes → Interaction α}
      (answer : Except FileError Bytes) {a : α} (h : MayEnd (next answer) a) :
      MayEnd (.read path next) a
  | write {path : Path} {contents : Bytes} {next : Except FileError Unit → Interaction α}
      (answer : Except FileError Unit) {a : α} (h : MayEnd (next answer) a) :
      MayEnd (.write path contents next) a
  | status {path : Path} {next : FileStatus → Interaction α} (answer : FileStatus) {a : α}
      (h : MayEnd (next answer) a) : MayEnd (.status path next) a

theorem eq_of_mayEnd_pure {a b : α} (h : (pure a : Interaction α).MayEnd b) : b = a := by
  cases h
  rfl

private theorem exists_of_mayEnd_bind {i : Interaction α} {f : α → Interaction β} {b : β}
    (h : (i >>= f).MayEnd b) : ∃ a, i.MayEnd a ∧ (f a).MayEnd b := by
  induction i with
  | done a => exact ⟨a, .done a, h⟩
  | read path next ih =>
    cases h with
    | read answer h =>
      obtain ⟨a, ha, hb⟩ := ih answer h
      exact ⟨a, .read answer ha, hb⟩
  | write path contents next ih =>
    cases h with
    | write answer h =>
      obtain ⟨a, ha, hb⟩ := ih answer h
      exact ⟨a, .write answer ha, hb⟩
  | status path next ih =>
    cases h with
    | status answer h =>
      obtain ⟨a, ha, hb⟩ := ih answer h
      exact ⟨a, .status answer ha, hb⟩

theorem MayEnd.bind {i : Interaction α} {f : α → Interaction β} {a : α} {b : β}
    (h : i.MayEnd a) (hnext : (f a).MayEnd b) : (i >>= f).MayEnd b := by
  induction h with
  | done a => exact hnext
  | read answer _ ih => exact .read answer (ih hnext)
  | write answer _ ih => exact .write answer (ih hnext)
  | status answer _ ih => exact .status answer (ih hnext)

theorem mayEnd_runIn (i : Interaction α) (t : Tree) : i.MayEnd (i.runIn t).1 := by
  induction i generalizing t with
  | done a => exact .done a
  | read path next ih => exact .read _ (ih _ t)
  | write path contents next ih =>
    rw [runIn]
    cases t.writeFile path contents with
    | ok written => exact .write _ (ih _ written)
    | error e => exact .write _ (ih _ t)
  | status path next ih => exact .status _ (ih _ t)

end Interaction

/-! ## Kinds of commands -/

namespace Command

/-- The file that a command reads. -/
def source? : Command → Option Text
  | generateContext path | loadContext path => some path
  | _ => none

/-- The stored form of a context that a command takes from the contents of a file. -/
def stored (command : Command) (contents : Bytes) : Except ContextError Bytes :=
  match command with
  | generateContext _ => Context.generate contents
  | _ => return contents

/-- Whether all that a command does is to say something or to write a file. -/
def leavesSession : Command → Bool
  | help | parse _ | listTypes | listBindings | listPrimitiveTerms _ | saveContext _ => true
  | _ => false

/-- The commands that bind a name to what an expression is evaluated to. -/
inductive Binds : Command → Text → Text → Prop
  | letBind (name text : Text) : Binds (letBind name text) name text
  | evaluate (text : Text) : Binds (evaluate text) Session.answerName text

end Command

namespace Session

variable [Routines Float] {settings : Settings} {s s' : Session} {answer : Answer}

/-! ## Commands that read a context -/

/-- What comes of the stored form of a context, if there is one. -/
def defined (settings : Settings) (s : Session) (verb : Text) :
    Except ContextError Bytes → Session × Answer
  | .error e => (s, .error (.definition e))
  | .ok stored =>
    match Context.load stored with
    | .error e => (s, .error (.definition e))
    | .ok c => s.enter settings verb stored c

theorem exists_withFile_of_source? (settings : Settings) {command : Command} {pathText : Text}
    (h : command.source? = some pathText) :
    ∃ verb, ∀ s : Session, s.carryOut settings command =
      s.withFile settings pathText fun contents ↦
        s.defined settings verb (command.stored contents) := by
  cases command with
  | generateContext path =>
    cases h
    refine ⟨"Generated".toList, fun s ↦ ?_⟩
    refine congrArg (s.withFile settings pathText) (funext fun contents ↦ ?_)
    rw [Command.stored]
    cases Context.generate contents with
    | error e => rfl
    | ok stored => rfl
  | loadContext path =>
    cases h
    exact ⟨"Loaded".toList, fun s ↦ rfl⟩
  | _ => cases h

/-! ## What a command may end with -/

/-- **The ways in which a command ends**, with the session that it leaves and its answer. -/
inductive CarriedOut (settings : Settings) (s : Session) : Command → Session × Answer → Prop
  /-- A command fails before it has done anything. -/
  | refused {command : Command} (f : CommandFailure) : CarriedOut settings s command (s, .error f)
  /-- A command says something and does nothing to the session. -/
  | said {command : Command} (h : command.leavesSession = true) (t : List CodePoint) :
      CarriedOut settings s command (s, .ok t)
  /-- The workspace is closed. -/
  | closed (t : List CodePoint) :
      CarriedOut settings s .unloadContext ({ s with workspace := none }, .ok t)
  /-- A workspace is opened for a context that a file holds. -/
  | opened {command : Command} {contents : Bytes} {c : Context} {w : Workspace}
      (hsource : command.source?.isSome = true) (hload : Context.load contents = .ok c)
      (hnew : Workspace.new settings contents c = .ok w) (t : List CodePoint) :
      CarriedOut settings s command ({ s with workspace := some w }, .ok t)
  /-- An expression is evaluated, and a name is bound to the outcome. -/
  | bound {command : Command} {name text : Text} (hbinds : command.Binds name text)
      {w : Workspace} (hw : s.workspace = some w) {e : Expression Float}
      (hread : Expression.read s.bindings text = .ok e) {r : TermReference Float}
      (hrun : (w.evaluate e).1 = .ok r) :
      CarriedOut settings s command
        (⟨s.bindings.bind name r, some (w.evaluate e).2⟩, .ok r.text.codePoints)
  /-- An expression cannot be evaluated. -/
  | unbound {command : Command} {name text : Text} (hbinds : command.Binds name text)
      {w : Workspace} (hw : s.workspace = some w) (e : Expression Float) (f : ModelError) :
      CarriedOut settings s command
        ({ s with workspace := some (w.evaluate e).2 }, .error (.model f))
  /-- An expression is simulated, with success or not. -/
  | simulated {text : Text} {w : Workspace} (hw : s.workspace = some w) (e : Expression Float)
      (answer : Answer) :
      CarriedOut settings s (.simulate text)
        ({ s with workspace := some (w.simulate settings.source e).2 }, answer)
  /-- The beliefs are updated, with success or not. -/
  | updated {w : Workspace} (hw : s.workspace = some w) (answer : Answer) :
      CarriedOut settings s .updateModels ({ s with workspace := some w.update.2 }, answer)

variable {command : Command} {w : Workspace}

private theorem carriedOut_say (s : Session) (h : command.leavesSession = true) (answer : Answer) :
    s.CarriedOut settings command (s, answer) := by
  cases answer with
  | error f => exact .refused f
  | ok t => exact .said h t

private theorem carriedOut_defined (s : Session) (hsource : command.source?.isSome = true)
    (verb : Text) (stored : Except ContextError Bytes) :
    s.CarriedOut settings command (s.defined settings verb stored) := by
  cases stored with
  | error e => exact .refused _
  | ok contents =>
    rw [defined]
    cases hload : Context.load contents with
    | error e => exact .refused _
    | ok c =>
      dsimp only
      rw [enter]
      cases hnew : Workspace.new settings contents c with
      | error e => exact .refused _
      | ok w => exact .opened hsource hload hnew _

private theorem carriedOut_letBind (hw : s.workspace = some w) {name text : Text}
    (hbinds : command.Binds name text) :
    s.CarriedOut settings command (s.letBind w name text) := by
  rw [letBind]
  cases hread : Expression.read s.bindings text with
  | error e => exact .refused _
  | ok e =>
    dsimp only
    rcases hrun : w.evaluate e with ⟨f | r, w'⟩
    · obtain rfl : (w.evaluate e).2 = w' := congrArg Prod.snd hrun
      exact .unbound hbinds hw e f
    · obtain rfl : (w.evaluate e).2 = w' := congrArg Prod.snd hrun
      exact .bound hbinds hw hread (congrArg Prod.fst hrun)

private theorem carriedOut_simulate (hw : s.workspace = some w) (text : Text) :
    s.CarriedOut settings (.simulate text) (s.simulate settings w text) := by
  rw [simulate]
  cases hread : Expression.read s.bindings text with
  | error e => exact .refused _
  | ok e =>
    dsimp only
    rcases hrun : w.simulate settings.source e with ⟨f | v, w'⟩
    · obtain rfl : (w.simulate settings.source e).2 = w' := congrArg Prod.snd hrun
      exact .simulated hw e _
    · obtain rfl : (w.simulate settings.source e).2 = w' := congrArg Prod.snd hrun
      exact .simulated hw e _

private theorem carriedOut_updateModels (hw : s.workspace = some w) :
    s.CarriedOut settings .updateModels (s.updateModels w) := by
  rw [updateModels]
  rcases hrun : w.update with ⟨f | ⟨⟩, w'⟩
  · obtain rfl : w.update.2 = w' := congrArg Prod.snd hrun
    exact .updated hw _
  · obtain rfl : w.update.2 = w' := congrArg Prod.snd hrun
    exact .updated hw _

private theorem carriedOut_inWorkspace {next : Workspace → Interaction (Session × Answer)}
    {r : Session × Answer}
    (hnext : ∀ w, s.workspace = some w → (next w).MayEnd r → s.CarriedOut settings command r)
    (hend : (s.inWorkspace next).MayEnd r) : s.CarriedOut settings command r := by
  rw [inWorkspace] at hend
  cases hw : s.workspace with
  | none =>
    rw [hw] at hend
    rw [Interaction.eq_of_mayEnd_pure hend]
    exact .refused _
  | some w =>
    rw [hw] at hend
    exact hnext w hw hend

private theorem carriedOut_source {r : Session × Answer} (hsource : command.source?.isSome = true)
    (hend : (s.carryOut settings command).MayEnd r) : s.CarriedOut settings command r := by
  obtain ⟨pathText, hpath⟩ := Option.isSome_iff_exists.mp hsource
  obtain ⟨verb, hcarry⟩ := exists_withFile_of_source? settings hpath
  rw [hcarry] at hend
  obtain ⟨contents, -, hend⟩ := Interaction.exists_of_mayEnd_bind hend
  cases contents with
  | error e =>
    rw [Interaction.eq_of_mayEnd_pure hend]
    exact .refused _
  | ok contents =>
    rw [Interaction.eq_of_mayEnd_pure hend]
    exact s.carriedOut_defined hsource verb _

/-- **A command ends in one of these ways**, whatever the files hold. -/
theorem carriedOut {r : Session × Answer} (hend : (s.carryOut settings command).MayEnd r) :
    s.CarriedOut settings command r := by
  cases command with
  | help | parse | listBindings =>
    rw [Interaction.eq_of_mayEnd_pure hend]
    exact s.carriedOut_say rfl _
  | unloadContext =>
    rw [Interaction.eq_of_mayEnd_pure hend]
    exact .closed _
  | generateContext | loadContext => exact carriedOut_source rfl hend
  | letBind name text | evaluate text =>
    refine carriedOut_inWorkspace (fun w hw hend ↦ ?_) hend
    rw [Interaction.eq_of_mayEnd_pure hend]
    exact carriedOut_letBind hw (by constructor)
  | simulate text =>
    refine carriedOut_inWorkspace (fun w hw hend ↦ ?_) hend
    rw [Interaction.eq_of_mayEnd_pure hend]
    exact carriedOut_simulate hw text
  | updateModels =>
    refine carriedOut_inWorkspace (fun w hw hend ↦ ?_) hend
    rw [Interaction.eq_of_mayEnd_pure hend]
    exact carriedOut_updateModels hw
  | listTypes | listPrimitiveTerms =>
    refine carriedOut_inWorkspace (fun w _ hend ↦ ?_) hend
    rw [Interaction.eq_of_mayEnd_pure hend]
    exact s.carriedOut_say rfl _
  | saveContext =>
    refine carriedOut_inWorkspace (fun w _ hend ↦ ?_) hend
    obtain ⟨answer, -, hend⟩ := Interaction.exists_of_mayEnd_bind hend
    rw [Interaction.eq_of_mayEnd_pure hend]
    exact s.carriedOut_say rfl answer
  | loadModels | saveModels =>
    refine carriedOut_inWorkspace (fun w _ hend ↦ ?_) hend
    rw [Interaction.eq_of_mayEnd_pure hend]
    exact .refused _

theorem handle_cases {line : Text} (hend : (s.handle settings line).MayEnd (s', answer)) :
    (∃ e, Command.read line = .error e ∧ s' = s ∧
      answer = say ("Error: ".toList ++ e.message)) ∨
    ∃ command outcome, Command.read line = .ok command ∧
      (s.carryOut settings command).MayEnd (s', outcome) ∧
      answer = explained command outcome := by
  rw [Session.handle] at hend
  cases hread : Command.read line with
  | error e =>
    rw [hread] at hend
    obtain ⟨rfl, rfl⟩ := Prod.mk.inj (Interaction.eq_of_mayEnd_pure hend)
    exact .inl ⟨e, rfl, rfl, rfl⟩
  | ok command =>
    rw [hread] at hend
    obtain ⟨⟨next, outcome⟩, hcommand, hend⟩ := Interaction.exists_of_mayEnd_bind hend
    obtain ⟨rfl, rfl⟩ := Prod.mk.inj (Interaction.eq_of_mayEnd_pure hend)
    exact .inr ⟨command, outcome, rfl, hcommand, rfl⟩

end Session

end TermEmbedding
