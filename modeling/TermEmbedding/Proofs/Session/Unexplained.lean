import TermEmbedding.Proofs.Expression.Numerals
import TermEmbedding.Proofs.Ontology.Unreported
import TermEmbedding.Proofs.Session.Stopped

/-!
# Failures that are not explained

A line is answered with a text unless its command fails in a way that has no kind, and these ways
can be listed. A numeral is too long, a path holds a zero character, a file holds data with a fault
that no activity reports, arithmetic finds no answer, or a model has become too large to be written.
Every other failure of every command is explained, whatever the session, the line and the files.

The list is exact: each of its entries is a failure that does happen, on the condition that stands
in it. Limits on the depth of recursion and on memory are left out of account, so a text that is
nested too deeply and an array that is too large are none of its entries.
-/

namespace TermEmbedding

/-! ## Files that answer -/

namespace Interaction

/-- What files answer when they are asked. They are never asked about a path with a zero character,
and so they never complain of one. -/
structure Answers where
  read : Path → Except FileError Bytes
  write : Path → Bytes → Except FileError Unit
  status : Path → FileStatus
  read_ne : ∀ path, read path ≠ .error .zeroCharacter
  write_ne : ∀ path contents, write path contents ≠ .error .zeroCharacter

variable {α β : Type}

/-- The value that a computation ends with. -/
def answeredBy (files : Answers) : Interaction α → α
  | .done a => a
  | .read path next => (next (files.read path)).answeredBy files
  | .write path contents next => (next (files.write path contents)).answeredBy files
  | .status path next => (next (files.status path)).answeredBy files

variable {files : Answers}

private theorem answeredBy_bind (i : Interaction α) (f : α → Interaction β) :
    (i >>= f).answeredBy files = (f (i.answeredBy files)).answeredBy files := by
  induction i with
  | done a => rfl
  | read path next ih => exact ih _
  | write path contents next ih => exact ih _
  | status path next ih => exact ih _

private theorem mayEnd_answeredBy (i : Interaction α) : i.MayEnd (i.answeredBy files) := by
  induction i with
  | done a => exact .done a
  | read path next ih => exact .read _ (ih _)
  | write path contents next ih => exact .write _ (ih _)
  | status path next ih => exact .status _ (ih _)

/-- A file is not read for the only reason that is not explained exactly if its path cannot be
passed on. -/
private theorem readFile_eq_zeroCharacter_iff {path : Path} :
    (readFile path).answeredBy files = .error .zeroCharacter ↔ path.isPassable = false := by
  rw [readFile]
  by_cases hpath : path.isPassable = true
  · rw [if_pos hpath, hpath]
    exact iff_of_false (files.read_ne path) (by rintro ⟨⟩)
  · rw [if_neg hpath]
    exact iff_of_true rfl (Bool.eq_false_of_not_eq_true hpath)

private theorem writeFile_eq_zeroCharacter_iff {path : Path} {contents : Bytes} :
    (writeFile path contents).answeredBy files = .error .zeroCharacter ↔
      path.isPassable = false := by
  rw [writeFile]
  by_cases hpath : path.isPassable = true
  · rw [if_pos hpath, hpath]
    exact iff_of_false (files.write_ne path contents) (by rintro ⟨⟩)
  · rw [if_neg hpath]
    exact iff_of_true rfl (Bool.eq_false_of_not_eq_true hpath)

end Interaction

/-! ## Failures without a kind -/

theorem ReadError.kind?_eq_none_iff {e : ReadError} :
    e.kind? = none ↔ ∃ n, e = .numeralTooLong n := by
  cases e with
  | numeralTooLong n => exact iff_of_true rfl ⟨n, rfl⟩
  | _ => exact iff_of_false (by rintro ⟨⟩) (by rintro ⟨n, ⟨⟩⟩)

theorem ContextError.kind?_eq_none_iff {e : ContextError} :
    e.kind? = none ↔ ∃ d, e = .fault d := by
  cases e with
  | fault d => exact iff_of_true rfl ⟨d, rfl⟩
  | _ => exact iff_of_false (by rintro ⟨⟩) (by rintro ⟨d, ⟨⟩⟩)

theorem FileError.code?_eq_none_iff {e : FileError} : e.code? = none ↔ e = .zeroCharacter := by
  cases e with
  | zeroCharacter => exact iff_of_true rfl rfl
  | _ => exact iff_of_false (by rintro ⟨⟩) (by rintro ⟨⟩)

/-! ## Commands -/

namespace Command

/-- The expression that a command evaluates. -/
def evaluated? : Command → Option Text
  | letBind _ text | evaluate text => some text
  | _ => none

/-- The expression that a command works on in a workspace. -/
def expression? : Command → Option Text
  | letBind _ text | evaluate text | simulate text => some text
  | _ => none

end Command

private theorem Command.isReported_of_stored {command : Command} {contents : Bytes} {d : DataFault}
    (h : command.stored contents = .error (.fault d)) : ContextError.isReported d = false := by
  cases command with
  | generateContext path => exact ContextError.isReported_of_during h
  | _ => cases h

namespace Session

variable {settings : Settings} {files : Interaction.Answers} {s : Session} {w : Workspace}
  {command : Command} {f : CommandFailure}

/-- What a command reads in a file. -/
def Reads (settings : Settings) (files : Interaction.Answers) (command : Command)
    (contents : Bytes) : Prop :=
  ∃ pathText, command.source? = some pathText ∧
    (Interaction.readFile (Path.expand settings.environment pathText)).answeredBy files =
      .ok contents

/-- The context that a command finds in a file. -/
def Defines (settings : Settings) (files : Interaction.Answers) (command : Command)
    (c : Context) : Prop :=
  ∃ contents stored, Reads settings files command contents ∧
    command.stored contents = .ok stored ∧ Context.load stored = .ok c

/-! ## Answers -/

/-- Whether an answer is a failure that is not explained. -/
def IsUnexplained (answer : Answer) (f : CommandFailure) : Prop :=
  answer = .error f ∧ f.kind? = none

/-- What is explained is a text, so a failure is left exactly where there is no explanation. -/
private theorem explained_eq_error_iff {command : Command} {answer : Answer} {f : CommandFailure} :
    explained command answer = .error f ↔ IsUnexplained answer f := by
  rcases answer with g | t
  · cases hkind : g.kind? with
    | none =>
      have hexplained : explained command (.error g) = .error g := by
        rw [explained, hkind]
      rw [hexplained]
      constructor
      · rintro ⟨⟩
        exact ⟨rfl, hkind⟩
      · rintro ⟨⟨⟩, -⟩
        rfl
    | some kind =>
      have hexplained : explained command (.error g) =
          say (command.label ++ ": ".toList ++ kind.text ++ ": ".toList ++ g.message) := by
        rw [explained, hkind]
      rw [hexplained]
      refine iff_of_false (by rintro ⟨⟩) ?_
      rintro ⟨⟨⟩, hnone⟩
      cases hkind.symm.trans hnone
  · exact iff_of_false (by rintro ⟨⟩) (by rintro ⟨⟨⟩, -⟩)

private theorem answeredBy_withFile_error {pathText : Text} {next : Bytes → Session × Answer}
    {e : FileError}
    (h : (Interaction.readFile (Path.expand settings.environment pathText)).answeredBy files =
      .error e) : (s.withFile settings pathText next).answeredBy files =
        (s, .error (.reading (Path.expand settings.environment pathText) e)) := by
  rw [withFile, Interaction.answeredBy_bind, h]
  rfl

private theorem answeredBy_withFile_ok {pathText : Text} {next : Bytes → Session × Answer}
    {contents : Bytes}
    (h : (Interaction.readFile (Path.expand settings.environment pathText)).answeredBy files =
      .ok contents) : (s.withFile settings pathText next).answeredBy files = next contents := by
  rw [withFile, Interaction.answeredBy_bind, h]
  rfl

private theorem answeredBy_inWorkspace {next : Workspace → Interaction (Session × Answer)}
    (hw : s.workspace = some w) :
    (s.inWorkspace next).answeredBy files = (next w).answeredBy files := by
  rw [inWorkspace, hw]

private theorem exists_of_inWorkspace_unexplained
    {next : Workspace → Interaction (Session × Answer)}
    (h : IsUnexplained ((s.inWorkspace next).answeredBy files).2 f) :
    ∃ w, s.workspace = some w ∧ IsUnexplained ((next w).answeredBy files).2 f := by
  cases hw : s.workspace with
  | none =>
    rw [inWorkspace, hw] at h
    obtain ⟨⟨⟩, ⟨⟩⟩ := h
  | some w =>
    rw [answeredBy_inWorkspace hw] at h
    exact ⟨w, rfl, h⟩

/-- What work on a model answers with is explained if every outcome can be shown and the failure of
the work is explained. -/
private theorem exists_of_work_unexplained {α : Type} {x : Except ModelError α} {next : α → Answer}
    (hnext : ∀ a, x = .ok a → ∃ t, next a = .ok t)
    (h : IsUnexplained (x.mapError .model >>= next) f) :
    ∃ error, x = .error error ∧ error.kind? = none ∧ f = .model error := by
  obtain ⟨h, hkind⟩ := h
  cases x with
  | error error =>
    cases h
    exact ⟨error, rfl, hkind, rfl⟩
  | ok a =>
    obtain ⟨t, ht⟩ := hnext a rfl
    cases ht.symm.trans h

private theorem not_isUnexplained_listPrimitiveTerms (w : Workspace) (typeText : Text) :
    ¬IsUnexplained (listPrimitiveTerms w typeText) f := by
  rintro ⟨h, hkind⟩
  rw [listPrimitiveTerms] at h
  cases hnumber : integer? (Text.strip typeText) with
  | none =>
    rw [hnumber] at h
    cases h
    cases hkind
  | some t =>
    rw [hnumber] at h
    dsimp only at h
    cases hkindOf : w.context.kind t with
    | error fault =>
      rw [hkindOf] at h
      cases h
      cases hkind
    | ok kind =>
      rw [hkindOf] at h
      cases h

/-- The outcome of a simulation, as it is shown. -/
def shown (v : TypedVector Float) : Answer :=
  match v.text? with
  | some t => say t
  | none => .error .parts

section

variable [Routines Float]

private theorem enter_of_error {c : Context} {verb : Text} {contents : Bytes} {e : ModelError}
    (h : Workspace.new settings contents c = .error e) :
    s.enter settings verb contents c = (s, .error (.model e)) := by
  rw [enter, h]

private theorem exists_defined_of_reads {contents : Bytes}
    (h : Reads settings files command contents) :
    ∃ verb, (s.carryOut settings command).answeredBy files =
      s.defined settings verb (command.stored contents) := by
  obtain ⟨pathText, hsource, hread⟩ := h
  obtain ⟨verb, hcarry⟩ := exists_withFile_of_source? settings hsource
  rw [hcarry]
  exact ⟨verb, answeredBy_withFile_ok hread⟩

private theorem exists_enter_of_defines {c : Context} (h : Defines settings files command c) :
    ∃ verb stored, (s.carryOut settings command).answeredBy files =
      s.enter settings verb stored c := by
  obtain ⟨contents, stored, hreads, hstored, hload⟩ := h
  obtain ⟨verb, hcarry⟩ := s.exists_defined_of_reads hreads
  refine ⟨verb, stored, ?_⟩
  rw [hcarry, hstored, defined, hload]

private theorem letBind_of_unread {name text : Text} {e : ReadError}
    (hread : Expression.read s.bindings text = .error e) :
    (s.letBind w name text).2 = .error (.expression e) := by
  rw [letBind, hread]

private theorem letBind_of_read {name text : Text} {e : Expression Float}
    (hread : Expression.read s.bindings text = .ok e) :
    (s.letBind w name text).2 = (w.evaluate e).1.mapError .model >>= fun r ↦ say r.text := by
  rw [letBind, hread]
  dsimp only
  generalize w.evaluate e = outcome
  obtain ⟨error | r, w'⟩ := outcome <;> rfl

private theorem exists_letBind_of_evaluated? (settings : Settings) {text : Text}
    (hw : s.workspace = some w) (h : command.evaluated? = some text) :
    ∃ name, s.carryOut settings command = pure (s.letBind w name text) := by
  cases command with
  | letBind name text' =>
    cases h
    refine ⟨name, ?_⟩
    rw [carryOut, inWorkspace, hw]
  | evaluate text' =>
    cases h
    refine ⟨answerName, ?_⟩
    rw [carryOut, inWorkspace, hw]
  | _ => cases h

private theorem simulate_of_unread {text : Text} {e : ReadError}
    (hread : Expression.read s.bindings text = .error e) :
    (s.simulate settings w text).2 = .error (.expression e) := by
  rw [simulate, hread]

private theorem simulate_of_read {text : Text} {e : Expression Float}
    (hread : Expression.read s.bindings text = .ok e) :
    (s.simulate settings w text).2 =
      (w.simulate settings.source e).1.mapError .model >>= shown := by
  rw [simulate, hread]
  dsimp only
  generalize w.simulate settings.source e = outcome
  obtain ⟨error | v, w'⟩ := outcome <;> rfl

private theorem updateModels_eq : (s.updateModels w).2 =
    w.update.1.mapError .model >>= fun _ ↦ say "Updated models".toList := by
  rw [updateModels]
  generalize w.update = outcome
  obtain ⟨error | ⟨⟩, w'⟩ := outcome <;> rfl

private theorem answer_of_read_error {text : Text} {e : ReadError} (hw : s.workspace = some w)
    (htext : command.expression? = some text) (hread : Expression.read s.bindings text = .error e) :
    ((s.carryOut settings command).answeredBy files).2 = .error (.expression e) := by
  cases command with
  | letBind | evaluate =>
    cases htext
    exact (congrArg Prod.snd (answeredBy_inWorkspace hw)).trans (letBind_of_unread hread)
  | simulate =>
    cases htext
    exact (congrArg Prod.snd (answeredBy_inWorkspace hw)).trans (simulate_of_unread hread)
  | _ => cases htext

private theorem answer_of_command {line : Text} (hread : Command.read line = .ok command) :
    ((s.handle settings line).answeredBy files).2 =
      explained command ((s.carryOut settings command).answeredBy files).2 := by
  rw [handle, hread]
  change ((s.carryOut settings command >>= fun r ↦
    pure (r.1, explained command r.2)).answeredBy files).2 = _
  rw [Interaction.answeredBy_bind]
  rfl

/-! ## The ways in which a command fails without an explanation -/

/-- **The ways in which a command fails without an explanation.** -/
inductive Escapes (settings : Settings) (files : Interaction.Answers) (s : Session) :
    Command → CommandFailure → Prop
  /-- A numeral in an expression that is shown is too long. -/
  | shown {text : Text} {n : Nat} (hlong : numeralLimit < n) (hn : n < text.length)
      (hread : Expression.readApplied s.bindings text = .error (.numeralTooLong n)) :
      Escapes settings files s (.parse text) (.expression (.numeralTooLong n))
  /-- A numeral in an expression that is worked on is too long. -/
  | worked {w : Workspace} {command : Command} {text : Text} {n : Nat}
      (hw : s.workspace = some w) (htext : command.expression? = some text)
      (hlong : numeralLimit < n) (hn : n < text.length)
      (hread : Expression.read s.bindings text = .error (.numeralTooLong n)) :
      Escapes settings files s command (.expression (.numeralTooLong n))
  /-- An evaluation leaves a term or a type with a number that is too long. -/
  | outgrown {w : Workspace} {command : Command} {text : Text} {e : Expression Float}
      {m : Model Float} (hw : s.workspace = some w) (htext : command.evaluated? = some text)
      (hread : Expression.read s.bindings text = .ok e) (hm : w.model.toModel = .ok m)
      (hleft : ¬((e.evaluate w.context).run m).2.HasText) :
      Escapes settings files s command (.model (.snapshot .unwritable))
  /-- Arithmetic finds no draw from a belief. -/
  | undrawn {w : Workspace} {text : Text} {e : Expression Float} {m m' : Model Float}
      {error : LinearError} (hw : s.workspace = some w)
      (hread : Expression.read s.bindings text = .ok e) (hm : w.model.toModel = .ok m)
      (hrun : (e.simulate (Model.sample settings.source) w.context).run m =
        (.error (.linear error), m')) :
      Escapes settings files s (.simulate text) (.model (.failure (.linear error)))
  /-- Arithmetic finds no belief that takes account of what is pending. -/
  | unsolved {w : Workspace} {m m' : Model Float} {error : LinearError}
      (hw : s.workspace = some w) (hm : w.model.toModel = .ok m)
      (hrun : (Model.update w.context).run m = (.error (.linear error), m')) :
      Escapes settings files s .updateModels (.model (.failure (.linear error)))
  /-- The path of a file to read holds a zero character. -/
  | unread {command : Command} {pathText : Text} (hsource : command.source? = some pathText)
      (hpath : (Path.expand settings.environment pathText).isPassable = false) :
      Escapes settings files s command
        (.reading (Path.expand settings.environment pathText) .zeroCharacter)
  /-- The path of a file to write holds a zero character. -/
  | unwritten {w : Workspace} {pathText : Text} (hw : s.workspace = some w)
      (hpath : (Path.expand settings.environment pathText).isPassable = false) :
      Escapes settings files s (.saveContext pathText)
        (.writing (Path.expand settings.environment pathText) .zeroCharacter)
  /-- Parameters have a fault that is not reported. -/
  | undefined {command : Command} {contents : Bytes} {d : DataFault}
      (hreads : Reads settings files command contents) (hd : ContextError.isReported d = false)
      (hstored : command.stored contents = .error (.fault d)) :
      Escapes settings files s command (.definition (.fault d))
  /-- The stored form of a context has a fault that is not reported. -/
  | unloaded {command : Command} {contents stored : Bytes} {d : DataFault}
      (hreads : Reads settings files command contents) (hd : ContextError.isReported d = false)
      (hstored : command.stored contents = .ok stored)
      (hload : Context.load stored = .error (.fault d)) :
      Escapes settings files s command (.definition (.fault d))
  /-- The source of noise cannot start, so a context has no model. -/
  | unstarted {command : Command} {c : Context} (hc : Defines settings files command c)
      (hstart : settings.source.start? settings.seed = none) :
      Escapes settings files s command (.model (.failure .badSeed))
  /-- Arithmetic finds no matrix for a type of a new model. -/
  | unspanned {command : Command} {c : Context} {error : LinearError}
      (hc : Defines settings files command c)
      (hfresh : Model.fresh settings.source c settings.seed = .error (.linear error)) :
      Escapes settings files s command (.model (.failure (.linear error)))
  /-- A term or a type of a new model has a number that is too long. -/
  | unstored {command : Command} {c : Context} {m : Model Float}
      (hc : Defines settings files command c)
      (hfresh : Model.fresh settings.source c settings.seed = .ok m) (hleft : ¬m.HasText) :
      Escapes settings files s command (.model (.snapshot .unwritable))

private theorem Escapes.kind?_eq_none {command : Command} {f : CommandFailure}
    (h : s.Escapes settings files command f) : f.kind? = none := by
  cases h <;> rfl

/-! ## Nothing else happens -/

private theorem escapes_of_read_error (hw : s.workspace = some w) {text : Text} {e : ReadError}
    (htext : command.expression? = some text) (hread : Expression.read s.bindings text = .error e)
    (h : IsUnexplained (.error (.expression e)) f) : s.Escapes settings files command f := by
  obtain ⟨⟨⟩, hkind⟩ := h
  obtain ⟨n, rfl⟩ := ReadError.kind?_eq_none_iff.mp hkind
  obtain ⟨hlong, hn⟩ := Expression.errorsOnly_read text _ hread n rfl
  exact .worked hw htext hlong hn hread

private theorem escapes_of_parse {text : Text} (h : IsUnexplained (s.parse text) f) :
    s.Escapes settings files (.parse text) f := by
  rw [parse] at h
  cases hread : Expression.readApplied s.bindings text with
  | error e =>
    rw [hread] at h
    obtain ⟨⟨⟩, hkind⟩ := h
    obtain ⟨n, rfl⟩ := ReadError.kind?_eq_none_iff.mp hkind
    obtain ⟨hlong, hn⟩ := Expression.errorsOnly_readApplied text _ hread n rfl
    exact .shown hlong hn hread
  | ok e =>
    rw [hread] at h
    obtain ⟨⟨⟩, -⟩ := h

private theorem escapes_of_saveContext (hw : s.workspace = some w) {pathText : Text}
    (h : IsUnexplained ((saveContext settings w pathText).answeredBy files) f) :
    s.Escapes settings files (.saveContext pathText) f := by
  rw [saveContext, Interaction.answeredBy_bind] at h
  cases hwrite : (Interaction.writeFile
      (Path.expand settings.environment pathText) w.contents).answeredBy files with
  | error e =>
    rw [hwrite] at h
    obtain ⟨⟨⟩, hkind⟩ := h
    obtain rfl := FileError.code?_eq_none_iff.mp (Option.map_eq_none_iff.mp hkind)
    exact .unwritten hw (Interaction.writeFile_eq_zeroCharacter_iff.mp hwrite)
  | ok =>
    rw [hwrite] at h
    obtain ⟨⟨⟩, -⟩ := h

variable [Routines.Shaped Float]

private theorem escapes_of_enter {c : Context} (hc : Defines settings files command c) {verb : Text}
    {contents : Bytes} (h : IsUnexplained (s.enter settings verb contents c).2 f) :
    s.Escapes settings files command f := by
  obtain ⟨h, hkind⟩ := h
  cases hfresh : Model.fresh settings.source c settings.seed with
  | error g =>
    rw [enter_of_error (Workspace.new_of_failure hfresh)] at h
    cases h
    rcases Model.errorsOnly_fresh settings.seed g hfresh with ⟨hstart, rfl⟩ | hordinary
    · exact .unstarted hc hstart
    · obtain ⟨error, rfl⟩ := hordinary hkind
      exact .unspanned hc hfresh
  | ok m =>
    cases hput : Snapshot.ofModel m with
    | error e =>
      rw [enter_of_error (Workspace.new_of_unwritable hfresh hput)] at h
      cases h
      obtain rfl := Snapshot.errorsOnly_ofModel m e hput
      have hreached : Model.Reachable settings.source c m := .fresh hfresh
      exact .unstored hc hfresh (hreached.ofModel_eq_error_iff.mp hput)
    | ok snapshot =>
      rw [enter, Workspace.new_of_ok hfresh hput] at h
      cases h

private theorem escapes_of_defined {contents : Bytes}
    (hreads : Reads settings files command contents) {verb : Text}
    (h : IsUnexplained (s.defined settings verb (command.stored contents)).2 f) :
    s.Escapes settings files command f := by
  cases hstored : command.stored contents with
  | error e =>
    rw [hstored] at h
    obtain ⟨⟨⟩, hkind⟩ := h
    obtain ⟨d, rfl⟩ := ContextError.kind?_eq_none_iff.mp hkind
    exact .undefined hreads (Command.isReported_of_stored hstored) hstored
  | ok stored =>
    rw [hstored, defined] at h
    cases hload : Context.load stored with
    | error e =>
      rw [hload] at h
      obtain ⟨⟨⟩, hkind⟩ := h
      obtain ⟨d, rfl⟩ := ContextError.kind?_eq_none_iff.mp hkind
      exact .unloaded hreads (ContextError.isReported_of_during hload) hstored hload
    | ok c =>
      rw [hload] at h
      exact escapes_of_enter ⟨contents, stored, hreads, hstored, hload⟩ h

private theorem escapes_of_source? {pathText : Text} (hsource : command.source? = some pathText)
    (h : IsUnexplained ((s.carryOut settings command).answeredBy files).2 f) :
    s.Escapes settings files command f := by
  obtain ⟨verb, hcarry⟩ := exists_withFile_of_source? settings hsource
  rw [hcarry] at h
  cases hread : (Interaction.readFile
      (Path.expand settings.environment pathText)).answeredBy files with
  | error e =>
    rw [answeredBy_withFile_error hread] at h
    obtain ⟨⟨⟩, hkind⟩ := h
    obtain rfl := FileError.code?_eq_none_iff.mp (Option.map_eq_none_iff.mp hkind)
    exact .unread hsource (Interaction.readFile_eq_zeroCharacter_iff.mp hread)
  | ok contents =>
    rw [answeredBy_withFile_ok hread] at h
    exact escapes_of_defined ⟨pathText, hsource, hread⟩ h

private theorem escapes_of_letBind (hrest : w.AtRest settings) (hw : s.workspace = some w)
    {name text : Text} (htext : command.evaluated? = some text)
    (hexpression : command.expression? = some text)
    (h : IsUnexplained (s.letBind w name text).2 f) : s.Escapes settings files command f := by
  cases hread : Expression.read s.bindings text with
  | error e =>
    rw [letBind_of_unread hread] at h
    exact escapes_of_read_error hw hexpression hread h
  | ok e =>
    rw [letBind_of_read hread] at h
    obtain ⟨error, herror, hkind, rfl⟩ := exists_of_work_unexplained (fun _ _ ↦ ⟨_, rfl⟩) h
    obtain ⟨rfl, m, hm, hleft⟩ := hrest.evaluate_unexplained herror hkind
    exact .outgrown hw htext hread hm hleft

section

variable [Routines.FailsByNumbers Float]

private theorem escapes_of_simulate (hrest : w.AtRest settings) (hw : s.workspace = some w)
    {text : Text} (h : IsUnexplained (s.simulate settings w text).2 f) :
    s.Escapes settings files (.simulate text) f := by
  cases hread : Expression.read s.bindings text with
  | error e =>
    rw [simulate_of_unread hread] at h
    exact escapes_of_read_error hw rfl hread h
  | ok e =>
    have hshown : ∀ v, (w.simulate settings.source e).1 = .ok v → ∃ t, shown v = .ok t := by
      intro v hv
      obtain ⟨t, ht⟩ := hrest.exists_text_of_simulate hv
      rw [shown, ht]
      exact ⟨_, rfl⟩
    rw [simulate_of_read hread] at h
    obtain ⟨error, herror, hkind, rfl⟩ := exists_of_work_unexplained hshown h
    obtain ⟨m, m', reason, rfl, hm, hfail⟩ := hrest.simulate_unexplained herror hkind
    exact .undrawn hw hread hm hfail

private theorem escapes_of_updateModels (hrest : w.AtRest settings) (hw : s.workspace = some w)
    (h : IsUnexplained (s.updateModels w).2 f) : s.Escapes settings files .updateModels f := by
  rw [updateModels_eq] at h
  obtain ⟨error, herror, hkind, rfl⟩ := exists_of_work_unexplained (fun _ _ ↦ ⟨_, rfl⟩) h
  obtain ⟨m, m', reason, rfl, hm, hfail⟩ := hrest.update_unexplained herror hkind
  exact .unsolved hw hm hfail

/-- **A failure that is not explained is one of those that are listed.** -/
theorem escapes_of_carryOut (hrest : s.AtRest settings)
    (h : IsUnexplained ((s.carryOut settings command).answeredBy files).2 f) :
    s.Escapes settings files command f := by
  cases command with
  | help | unloadContext | listBindings => obtain ⟨⟨⟩, -⟩ := h
  | parse text => exact escapes_of_parse h
  | generateContext path | loadContext path => exact escapes_of_source? rfl h
  | letBind name text | evaluate text =>
    obtain ⟨w, hw, h⟩ := exists_of_inWorkspace_unexplained h
    exact escapes_of_letBind (hrest w hw) hw rfl rfl h
  | simulate text =>
    obtain ⟨w, hw, h⟩ := exists_of_inWorkspace_unexplained h
    exact escapes_of_simulate (hrest w hw) hw h
  | updateModels =>
    obtain ⟨w, hw, h⟩ := exists_of_inWorkspace_unexplained h
    exact escapes_of_updateModels (hrest w hw) hw h
  | saveContext path =>
    obtain ⟨w, hw, h⟩ := exists_of_inWorkspace_unexplained h
    rw [Interaction.answeredBy_bind] at h
    exact escapes_of_saveContext hw h
  | listPrimitiveTerms text =>
    obtain ⟨w, hw, h⟩ := exists_of_inWorkspace_unexplained h
    exact absurd h (not_isUnexplained_listPrimitiveTerms w text)
  | listTypes =>
    obtain ⟨w, hw, ⟨⟨⟩, -⟩⟩ := exists_of_inWorkspace_unexplained h
  | loadModels path | saveModels path =>
    obtain ⟨w, hw, ⟨⟨⟩, ⟨⟩⟩⟩ := exists_of_inWorkspace_unexplained h

end

/-! ## Every entry of the list happens -/

/-- **Every failure that is listed happens.** -/
theorem answer_of_escapes (hrest : s.AtRest settings) (h : s.Escapes settings files command f) :
    ((s.carryOut settings command).answeredBy files).2 = .error f := by
  cases h with
  | shown _ _ hread =>
    change s.parse _ = _
    rw [parse, hread]
  | worked hw htext _ _ hread => exact answer_of_read_error hw htext hread
  | @outgrown w command text e m hw htext hread hm hleft =>
    obtain ⟨hreached, -, -, -⟩ := (hrest w hw).taken hm
    have hput := ((Operation.isDone_evaluate e).reachable hreached).ofModel_eq_error_iff.mpr hleft
    obtain ⟨name, hcarry⟩ := exists_letBind_of_evaluated? settings hw htext
    rw [hcarry]
    refine (letBind_of_read hread).trans ?_
    rw [Workspace.evaluate, Workspace.perform_of_unwritable hm hput]
    rfl
  | @undrawn w text e m m' error hw hread hm hrun =>
    have herror : (w.simulate settings.source e).1 = .error (.failure (.linear error)) :=
      (hrest w hw).perform_of_failure (Operation.isDone_simulate e) hm hrun
        ((hrest w hw).hasText_simulate hm e)
    refine (congrArg Prod.snd (answeredBy_inWorkspace hw)).trans ((simulate_of_read hread).trans ?_)
    rw [herror]
    rfl
  | @unsolved w m m' error hw hm hrun =>
    have herror : w.update.1 = .error (.failure (.linear error)) :=
      (hrest w hw).perform_of_failure Operation.isDone_update hm hrun
        ((hrest w hw).hasText_update hm)
    refine (congrArg Prod.snd (answeredBy_inWorkspace hw)).trans (updateModels_eq.trans ?_)
    rw [herror]
    rfl
  | unread hsource hpath =>
    obtain ⟨verb, hcarry⟩ := exists_withFile_of_source? settings hsource
    rw [hcarry, answeredBy_withFile_error (Interaction.readFile_eq_zeroCharacter_iff.mpr hpath)]
  | @unwritten w pathText hw hpath =>
    refine (congrArg Prod.snd (answeredBy_inWorkspace hw)).trans ?_
    rw [Interaction.answeredBy_bind, saveContext, Interaction.answeredBy_bind,
      Interaction.writeFile_eq_zeroCharacter_iff.mpr hpath]
    rfl
  | undefined hreads _ hstored =>
    obtain ⟨verb, hcarry⟩ := s.exists_defined_of_reads hreads
    rw [hcarry, hstored, defined]
  | unloaded hreads _ hstored hload =>
    obtain ⟨verb, hcarry⟩ := s.exists_defined_of_reads hreads
    rw [hcarry, hstored, defined, hload]
  | @unstarted command c hc hstart =>
    obtain ⟨verb, stored, hcarry⟩ := s.exists_enter_of_defines hc
    have hfresh : Model.fresh settings.source c settings.seed = .error .badSeed := by
      rw [Model.fresh, hstart]
      rfl
    rw [hcarry, enter_of_error (Workspace.new_of_failure hfresh)]
  | unspanned hc hfresh =>
    obtain ⟨verb, stored, hcarry⟩ := s.exists_enter_of_defines hc
    rw [hcarry, enter_of_error (Workspace.new_of_failure hfresh)]
  | @unstored command c m hc hfresh hleft =>
    obtain ⟨verb, stored, hcarry⟩ := s.exists_enter_of_defines hc
    have hreached : Model.Reachable settings.source c m := .fresh hfresh
    have hput := hreached.ofModel_eq_error_iff.mpr hleft
    rw [hcarry, enter_of_error (Workspace.new_of_unwritable hfresh hput)]

/-- **Which lines are not answered with a text.** In a session that can be reached and with whatever
the files contain, a line is answered with a failure exactly if it is a command and the failure is
one of those that are listed for it, apart from limits on the depth of recursion and on memory.
Whatever the answer, the session goes on. -/
theorem handle_eq_error_iff [Routines.FailsByNumbers Float] (h : Reached settings s)
    (files : Interaction.Answers) (line : Text) :
    Reached settings ((s.handle settings line).answeredBy files).1 ∧
    ∀ f, ((s.handle settings line).answeredBy files).2 = .error f ↔
      ∃ command, Command.read line = .ok command ∧ s.Escapes settings files command f := by
  refine ⟨.line h (Interaction.mayEnd_answeredBy _), fun f ↦ ?_⟩
  cases hread : Command.read line with
  | error e =>
    rw [handle, hread]
    exact iff_of_false (by rintro ⟨⟩) (by rintro ⟨command, ⟨⟩, -⟩)
  | ok command =>
    rw [answer_of_command hread, explained_eq_error_iff]
    constructor
    · intro hfails
      exact ⟨command, rfl, escapes_of_carryOut h.atRest hfails⟩
    · rintro ⟨_, ⟨⟩, hescapes⟩
      exact ⟨answer_of_escapes h.atRest hescapes, hescapes.kind?_eq_none⟩

end

/-- An application of a function with a type number of more digits than a numeral can have. -/
def longText : Text := '(' :: '#' :: (List.replicate 4301 '9' ++ ['p', '0', ')'])

/-- Files of which there are none. -/
def noFiles : Interaction.Answers where
  read _ := .error .missing
  write _ _ := .error .missing
  status _ := .absent
  read_ne _ := by rintro ⟨⟩
  write_ne _ _ := by rintro ⟨⟩

/-- A numeral of more digits than a numeral can have ends a command without an explanation. -/
theorem handle_eq_error_iff_numeral :
    ((Session.new.handle lineSettings ("parse ".toList ++ longText)).answeredBy noFiles).2 =
      .error (.expression (.numeralTooLong 4301)) := by
  have hdigits : ∀ c ∈ List.replicate 4301 '9', c.isDigit = true := by
    intro c hc
    rw [List.eq_of_mem_replicate hc]
    rfl
  have hlength : (List.replicate 4301 '9').length = 4301 := List.length_replicate
  rw [longText]
  generalize List.replicate 4301 '9' = digits at hdigits hlength ⊢
  have hstrip : Text.strip ('(' :: '#' :: (digits ++ ['p', '0', ')'])) =
      '(' :: '#' :: (digits ++ ['p', '0', ')']) := by
    have h := Text.strip_of_ends (c := '(') (d := ')') (t := '#' :: (digits ++ ['p', '0']))
      (by decide) (by decide)
    rwa [List.cons_append, List.append_assoc] at h
  have hline : Text.strip ("parse (#".toList ++ (digits ++ ['p', '0', ')'])) =
      "parse (#".toList ++ (digits ++ ['p', '0', ')']) := by
    have h := Text.strip_of_ends (c := 'p') (d := ')')
      (t := "arse (#".toList ++ (digits ++ ['p', '0'])) (by decide) (by decide)
    rwa [List.append_assoc, List.append_assoc] at h
  have hcommand : Command.read ("parse (#".toList ++ (digits ++ ['p', '0', ')'])) =
      .ok (.parse ('(' :: '#' :: (digits ++ ['p', '0', ')']))) := by
    rw [Command.read, Command.split, hline]
    rfl
  have hread : Expression.readApplied [] ('(' :: '#' :: (digits ++ ['p', '0', ')'])) =
      .error (.numeralTooLong 4301) := by
    have hreference := readReference_of_long hdigits (by rw [hlength]; decide)
      (c := 'p') (by decide) ['0', ')']
    rw [Expression.readApplied, hstrip, readApplication_of_readReference_error hreference, hlength]
    rfl
  refine ((handle_eq_error_iff Reached.new noFiles _).2 _).mpr
    ⟨_, hcommand, .shown (by decide) ?_ hread⟩
  rw [List.length_cons, List.length_cons, List.length_append, hlength]
  decide

end Session

end TermEmbedding
