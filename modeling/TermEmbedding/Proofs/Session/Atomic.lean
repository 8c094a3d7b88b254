import TermEmbedding.Proofs.Model.Growth
import TermEmbedding.Proofs.Session.Interference

/-!
# What a failure leaves behind

A command that fails leaves the bindings and the context as they were, and it opens and closes
nothing. This is so at every stage at which it can fail, since what a command makes is put in place
only when all of it is there: a context is read and given a model before it takes the place of
another one, and a name is bound when there is something to bind it to.

Only the model is worked on in place, and what was found out before the failure is kept. For an
evaluation these are rows of results and what goes with them, for a simulation the state of the
source of noise, and for an update the beliefs.
-/

namespace TermEmbedding

/-! ## Failures -/

/-- What a command that fails may have made of the model at rest. -/
def Command.MayLeave : Command → Snapshot → Snapshot → Prop
  | letBind _ _, before, after | evaluate _, before, after =>
    after = before ∨ ∃ m m', before.toModel = .ok m ∧ Snapshot.ofModel m = .ok before ∧
      Snapshot.ofModel m' = .ok after ∧ m.Gains m'
  | simulate _, before, after => ∃ state, after = before.withNoise state
  | updateModels, _, _ => True
  | help, before, after | parse _, before, after | generateContext _, before, after
  | loadContext _, before, after | unloadContext, before, after | listTypes, before, after
  | listBindings, before, after | listPrimitiveTerms _, before, after
  | saveContext _, before, after | loadModels _, before, after | saveModels _, before, after =>
    after = before

namespace Session

/-- What may be left of a session by a line that fails: one that is no command, or one whose command
fails, whether the failure is explained or not. -/
inductive FailsTo [Routines Float] (settings : Settings) (s : Session) (line : Text) :
    Session → Prop
  | unread {e : CommandError} {s' : Session} {answer : Answer}
    (hread : Command.read line = .error e)
      (hend : (s.handle settings line).MayEnd (s', answer)) : FailsTo settings s line s'
  | failed {command : Command} {f : CommandFailure} {s' : Session}
      (hread : Command.read line = .ok command)
      (hend : (s.carryOut settings command).MayEnd (s', .error f)) : FailsTo settings s line s'

/-- Whether two sessions have the same bindings and the same context, or none, while the model of
one may have come from the model of the other one. -/
structure SameButModel (mayLeave : Snapshot → Snapshot → Prop) (s s' : Session) : Prop where
  bindings : s'.bindings = s.bindings
  closed : s.workspace = none → s'.workspace = none
  opened : ∀ w, s.workspace = some w →
    ∃ model, s'.workspace = some { w with model := model } ∧ mayLeave w.model model

variable {settings : Settings} {s s' : Session} {mayLeave : Snapshot → Snapshot → Prop}

private theorem sameButModel_self (h : ∀ w, s.workspace = some w → mayLeave w.model w.model) :
    SameButModel mayLeave s s :=
  ⟨rfl, fun hs ↦ hs, fun w hw ↦ ⟨w.model, hw, h w hw⟩⟩

private theorem sameButModel_of_model {w : Workspace} (hw : s.workspace = some w) {model : Snapshot}
    (h : mayLeave w.model model) :
    SameButModel mayLeave s { s with workspace := some { w with model := model } } := by
  refine ⟨rfl, fun hnone ↦ ?_, fun w' hw' ↦ ?_⟩
  · rw [hw] at hnone
    cases hnone
  · rw [hw] at hw'
    cases hw'
    exact ⟨model, rfl, h⟩

end Session

/-! ## What a command may leave -/

private theorem Workspace.AtRest.mayLeave_self [Routines Float] {settings : Settings}
    {w : Workspace}
    (hw : w.AtRest settings) (command : Command) : command.MayLeave w.model w.model := by
  cases command with
  | letBind | evaluate => exact .inl rfl
  | simulate text =>
    obtain ⟨state, hstate⟩ := hw.exists_withNoise_eq
    exact ⟨state, (congrArg Workspace.model hstate).symm⟩
  | updateModels => trivial
  | _ => rfl

private theorem Workspace.AtRest.mayLeave_evaluate [Routines Float] [Routines.Shaped Float]
    {settings : Settings} {w : Workspace} (hw : w.AtRest settings) {command : Command}
    {name text : Text} (hbinds : command.Binds name text) (e : Expression Float) :
    ∃ model, (w.evaluate e).2 = { w with model := model } ∧
      command.MayLeave w.model model := by
  rcases w.perform_cases (e.evaluate w.context) with hsame | ⟨m, s, htaken, hput, hleft⟩
  · exact ⟨w.model, hsame, hw.mayLeave_self command⟩
  · refine ⟨s, hleft, ?_⟩
    obtain ⟨hm, -, -, hstored⟩ := hw.taken htaken
    have hgains := hm.consistent.gains_evaluate e
    cases hbinds with
    | letBind => exact .inr ⟨m, _, htaken, hstored, hput, hgains⟩
    | evaluate => exact .inr ⟨m, _, htaken, hstored, hput, hgains⟩

namespace Session

section

variable [Routines Float] {settings : Settings} {s s' : Session} {f : CommandFailure}

/-- **A command that fails leaves everything but the model as it was.** -/
theorem sameButModel_of_carryOut [Routines.Shaped Float] (hrest : s.AtRest settings)
    {command : Command} (hend : (s.carryOut settings command).MayEnd (s', .error f)) :
    SameButModel command.MayLeave s s' := by
  cases carriedOut hend with
  | refused => exact sameButModel_self fun w hw ↦ (hrest w hw).mayLeave_self command
  | unbound hbinds hw e =>
    obtain ⟨model, hleft, hmodel⟩ := (hrest _ hw).mayLeave_evaluate hbinds e
    rw [hleft]
    exact sameButModel_of_model hw hmodel
  | simulated hw e =>
    obtain ⟨state, hleft⟩ := (hrest _ hw).exists_simulate_eq settings.source e
    rw [hleft]
    exact sameButModel_of_model hw ⟨state, rfl⟩
  | @updated w hw =>
    rcases w.perform_cases (Model.update w.context) with hsame | ⟨m, model, -, -, hleft⟩
    · rw [Workspace.update, hsame]
      exact sameButModel_of_model hw trivial
    · rw [Workspace.update, hleft]
      exact sameButModel_of_model hw trivial

private theorem FailsTo.exists_mayEnd_handle {line : Text} (hfails : s.FailsTo settings line s') :
    ∃ answer, (s.handle settings line).MayEnd (s', answer) := by
  cases hfails with
  | unread _ hend => exact ⟨_, hend⟩
  | failed hread hend =>
    rw [Session.handle, hread]
    exact ⟨_, hend.bind (.done _)⟩

/-- **A line that fails leaves the bindings and the context of a session as they were**, and whether
there is a context. Its model is the one that it was unless the line evaluates or simulates
something or updates the beliefs. A failed evaluation may have added rows of results and what goes
with them, and a failed simulation may have moved the source of noise. -/
theorem sameButModel_of_failsTo [Routines.Shaped Float] (h : Reached settings s) {line : Text}
    (hfails : s.FailsTo settings line s') :
    (∃ answer, (s.handle settings line).MayEnd (s', answer)) ∧
    s'.bindings = s.bindings ∧ (s.workspace = none → s'.workspace = none) ∧
      ∀ w, s.workspace = some w → ∃ model, s'.workspace = some { w with model := model } ∧
        (∀ command, Command.read line = .ok command → command.MayLeave w.model model) ∧
        ((∀ command, Command.read line ≠ .ok command) → model = w.model) := by
  refine ⟨hfails.exists_mayEnd_handle, ?_⟩
  cases hfails with
  | unread hread hend =>
    rw [Session.handle, hread] at hend
    obtain rfl : s' = s := congrArg Prod.fst (Interaction.eq_of_mayEnd_pure hend)
    refine ⟨rfl, fun hs ↦ hs, fun w hw ↦ ⟨w.model, hw, fun command hcommand ↦ ?_, fun _ ↦ rfl⟩⟩
    rw [hread] at hcommand
    cases hcommand
  | failed hread hend =>
    obtain ⟨hbindings, hclosed, hopened⟩ := sameButModel_of_carryOut h.atRest hend
    refine ⟨hbindings, hclosed, fun w hw ↦ ?_⟩
    obtain ⟨model, hmodel, hleft⟩ := hopened w hw
    refine ⟨model, hmodel, fun command hcommand ↦ ?_, fun hnone ↦ absurd hread (hnone _)⟩
    rw [hread] at hcommand
    cases hcommand
    exact hleft

end

/-- The application of a number fails after the application that gives the number has its row. -/
theorem sameButModel_of_failsTo_line : ∃ s s' w model, Reached lineSettings s ∧
    s.FailsTo lineSettings "eval (#1p0 #0[1.0] #0[2.0])".toList s' ∧ s'.bindings = s.bindings ∧
    s.workspace = some w ∧ s'.workspace = some { w with model := model } ∧
    w.model.toModel.toOption.map (·.results.length) = some 0 ∧
    model.toModel.toOption.map (·.results.length) = some 1 ∧
    (Command.evaluate "(#1p0 #0[1.0] #0[2.0])".toList).MayLeave w.model model := by
  have hfacts : (Command.read "eval (#1p0 #0[1.0] #0[2.0])".toList).toOption =
        some (.evaluate "(#1p0 #0[1.0] #0[2.0])".toList) ∧
      (((Session.new.after lineSettings lineFiles ["generate_context line.json".toList]).carryOut
        lineSettings (.evaluate "(#1p0 #0[1.0] #0[2.0])".toList)).runIn
          lineFiles).1.2.toOption = none ∧
      (Session.new.after lineSettings lineFiles
        ["generate_context line.json".toList]).workspace.map
          (fun w ↦ w.model.toModel.toOption.map (·.results.length)) = some (some 0) ∧
      (((Session.new.after lineSettings lineFiles ["generate_context line.json".toList]).carryOut
        lineSettings (.evaluate "(#1p0 #0[1.0] #0[2.0])".toList)).runIn
          lineFiles).1.1.workspace.map
            (fun w ↦ w.model.toModel.toOption.map (·.results.length)) = some (some 1) := by
    decide +kernel
  obtain ⟨hread, hfailed, hbefore, hafter⟩ := hfacts
  have h : Reached lineSettings
      (Session.new.after lineSettings lineFiles ["generate_context line.json".toList]) :=
    Reached.new.after _ _
  generalize Session.new.after lineSettings lineFiles ["generate_context line.json".toList] = s at *
  have hend := Interaction.mayEnd_runIn
    (s.carryOut lineSettings (.evaluate "(#1p0 #0[1.0] #0[2.0])".toList)) lineFiles
  rcases hrun : ((s.carryOut lineSettings (.evaluate "(#1p0 #0[1.0] #0[2.0])".toList)).runIn
    lineFiles).1 with ⟨s', f | text⟩
  · rw [hrun] at hend hafter
    have hcommand := toOption_eq_some_iff.mp hread
    have hfails : s.FailsTo lineSettings "eval (#1p0 #0[1.0] #0[2.0])".toList s' :=
      .failed hcommand hend
    obtain ⟨-, hbindings, -, hopened⟩ := sameButModel_of_failsTo h hfails
    obtain ⟨w, hw, hbefore⟩ := Option.map_eq_some_iff.mp hbefore
    obtain ⟨model, hmodel, hleft, -⟩ := hopened w hw
    rw [hmodel] at hafter
    exact ⟨s, s', w, model, h, hfails, hbindings, hw, hmodel, hbefore, Option.some.inj hafter,
      hleft _ hcommand⟩
  · rw [hrun] at hfailed
    cases hfailed

end Session

end TermEmbedding
