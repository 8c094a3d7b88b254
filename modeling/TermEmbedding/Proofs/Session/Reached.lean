import TermEmbedding.Proofs.Model.Reachable
import TermEmbedding.Proofs.Session.Outcomes

/-!
# Sessions that can be reached

Between commands a session with a workspace holds a model at rest, which is what a model that can
be reached was put away as. A command takes the model up, works on it and puts it away, and if it
cannot be taken up or put away, then it stays as it was. So the snapshot of a session is never the
empty one that stands in for a model in use.

## A model that is lost

What was put away can be taken up again if its vectors are finite. Evaluation does not look at that:
an application can overflow, the command that evaluated it succeeds, and no later command finds a
model to work on.
-/

namespace TermEmbedding

namespace Workspace

/-! ## Work on a model -/

variable {settings : Settings} {w : Workspace}

theorem run_ofOperation {α : Type} (operation : Operation Float α) (m : Model Float)
    (place : Snapshot) : (Live.ofOperation operation).run m place =
      (((operation.run m).1.mapError .failure, (operation.run m).2), place) := rfl

theorem perform_of_error {α : Type} {e : SnapshotError} (h : w.model.toModel = .error e)
    (operation : Operation Float α) :
    w.perform (.ofOperation operation) = (.error (.snapshot e), w) := by
  simp only [perform, checkout, ExceptT.run_mk, StateT.run, h]

theorem perform_of_ok {α : Type} {operation : Operation Float α} {m : Model Float} {s : Snapshot}
    (h : w.model.toModel = .ok m) (hs : Snapshot.ofModel (operation.run m).2 = .ok s) :
    w.perform (.ofOperation operation) =
      ((operation.run m).1.mapError .failure, { w with model := s }) := by
  simp only [perform, checkout, ExceptT.run_mk, StateT.run, h, run_ofOperation, hs]

theorem perform_of_unwritable {α : Type} {operation : Operation Float α} {m : Model Float}
    {e : SnapshotError} (h : w.model.toModel = .ok m)
    (hs : Snapshot.ofModel (operation.run m).2 = .error e) :
    w.perform (.ofOperation operation) = (.error (.snapshot e), w) := by
  simp only [perform, checkout, ExceptT.run_mk, StateT.run, h, run_ofOperation, hs]

/-- What comes of work on the model of a workspace. -/
inductive Performed {α : Type} (w : Workspace) (operation : Operation Float α) :
    Except ModelError α × Workspace → Prop
  /-- There is no model to work on. -/
  | absent {e : SnapshotError} (h : w.model.toModel = .error e) :
      Performed w operation (.error (.snapshot e), w)
  /-- What is left of the model cannot be put away. -/
  | unwritable {m : Model Float} {e : SnapshotError} (h : w.model.toModel = .ok m)
      (hput : Snapshot.ofModel (operation.run m).2 = .error e) :
      Performed w operation (.error (.snapshot e), w)
  /-- What is left of the model is put away. -/
  | put {m : Model Float} {s : Snapshot} (h : w.model.toModel = .ok m)
      (hput : Snapshot.ofModel (operation.run m).2 = .ok s) :
      Performed w operation ((operation.run m).1.mapError .failure, { w with model := s })

theorem performed {α : Type} (w : Workspace) (operation : Operation Float α) :
    w.Performed operation (w.perform (.ofOperation operation)) := by
  cases h : w.model.toModel with
  | error e =>
    rw [perform_of_error h]
    exact .absent h
  | ok m =>
    cases hput : Snapshot.ofModel (operation.run m).2 with
    | error e =>
      rw [perform_of_unwritable h hput]
      exact .unwritable h hput
    | ok s =>
      rw [perform_of_ok h hput]
      exact .put h hput

/-- Work leaves a workspace as it is, or with what it has made of the model that was taken up. -/
theorem perform_cases {α : Type} (w : Workspace) (operation : Operation Float α) :
    (w.perform (.ofOperation operation)).2 = w ∨
      ∃ m s, w.model.toModel = .ok m ∧ Snapshot.ofModel (operation.run m).2 = .ok s ∧
        (w.perform (.ofOperation operation)).2 = { w with model := s } := by
  have hperformed := w.performed operation
  generalize w.perform (.ofOperation operation) = outcome at hperformed ⊢
  rcases hperformed with ⟨-⟩ | ⟨-, -⟩ | ⟨htaken, hput⟩
  · exact .inl rfl
  · exact .inl rfl
  · exact .inr ⟨_, _, htaken, hput, rfl⟩

/-! ## Models at rest -/

variable [Routines Float]

/-- Whether the model of a workspace is what a model that can be reached was put away as. -/
def AtRest (settings : Settings) (w : Workspace) : Prop :=
  ∃ m, Model.Reachable settings.source w.context m ∧ Snapshot.ofModel m = .ok w.model

theorem exists_of_new_eq_ok {contents : Bytes} {c : Context}
    (h : new settings contents c = .ok w) :
    ∃ m s, Model.fresh settings.source c settings.seed = .ok m ∧ Snapshot.ofModel m = .ok s ∧
      w = ⟨c, contents, s⟩ := by
  obtain ⟨m, hm, h⟩ := exists_of_bind_eq_ok h
  obtain ⟨s, hs, h⟩ := exists_of_bind_eq_ok h
  cases h
  exact ⟨m, s, mapError_eq_ok.mp hm, mapError_eq_ok.mp hs, rfl⟩

theorem atRest_of_new {contents : Bytes} {c : Context} (h : new settings contents c = .ok w) :
    w.AtRest settings := by
  obtain ⟨m, s, hm, hs, rfl⟩ := exists_of_new_eq_ok h
  exact ⟨m, .fresh hm, hs⟩

theorem AtRest.perform {α : Type} {operation : Operation Float α}
    (hoperation : operation.IsDone settings.source w.context) (h : w.AtRest settings) :
    (w.perform (.ofOperation operation)).2.AtRest settings := by
  rcases w.perform_cases operation with hsame | ⟨m', s, htaken, hput, hleft⟩
  · rw [hsame]
    exact h
  · obtain ⟨m, hm, hs⟩ := h
    rw [hleft]
    exact ⟨_, hoperation.reachable (.checkout hm hs htaken), hput⟩

theorem AtRest.evaluate (h : w.AtRest settings) (e : Expression Float) :
    (w.evaluate e).2.AtRest settings :=
  h.perform (Operation.isDone_evaluate e)

theorem AtRest.simulate (h : w.AtRest settings) (e : Expression Float) :
    (w.simulate settings.source e).2.AtRest settings :=
  h.perform (Operation.isDone_simulate e)

theorem AtRest.update (h : w.AtRest settings) : w.update.2.AtRest settings :=
  h.perform Operation.isDone_update

end Workspace

/-! ## Sessions -/

namespace Session

section

variable [Routines Float] {settings : Settings} {s s' : Session} {answer : Answer}

/-- Whether the workspace of a session, if there is one, has its model at rest. -/
def AtRest (settings : Settings) (s : Session) : Prop :=
  ∀ w, s.workspace = some w → w.AtRest settings

private theorem atRest_some {bindings : Bindings Float} {w : Workspace} (h : w.AtRest settings) :
    AtRest settings ⟨bindings, some w⟩ := by
  rintro _ ⟨⟩
  exact h

/-- **Every command keeps the model of a session at rest.** -/
theorem AtRest.carryOut {command : Command} (h : s.AtRest settings)
    (hend : (s.carryOut settings command).MayEnd (s', answer)) : s'.AtRest settings := by
  cases carriedOut hend with
  | refused => exact h
  | said => exact h
  | closed => rintro _ ⟨⟩
  | opened _ _ hnew => exact atRest_some (Workspace.atRest_of_new hnew)
  | bound _ hw => exact atRest_some ((h _ hw).evaluate _)
  | unbound _ hw e => exact atRest_some ((h _ hw).evaluate e)
  | simulated hw e => exact atRest_some ((h _ hw).simulate e)
  | updated hw => exact atRest_some (h _ hw).update

theorem AtRest.handle {line : Text} (h : s.AtRest settings)
    (hend : (s.handle settings line).MayEnd (s', answer)) : s'.AtRest settings := by
  rcases handle_cases hend with ⟨e, -, rfl, -⟩ | ⟨command, outcome, -, hcommand, -⟩
  · exact h
  · exact h.carryOut hcommand

/-- The sessions that are reached from a new one, whatever the files hold. -/
inductive Reached (settings : Settings) : Session → Prop
  | new : Reached settings .new
  | line {s s' : Session} {line : Text} {answer : Answer} (h : Reached settings s)
    (hend : (s.handle settings line).MayEnd (s', answer)) : Reached settings s'

theorem Reached.atRest (h : Reached settings s) : s.AtRest settings := by
  induction h with
  | new => rintro _ ⟨⟩
  | line _ hend ih => exact ih.handle hend

/-- The session after some lines, with files in memory. -/
def after (settings : Settings) : Session → Tree → List Text → Session
  | s, _, [] => s
  | s, t, line :: rest =>
    let outcome := (s.handle settings line).runIn t
    after settings outcome.1.1 outcome.2 rest

theorem Reached.after (h : Reached settings s) (t : Tree) (ls : List Text) :
    Reached settings (s.after settings t ls) := by
  induction ls generalizing s t with
  | nil => exact h
  | cons line rest ih => exact ih (.line h (Interaction.mayEnd_runIn _ t)) _

/-! ## What can be taken up again -/

/-- **The snapshot of a session that can be reached is what a model was put away as, and this model
can be taken up again exactly if its vectors are finite.** If they are not, then all work on it
fails and leaves it as it is. -/
theorem toModel_iff_isFinite [Routines.Shaped Float] {w : Workspace} (h : Reached settings s)
    (hw : s.workspace = some w) :
    w.model.isEmpty = false ∧
    ∃ m, Model.Reachable settings.source w.context m ∧ Snapshot.ofModel m = .ok w.model ∧
      (∀ m', w.model.toModel = .ok m' ↔ m.IsFinite ∧ m' = m.unmarked) ∧
      (¬m.IsFinite → ∃ e, ∀ {α : Type} (operation : Operation Float α),
        w.perform (.ofOperation operation) = (.error (.snapshot e), w)) := by
  obtain ⟨m, hm, hs⟩ := h.atRest w hw
  have hmodel := hm.consistent.toModel_ofModel hs
  refine ⟨Snapshot.isEmpty_ofModel hs, m, hm, hs, hmodel, fun hnot ↦ ?_⟩
  cases herror : w.model.toModel with
  | error e => exact ⟨e, w.perform_of_error herror⟩
  | ok m' => exact absurd herror (hmodel.ne_ok hnot m')

end

/-- Numbers and a function of them, as a file declares them. -/
def lineFiles : Tree where
  directories := []
  files := [(["line.json".toList], Text.utf8 ("\x7b\"types\": [\x7b\"vector\": 1\x7d, " ++
    "\x7b\"function\": [0, 0]\x7d], \"primitives\": \x7b\"1\": [\"f\"]\x7d\x7d").toList)]
  working := []

/-- Settings with a constant source of noise. -/
def lineSettings : Settings := ⟨.tape #[20.0], .unspecified, ⟨[], []⟩⟩

/-- An application that overflows goes well, and then there is no model to work on. -/
theorem toModel_iff_isFinite_line : ∃ s w, Reached lineSettings s ∧ s.workspace = some w ∧
    w.model.isEmpty = false ∧
    ∃ e, ∀ {α : Type} (operation : Operation Float α),
      w.perform (.ofOperation operation) = (.error (.snapshot e), w) := by
  have hlost : ((Session.new.after lineSettings lineFiles ["generate_context line.json".toList,
      "eval (#1p0 #0[1e308])".toList]).workspace.map
        fun w ↦ w.model.toModel.toOption.isNone) = some true := by decide +kernel
  obtain ⟨w, hw, hnone⟩ := Option.map_eq_some_iff.mp hlost
  have hreached : Reached lineSettings (Session.new.after lineSettings lineFiles
      ["generate_context line.json".toList, "eval (#1p0 #0[1e308])".toList]) :=
    Reached.new.after _ _
  obtain ⟨hempty, m, -, -, hmodel, hlost⟩ := toModel_iff_isFinite hreached hw
  refine ⟨_, w, hreached, hw, hempty, hlost fun hfinite ↦ ?_⟩
  rw [(hmodel _).mpr ⟨hfinite, rfl⟩] at hnone
  cases hnone

end Session

end TermEmbedding
