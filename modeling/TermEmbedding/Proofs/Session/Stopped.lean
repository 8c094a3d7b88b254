import TermEmbedding.Proofs.Model.Safety
import TermEmbedding.Proofs.Session.Workspaces
import TermEmbedding.Proofs.Snapshot.Faults
import TermEmbedding.Proofs.Snapshot.Lossless

/-!
# How work on the model of a workspace fails

Work on a model at rest fails if the model cannot be taken up, if the work itself fails or if what
is left of the model cannot be put away. The first is always explained to the user, and the last
never is. What the work itself does depends on what it is: an evaluation explains all of its
failures, while a simulation and an update may be stopped by arithmetic.

Only an evaluation makes a model larger, so simulations and updates leave what can be put away.
-/

namespace TermEmbedding

namespace Model

variable {source : NoiseSource Float} {c : Context} {m m' : Model Float}

theorem ReachableBy.ofModel_eq_error_iff [Routines Float] [Routines.Shaped Float]
    {allowed : Action → Prop} (h : ReachableBy allowed source c m) :
    Snapshot.ofModel m = .error .unwritable ↔ ¬m.HasText := by
  rw [← h.consistent.exists_ofModel_iff h.origins_ne_nil]
  cases hput : Snapshot.ofModel m with
  | ok s => exact iff_of_false (by rintro ⟨⟩) fun hnone ↦ hnone ⟨s, rfl⟩
  | error e =>
    obtain rfl := Snapshot.errorsOnly_ofModel m e hput
    exact iff_of_true rfl (by rintro ⟨s, ⟨⟩⟩)

/-- Whether a model can be written depends on the terms and types that it knows. -/
private theorem HasText.of_keys (h : m.HasText)
    (hterms : m'.embeddings.map (·.1) = m.embeddings.map (·.1))
    (htypes : m'.elaborators = m.elaborators) : m'.HasText := by
  refine ⟨fun row hrow ↦ ?_, htypes ▸ h.types⟩
  have hkey : row.1 ∈ m.embeddings.map (·.1) := hterms ▸ List.mem_map_of_mem hrow
  obtain ⟨row', hrow', hsame⟩ := List.mem_map.mp hkey
  rw [← hsame]
  exact h.terms row' hrow'

end Model

namespace Workspace

variable [Routines Float] {settings : Settings} {w : Workspace}

theorem new_of_failure {contents : Bytes} {c : Context} {f : Failure Float}
    (hfresh : Model.fresh settings.source c settings.seed = .error f) :
    new settings contents c = .error (.failure f) := by
  rw [new, hfresh]
  rfl

theorem new_of_unwritable {contents : Bytes} {c : Context} {m : Model Float} {e : SnapshotError}
    (hfresh : Model.fresh settings.source c settings.seed = .ok m)
    (hput : Snapshot.ofModel m = .error e) : new settings contents c = .error (.snapshot e) := by
  rw [new, bind_ok (mapError_eq_ok.mpr hfresh), hput]
  rfl

theorem new_of_ok {contents : Bytes} {c : Context} {m : Model Float} {snapshot : Snapshot}
    (hfresh : Model.fresh settings.source c settings.seed = .ok m)
    (hput : Snapshot.ofModel m = .ok snapshot) :
    new settings contents c = .ok ⟨c, contents, snapshot⟩ := by
  rw [new, bind_ok (mapError_eq_ok.mpr hfresh), bind_ok (mapError_eq_ok.mpr hput)]
  rfl

variable [Routines.Shaped Float]

/-- A model that was taken up can be put away again. -/
theorem AtRest.hasText (hw : w.AtRest settings) {m : Model Float}
    (hm : w.model.toModel = .ok m) : m.HasText := by
  obtain ⟨hreached, -, -, hput⟩ := hw.taken hm
  exact (hreached.consistent.exists_ofModel_iff hreached.origins_ne_nil).mp ⟨_, hput⟩

theorem AtRest.hasText_simulate (hw : w.AtRest settings) {m : Model Float}
    (hm : w.model.toModel = .ok m) (e : Expression Float) :
    ((e.simulate (Model.sample settings.source) w.context).run m).2.HasText := by
  -- only the state of the source of noise changes
  obtain ⟨state, hstate⟩ :=
    e.within_simulate (c := w.context) (Model.within_sample settings.source) m
  rw [hstate]
  exact (hw.hasText hm).of_keys rfl rfl

theorem AtRest.hasText_update (hw : w.AtRest settings) {m : Model Float}
    (hm : w.model.toModel = .ok m) : ((Model.update w.context).run m).2.HasText := by
  -- beliefs change, and what they are about does not
  rcases Model.update_cases (c := w.context) m with ⟨m', hrun, hsame, -⟩ |
    ⟨-, -, -, m', f, -, -, -, hrun, hsame, -⟩
  · rw [hrun]
    exact (hw.hasText hm).of_keys hsame.2 (by rw [hsame.1])
  · rw [hrun]
    exact (hw.hasText hm).of_keys hsame.2 (by rw [hsame.1])

/-- **Work on a model fails without an explanation in two ways.** It does so itself, or what it
leaves of the model cannot be written. -/
theorem AtRest.perform_unexplained (hw : w.AtRest settings) {α : Type}
    {operation : Operation Float α} (hoperation : operation.IsDone settings.source w.context)
    {e : ModelError} (h : (w.perform (.ofOperation operation)).1 = .error e)
    (hkind : e.kind? = none) :
    ∃ m, w.model.toModel = .ok m ∧
      (¬(operation.run m).2.HasText ∧ e = .snapshot .unwritable ∨
        ∃ f m', operation.run m = (.error f, m') ∧ f.kind? = none ∧ e = .failure f) := by
  cases hm : w.model.toModel with
  | error e' =>
    rw [perform_of_error hm] at h
    cases h
    obtain ⟨m, hreached, hput⟩ := hw
    have hexplained : e'.kind?.isSome = true := hreached.consistent.errorsOnly_toModel hput e' hm
    rw [show e'.kind? = none from hkind] at hexplained
    cases hexplained
  | ok m =>
    refine ⟨m, rfl, ?_⟩
    obtain ⟨hreached, -, -, -⟩ := hw.taken hm
    cases hput : Snapshot.ofModel (operation.run m).2 with
    | error e' =>
      rw [perform_of_unwritable hm hput] at h
      cases h
      obtain rfl := Snapshot.errorsOnly_ofModel _ e' hput
      exact .inl ⟨(hoperation.reachable hreached).ofModel_eq_error_iff.mp hput, rfl⟩
    | ok s =>
      rw [perform_of_ok hm hput] at h
      rcases hrun : operation.run m with ⟨f | a, m'⟩
      · rw [hrun] at h
        cases h
        exact .inr ⟨f, m', rfl, hkind, rfl⟩
      · rw [hrun] at h
        cases h

theorem AtRest.perform_of_failure (hw : w.AtRest settings) {α : Type}
    {operation : Operation Float α} (hoperation : operation.IsDone settings.source w.context)
    {m m' : Model Float} {f : Failure Float} (hm : w.model.toModel = .ok m)
    (hrun : operation.run m = (.error f, m')) (htext : (operation.run m).2.HasText) :
    (w.perform (.ofOperation operation)).1 = .error (.failure f) := by
  obtain ⟨hreached, -, -, -⟩ := hw.taken hm
  have hleft := hoperation.reachable hreached
  obtain ⟨s, hput⟩ := (hleft.consistent.exists_ofModel_iff hleft.origins_ne_nil).mpr htext
  rw [perform_of_ok hm hput, hrun]
  rfl

theorem AtRest.evaluate_unexplained (hw : w.AtRest settings) {e : Expression Float}
    {error : ModelError} (h : (w.evaluate e).1 = .error error) (hkind : error.kind? = none) :
    error = .snapshot .unwritable ∧
      ∃ m, w.model.toModel = .ok m ∧ ¬((e.evaluate w.context).run m).2.HasText := by
  obtain ⟨m, hm, ⟨hleft, rfl⟩ | ⟨f, m', hrun, hnone, rfl⟩⟩ :=
    hw.perform_unexplained (Operation.isDone_evaluate e) h hkind
  · exact ⟨rfl, m, hm, hleft⟩
  · obtain ⟨hreached, -, -, -⟩ := hw.taken hm
    have hexplained := e.meets_evaluate.of_error hreached.consistent hrun
    rw [hnone] at hexplained
    cases hexplained

theorem AtRest.simulate_unexplained [Routines.FailsByNumbers Float] (hw : w.AtRest settings)
    {e : Expression Float} {error : ModelError}
    (h : (w.simulate settings.source e).1 = .error error) (hkind : error.kind? = none) :
    ∃ m m' reason, error = .failure (.linear reason) ∧
      w.model.toModel = .ok m ∧
      (e.simulate (Model.sample settings.source) w.context).run m =
        (.error (.linear reason), m') := by
  obtain ⟨m, hm, ⟨hleft, rfl⟩ | ⟨f, m', hrun, hnone, rfl⟩⟩ :=
    hw.perform_unexplained (Operation.isDone_simulate e) h hkind
  · exact absurd (hw.hasText_simulate hm e) hleft
  · obtain ⟨hreached, -, -, -⟩ := hw.taken hm
    obtain ⟨reason, rfl⟩ := ((e.meets_simulate hreached.consistent).of_error
      (Std.Refl.refl m) hrun).isOrdinary hnone
    exact ⟨m, m', reason, rfl, hm, hrun⟩

theorem AtRest.exists_text_of_simulate [Routines.FailsByNumbers Float] (hw : w.AtRest settings)
    {e : Expression Float} {v : TypedVector Float} (h : (w.simulate settings.source e).1 = .ok v) :
    ∃ t, v.text? = some t := by
  obtain ⟨m, m', -, hm, hrun, -, -⟩ := exists_of_perform_eq_ok (Prod.ext h rfl)
  obtain ⟨hreached, -, -, -⟩ := hw.taken hm
  obtain ⟨n, hshape⟩ := (e.meets_simulate hreached.consistent).of_ok (Std.Refl.refl m) hrun
  rw [TypedVector.text?, Tensor.toVector?_of_shape hshape]
  exact ⟨_, rfl⟩

theorem AtRest.update_unexplained [Routines.FailsByNumbers Float] (hw : w.AtRest settings)
    {error : ModelError} (h : w.update.1 = .error error) (hkind : error.kind? = none) :
    ∃ m m' reason, error = .failure (.linear reason) ∧ w.model.toModel = .ok m ∧
      (Model.update w.context).run m = (.error (.linear reason), m') := by
  obtain ⟨m, hm, ⟨hleft, rfl⟩ | ⟨f, m', hrun, hnone, rfl⟩⟩ :=
    hw.perform_unexplained Operation.isDone_update h hkind
  · exact absurd (hw.hasText_update hm) hleft
  · obtain ⟨hreached, hfinite, -, -⟩ := hw.taken hm
    obtain rfl := hreached.consistent.eq_degenerate_of_update
      (Model.recognizes_of_isFinite hfinite) hrun
    exact ⟨m, m', .degenerate, rfl, hm, hrun⟩

end Workspace

end TermEmbedding
