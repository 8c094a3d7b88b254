import TermEmbedding.Proofs.Model.Recall
import TermEmbedding.Proofs.Session.Workspaces

/-!
# Evaluating an expression again

What an expression evaluates to in a workspace it evaluates to for the life of the workspace. The
first evaluation leaves a row for each application in the expression. Whatever is done afterwards,
and whether it goes well or not, takes no row away, and rows come through rest as they are if their
vectors are finite. So the second evaluation looks everything up, although an update may have moved
the beliefs that the rows were computed from, and it leaves the workspace as it is.
-/

namespace TermEmbedding

namespace Workspace

section

variable [Routines Float] {settings : Settings} {w w₁ w₂ : Workspace}

/-! ## The life of a workspace -/

/-- What may become of a workspace: one piece of work is done on its model after the other, and each
of them may fail. -/
inductive Continues (settings : Settings) (w : Workspace) : Workspace → Prop
  | refl : Continues settings w w
  | perform {w' : Workspace} (h : Continues settings w w') {α : Type}
      {operation : Operation Float α} (hoperation : operation.IsDone settings.source w'.context) :
      Continues settings w (w'.perform (.ofOperation operation)).2

/-- Whether the vectors in the results of a model at rest are finite. -/
def IsFinite (settings : Settings) (w : Workspace) : Prop :=
  ∃ m, Model.Reachable settings.source w.context m ∧ Snapshot.ofModel m = .ok w.model ∧ m.IsFinite

theorem Continues.evaluate (h : Continues settings w w₁) (e : Expression Float) :
    Continues settings w (w₁.evaluate e).2 :=
  h.perform (Operation.isDone_evaluate e)

theorem Continues.simulate (h : Continues settings w w₁) (e : Expression Float) :
    Continues settings w (w₁.simulate settings.source e).2 :=
  h.perform (Operation.isDone_simulate e)

theorem Continues.update (h : Continues settings w w₁) : Continues settings w w₁.update.2 :=
  h.perform Operation.isDone_update

theorem Continues.atRest (h : Continues settings w w₁) (hw : w.AtRest settings) :
    w₁.AtRest settings := by
  induction h with
  | refl => exact hw
  | perform _ hoperation ih => exact ih.perform hoperation

variable [Routines.Shaped Float]

private theorem IsFinite.exists_toModel (h : w.IsFinite settings) :
    ∃ m, w.model.toModel = .ok m := by
  obtain ⟨m, hm, hs, hfinite⟩ := h
  exact ⟨m.unmarked, (hm.consistent.toModel_ofModel hs).eq_ok hfinite⟩

private theorem isFinite_of_toModel (hw : w.AtRest settings) {m : Model Float}
    (h : w.model.toModel = .ok m) : w.IsFinite settings := by
  obtain ⟨hm, hfinite, -, hs⟩ := hw.taken h
  exact ⟨m, hm, hs, hfinite⟩

/-- **Whatever is done to a workspace, no result is lost**: if its model can be taken up in the end,
then it could be at the start, and its results then were the first of those that it has now. -/
theorem Continues.isPrefix (h : Continues settings w w₁) (hw : w.AtRest settings)
    {m₁ : Model Float} (hm₁ : w₁.model.toModel = .ok m₁) :
    ∃ m, w.model.toModel = .ok m ∧ m.results <+: m₁.results := by
  induction h generalizing m₁ with
  | refl => exact ⟨m₁, hm₁, List.prefix_rfl⟩
  | @perform w' hlife α operation hoperation ih =>
    rcases w'.perform_cases operation with hsame | ⟨m', s, htaken, hput, hleft⟩
    · rw [hsame] at hm₁
      exact ih hm₁
    · rw [hleft] at hm₁
      obtain ⟨hreachable, -, hunmarked, -⟩ := (hlife.atRest hw).taken htaken
      obtain ⟨m, hm, hprefix⟩ := ih htaken
      refine ⟨m, hm, hprefix.trans ?_⟩
      have hconsistent := (hoperation.reachable hreachable).consistent
      obtain ⟨-, hresults⟩ := results_of_toModel hconsistent hput hm₁
      -- the marks that the work has left are dropped, and there were none before
      have hkept := (hreachable.consistent.isPrefix_of_isDone hoperation).map
        fun row ↦ (row.1.unmarked, row.2.unmarked)
      change m'.unmarked.results <+: Model.results (Model.unmarked _) at hkept
      rw [hunmarked, ← hresults] at hkept
      exact hkept

/-! ## The second evaluation -/

/-- **What was evaluated is recalled** by the model that is taken up next. -/
theorem AtRest.recall?_of_evaluate (hw : w.AtRest settings) {e : Expression Float}
    (hmarks : ∀ s ∈ e.references, s.WellMarked) {r : TermReference Float}
    (hrun : w.evaluate e = (.ok r, w₁)) {m₁ : Model Float} (hm₁ : w₁.model.toModel = .ok m₁) :
    e.recall? m₁ = some r := by
  obtain ⟨m, m', s, htaken, hleft, hput, rfl⟩ := exists_of_perform_eq_ok hrun
  obtain ⟨hm, -, hunmarked, -⟩ := hw.taken htaken
  have hall := Model.wellMarked_of_unmarked_eq hunmarked
  have hconsistent := e.consistent_of_run hm.consistent hleft
  obtain ⟨hmarked, -⟩ := e.wellMarked_of_run hmarks hm.consistent hall hleft
  obtain ⟨hfinite, hsame⟩ := results_of_toModel hconsistent hput hm₁
  -- the marks that were dropped at rest were on nothing that is finite
  have hkept : m'.results <+: m₁.results := by
    rw [hsame, Model.results_unmarked hfinite hmarked]
  apply e.recall?_mono (Model.retains_of_isPrefix hkept)
  exact e.recall?_of_run hm.consistent hleft (Model.recognizes_of_isFinite hfinite)

/-- What a model at rest recalls is evaluated without touching it. -/
theorem AtRest.evaluate_of_recall? (hw : w.AtRest settings) {m : Model Float}
    (hm : w.model.toModel = .ok m) {e : Expression Float} {r : TermReference Float}
    (h : e.recall? m = some r) : w.evaluate e = (.ok r, w) := by
  obtain ⟨-, -, -, hs⟩ := hw.taken hm
  have hrun := e.run_of_recall? (c := w.context) h
  have hput : Snapshot.ofModel ((e.evaluate w.context).run m).2 = .ok w.model := by
    rw [hrun]
    exact hs
  refine (perform_of_ok hm hput).trans ?_
  rw [hrun]
  rfl

/-- **An expression keeps its value for the life of its context.** Once it was evaluated in a
workspace, and whatever was done since then, if the vectors in the results are still finite, then it
evaluates to the same reference and the workspace stays entirely as it is. In every expression that
a session reads only vectors that need a mark carry one. Finite vectors that shared a mark would be
one key until marks are dropped at rest, and keys of their own from then on. -/
theorem evaluate_again (hw : w.AtRest settings) {e : Expression Float}
    (hmarks : ∀ s ∈ e.references, s.WellMarked) {r : TermReference Float}
    (hrun : w.evaluate e = (.ok r, w₁)) (hlife : Continues settings w₁ w₂)
    (hfinite : w₂.IsFinite settings) : w₂.evaluate e = (.ok r, w₂) := by
  have hw₁ : w₁.AtRest settings := by
    have hleft := hw.evaluate e
    rw [hrun] at hleft
    exact hleft
  obtain ⟨m₂, hm₂⟩ := hfinite.exists_toModel
  obtain ⟨m₁, hm₁, hprefix⟩ := hlife.isPrefix hw₁ hm₂
  refine (hlife.atRest hw₁).evaluate_of_recall? hm₂ ?_
  exact e.recall?_mono (Model.retains_of_isPrefix hprefix)
    (hw.recall?_of_evaluate hmarks hrun hm₁)

end

/-- The declared function of numbers, which is applied to what it maps a number to. -/
def lineTwice (x : Float) : Expression Float :=
  .application (.term ⟨1, .primitive 0⟩) (Model.lineApplication x)

/-- A function that is applied to its own value has the value after an update that it had before,
although an application that is evaluated for the first time comes out differently. -/
theorem evaluate_again_line : ∃ w w₁ w₂ : Workspace, w.AtRest Session.lineSettings ∧
    w.evaluate (lineTwice 3.0) = (.ok (.vector 0 [18.0] .anywhere), w₁) ∧
    w₁.update = (.ok (), w₂) ∧
    (w₂.evaluate (Model.lineApplication 1.0)).1.toOption ≠
      (w₁.evaluate (Model.lineApplication 1.0)).1.toOption ∧
    w₂.evaluate (lineTwice 3.0) = (.ok (.vector 0 [18.0] .anywhere), w₂) := by
  have hfacts : (Workspace.new Session.lineSettings [] .line).toOption.map (fun w ↦
      ((w.evaluate (lineTwice 3.0)).1.toOption, (w.evaluate (lineTwice 3.0)).2.update.1.toOption,
        (w.evaluate (lineTwice 3.0)).2.update.2.model.toModel.toOption.map fun _ ↦ (),
        decide (((w.evaluate (lineTwice 3.0)).2.update.2.evaluate
            (Model.lineApplication 1.0)).1.toOption =
          ((w.evaluate (lineTwice 3.0)).2.evaluate (Model.lineApplication 1.0)).1.toOption))) =
      some (some (.vector 0 [18.0] .anywhere), some (), some (), false) := by
    decide +kernel
  obtain ⟨w, hnew, hfacts⟩ := exists_of_map_toOption_eq_some hfacts
  have hw : w.AtRest Session.lineSettings := atRest_of_new hnew
  rcases hfirst : w.evaluate (lineTwice 3.0) with ⟨f | r, w₁⟩
  · rw [hfirst] at hfacts
    cases congrArg Prod.fst hfacts
  · rw [hfirst] at hfacts
    rcases hsecond : w₁.update with ⟨f | ⟨⟩, w₂⟩
    · rw [hsecond] at hfacts
      cases congrArg (·.2.1) hfacts
    · rw [hsecond] at hfacts
      obtain ⟨hr, hfacts⟩ := Prod.mk.inj hfacts
      obtain ⟨-, hfacts⟩ := Prod.mk.inj hfacts
      obtain ⟨htaken, hother⟩ := Prod.mk.inj hfacts
      obtain rfl : r = .vector 0 [18.0] .anywhere := Option.some.inj hr
      have hlife : Continues Session.lineSettings w₁ w₁.update.2 := Continues.refl.update
      rw [hsecond] at hlife
      have hw₁ := hw.evaluate (lineTwice 3.0)
      rw [hfirst] at hw₁
      obtain ⟨m₂, hm₂, -⟩ := exists_of_map_toOption_eq_some htaken
      refine ⟨w, w₁, w₂, hw, hfirst, hsecond, of_decide_eq_false hother, ?_⟩
      refine evaluate_again hw ?_ hfirst hlife (isFinite_of_toModel (hlife.atRest hw₁) hm₂)
      -- two terms and a vector, none of which carries a mark
      intro s hs
      have hs' : s = .function ⟨1, .primitive 0⟩ ∨ s = .vector 0 [3.0] .anywhere := by
        simpa [Expression.references, Callee.references, lineTwice, Model.lineApplication] using hs
      rcases hs' with rfl | rfl
      · trivial
      · exact fun _ ↦ rfl

end Workspace

end TermEmbedding
