import TermEmbedding.Proofs.Session.Reached
import TermEmbedding.Proofs.Snapshot.Written

/-!
# Work on a model at rest

What is taken up from a workspace at rest is a finite model without marks that can be reached, and
putting it away again gives the snapshot it was taken from. Work on it is a list of actions, which
may depend on the model, and whatever the actions are, no result is lost.
-/

namespace TermEmbedding

namespace Model

theorem IsFinite.unmarked {m : Model Float} (h : m.IsFinite) : m.unmarked.IsFinite := by
  intro row hrow
  obtain ⟨⟨a, r⟩, hmem, rfl⟩ := List.mem_map.mp hrow
  obtain ⟨ha, hr⟩ := h _ hmem
  refine ⟨?_, ?_⟩
  · obtain ⟨p, x⟩ := a
    cases x <;> exact ha
  · cases r <;> exact hr

/-! ## Actions -/

variable [Routines Float] {allowed : Action → Prop} {source : NoiseSource Float} {c : Context}
  {m : Model Float}

private theorem Consistent.isPrefix_leave (hm : Consistent c m) (a : Action) :
    m.results <+: (a.leave source c m).results := by
  cases a with
  | evaluate p argument => exact (within_evaluate p argument m hm).2.results
  | evaluateExpression e => exact (e.within_evaluate m hm).2.results
  | _ => rw [(tables_leave id m).1]

theorem Consistent.isPrefix_of_isDone [Routines.Shaped Float] {α : Type}
    {operation : Operation Float α} (hm : Consistent c m) (hoperation : operation.IsDone source c) :
    m.results <+: (operation.run m).2.results := by
  obtain ⟨actions, hactions⟩ := hoperation m
  rw [hactions]
  clear hactions
  induction actions generalizing m with
  | nil => exact List.prefix_rfl
  | cons a actions ih =>
    have hfirst : Consistent c (a.leave source c m) := hm.leave a
    exact (hm.isPrefix_leave a).trans (ih hfirst)

end Model

namespace Workspace

variable {settings : Settings} {w : Workspace}

/-- **What is taken up from a workspace at rest** is finite and unmarked, and what it would be put
away as is what it was taken from. -/
theorem AtRest.taken [Routines Float] [Routines.Shaped Float] (hw : w.AtRest settings)
    {m : Model Float} (h : w.model.toModel = .ok m) :
    Model.Reachable settings.source w.context m ∧ m.IsFinite ∧ m.unmarked = m ∧
      Snapshot.ofModel m = .ok w.model := by
  obtain ⟨m₀, hm₀, hs⟩ := hw
  obtain ⟨hfinite, rfl⟩ := (hm₀.consistent.toModel_ofModel hs m).mp h
  exact ⟨.checkout hm₀ hs h, hfinite.unmarked, m₀.unmarked_unmarked,
    (Snapshot.ofModel_unmarked m₀).trans hs⟩

/-- A finite model without marks comes back as it was put away. -/
theorem toModel_of_put {c : Context} {m : Model Float} {s : Snapshot} (hm : m.Consistent c)
    (hfinite : m.IsFinite) (hunmarked : m.unmarked = m) (hput : Snapshot.ofModel m = .ok s) :
    s.toModel = .ok m := by
  have hback := (hm.toModel_ofModel hput).eq_ok hfinite
  rwa [hunmarked] at hback

theorem results_of_toModel {c : Context} {m m' : Model Float} {s : Snapshot}
    (hm : m.Consistent c) (hs : Snapshot.ofModel m = .ok s) (h : s.toModel = .ok m') :
    m.IsFinite ∧ m'.results = m.unmarked.results := by
  obtain ⟨hfinite, rfl⟩ := (hm.toModel_ofModel hs m').mp h
  exact ⟨hfinite, rfl⟩

/-- Work on a workspace that has an answer was done on the model that was taken up, and what it has
left was put away. -/
theorem exists_of_perform_eq_ok {α : Type} {operation : Operation Float α} {a : α}
    {w' : Workspace} (h : w.perform (.ofOperation operation) = (.ok a, w')) :
    ∃ m m' s, w.model.toModel = .ok m ∧ operation.run m = (.ok a, m') ∧
      Snapshot.ofModel m' = .ok s ∧ w' = { w with model := s } := by
  have hperformed := w.performed operation
  rw [h] at hperformed
  generalize houtcome : (Except.ok a, w') = outcome at hperformed
  rcases hperformed with ⟨-⟩ | ⟨-, -⟩ | ⟨htaken, hput⟩
  · cases houtcome
  · cases houtcome
  · obtain ⟨ha, rfl⟩ := Prod.mk.inj houtcome
    refine ⟨_, _, _, htaken, ?_, hput, rfl⟩
    exact Prod.ext (mapError_eq_ok.mp ha.symm) rfl

end Workspace

end TermEmbedding
