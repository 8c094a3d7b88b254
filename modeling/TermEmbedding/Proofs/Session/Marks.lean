import TermEmbedding.Proofs.Expression.References
import TermEmbedding.Proofs.Model.Recall
import TermEmbedding.Proofs.Session.Workspaces

/-!
# Marks in sessions

A vector carries a mark of where it came up only if it needs one. This is so of everything that a
session binds names to: what is bound is the outcome of an evaluation, and evaluation marks vectors
as they need it. Literals carry no marks, and so it is also so of every expression that a session
reads.
-/

namespace TermEmbedding

/-- Whether names are bound to references that carry marks only where they need them. -/
def Bindings.WellMarked (bindings : Bindings Float) : Prop := ∀ row ∈ bindings, row.2.WellMarked

namespace Bindings

variable {bindings : Bindings Float}

theorem WellMarked.offers (h : bindings.WellMarked) :
    bindings.Offers (TermReference.WellMarked (K := Float)) :=
  ⟨h, fun _ ↦ trivial, fun _ _ _ ↦ rfl⟩

/-- A vector that needs a mark needs it also when it is marked anew. -/
theorem WellMarked.bind (h : bindings.WellMarked) (name : Text) {r : TermReference Float}
    (hr : r.WellMarked) : (bindings.bind name r).WellMarked := by
  intro row hrow
  rcases Table.mem_insert hrow with rfl | hrow
  · dsimp only
    split
    · intro hnumbers
      cases hr hnumbers
    · exact hr
  · exact h row hrow

end Bindings

theorem Workspace.AtRest.wellMarked_of_evaluate [Routines Float] [Routines.Shaped Float]
    {settings : Settings} {w w' : Workspace}
    (hw : w.AtRest settings) {e : Expression Float} (hmarks : ∀ s ∈ e.references, s.WellMarked)
    {r : TermReference Float} (hrun : w.evaluate e = (.ok r, w')) : r.WellMarked := by
  obtain ⟨m, m', s, htaken, hleft, -, -⟩ := exists_of_perform_eq_ok hrun
  obtain ⟨hm, -, hunmarked, -⟩ := hw.taken htaken
  have hall := Model.wellMarked_of_unmarked_eq hunmarked
  exact (e.wellMarked_of_run hmarks hm.consistent hall hleft).2

namespace Session

variable [Routines Float] [Routines.Shaped Float] {settings : Settings} {s s' : Session}
  {answer : Answer}

/-- Whether the bindings of a session carry marks only where they need them. -/
def WellMarked (s : Session) : Prop := s.bindings.WellMarked

theorem WellMarked.carryOut {command : Command} (h : s.WellMarked) (hrest : s.AtRest settings)
    (hend : (s.carryOut settings command).MayEnd (s', answer)) : s'.WellMarked := by
  cases carriedOut hend with
  | bound _ hw hread hrun =>
    have hmarks := Expression.forall_references_of_read h.offers hread
    exact Bindings.WellMarked.bind h _
      ((hrest _ hw).wellMarked_of_evaluate hmarks (Prod.ext hrun rfl))
  | _ => exact h

theorem WellMarked.handle {line : Text} (h : s.WellMarked) (hrest : s.AtRest settings)
    (hend : (s.handle settings line).MayEnd (s', answer)) : s'.WellMarked := by
  rcases handle_cases hend with ⟨e, -, rfl, -⟩ | ⟨command, outcome, -, hcommand, -⟩
  · exact h
  · exact h.carryOut hrest hcommand

theorem Reached.wellMarked (h : Reached settings s) : s.WellMarked := by
  induction h with
  | new => exact List.forall_mem_nil _
  | line h hend ih => exact ih.handle h.atRest hend

/-- **Whatever a session reads carries marks only where they are needed.** -/
theorem Reached.wellMarked_of_read (h : Reached settings s) {text : Text} {e : Expression Float}
    (hread : Expression.read s.bindings text = .ok e) : ∀ r ∈ e.references, r.WellMarked :=
  e.forall_references_of_read h.wellMarked.offers hread

end Session

end TermEmbedding
