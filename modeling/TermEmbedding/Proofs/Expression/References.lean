import TermEmbedding.Proofs.Expression.Grammar
import TermEmbedding.Proofs.Model.Agreement

/-!
# References that are read

An expression that is read has references of three kinds: terms, vectors that are written out, and
what names are bound to. Whatever holds of all these holds of every reference in an expression.
-/

namespace TermEmbedding

/-- Whether something holds of every reference that can be read: of terms, of vectors that are
written out, and of what names are bound to. -/
structure Bindings.Offers {K : Type} (bindings : Bindings K) (P : TermReference K → Prop) :
    Prop where
  bound : ∀ row ∈ bindings, P row.2
  function : ∀ p, P (.function p)
  literal : ∀ t xs, P (.vector t xs .anywhere)

variable {bindings : Bindings Float} {P : TermReference Float → Prop}

/-! ## Applications -/

private theorem Callee.forall_references_applyAll {K : Type} {P : TermReference K → Prop}
    {f : Callee K} {x : Expression K} {xs : List (Expression K)} (hf : ∀ r ∈ f.references, P r)
    (hx : ∀ r ∈ x.references, P r) (hxs : ∀ y ∈ xs, ∀ r ∈ y.references, P r) :
    ∀ r ∈ (f.applyAll x xs).references, P r := by
  induction xs generalizing f x with
  | nil => exact List.forall_mem_append.mpr ⟨hf, hx⟩
  | cons y ys ih =>
    rw [List.forall_mem_cons] at hxs
    exact ih (List.forall_mem_append.mpr ⟨hf, hx⟩) hxs.1 hxs.2

/-! ## Atoms -/

section

variable {c rest : Text} {r : TermReference Float}

theorem IsReference.of_offers (hP : bindings.Offers P) (h : IsReference c rest r) : P r := by
  cases h with
  | vector => exact hP.literal _ _
  | function => exact hP.function _

theorem IsIdentifier.of_offers (hP : bindings.Offers P) (h : IsIdentifier bindings c rest r) :
    P r := by
  obtain ⟨name, hmem, -⟩ := Table.exists_mem_of_get? h.bound
  exact hP.bound _ hmem

end

mutual

theorem IsAtom.forall_references (hP : bindings.Offers P) {c rest : Text} {e : Expression Float} :
    IsAtom bindings c rest e → ∀ r ∈ e.references, P r
  | .application h => h.forall_references hP
  | .reference h => List.forall_mem_singleton.mpr (h.of_offers hP)
  | .identifier _ h => List.forall_mem_singleton.mpr (h.of_offers hP)

theorem IsApplication.forall_references (hP : bindings.Offers P) {c rest : Text}
    {e : Expression Float} : IsApplication bindings c rest e → ∀ r ∈ e.references, P r
  | .intro h => by
    have hparts := h.forall_references hP
    rw [List.forall_mem_cons, List.forall_mem_cons] at hparts
    obtain ⟨hf, hx, hothers⟩ := hparts
    rw [← Expression.references_of_callee? (callee?_eq_some_iff.mpr rfl)] at hf
    exact Callee.forall_references_applyAll hf hx hothers

theorem AreParts.forall_references (hP : bindings.Offers P) {c rest : Text}
    {parts : List (Expression Float)} :
    AreParts bindings c rest parts → ∀ y ∈ parts, ∀ r ∈ y.references, P r
  | .close _ => List.forall_mem_nil _
  | .atom _ hatom hothers =>
    List.forall_mem_cons.mpr ⟨hatom.forall_references hP, hothers.forall_references hP⟩

end

/-- **What holds of everything that can be read holds of all references that are read.** -/
theorem Expression.forall_references_of_read (hP : bindings.Offers P) {text : Text}
    {e : Expression Float} (h : Expression.read bindings text = .ok e) :
    ∀ r ∈ e.references, P r := by
  obtain ⟨reading, hread, h⟩ := exists_of_bind_eq_ok h
  obtain ⟨c, -, hatom⟩ := reads_readAtom_iff.mp ⟨reading, hread, rfl, rfl⟩
  rw [complete] at h
  split at h
  · cases h
    exact hatom.forall_references hP
  · cases h

end TermEmbedding
