import TermEmbedding.Proofs.Model.Growth
import TermEmbedding.Proofs.Model.Provenance

/-!
# Models that were added to

An evaluation only adds to a model, whether it answers or fails. What it adds follows from the rows
that the table of results has gained, and so does the number of terms that it brings into being.

Terms are listed type by type, while their rows are in one table. A term is listed and has its row
in the same step, so the lists of all types together are as long as there are rows of terms. This is
so in every model that can be reached, and what is added on the way from one to another is the
difference.
-/

namespace TermEmbedding

/-- A sum over the rows of a table after an insertion. The row that was there does not count any
more. -/
private theorem Table.sum_insert {κ α : Type} [BEq κ] (weight : α → Nat) (table : Table κ α)
    (key : κ) (a : α) :
    ((table.insert key a).map fun row ↦ weight row.2).sum +
      ((table.get? key).map weight).getD 0 = (table.map fun row ↦ weight row.2).sum + weight a := by
  induction table with
  | nil => simp [insert, get?]
  | cons row rest ih =>
    obtain ⟨k, b⟩ := row
    rw [insert, get?]
    split
    · simp only [List.map_cons, List.sum_cons, Option.map_some, Option.getD_some]
      omega
    · simp only [List.map_cons, List.sum_cons]
      omega

variable {K : Type}

namespace Model

/-- The number of terms that are listed, of all types together. -/
def listedTerms (origins : Table TypeId (List (Application K))) : Nat :=
  (origins.map fun row ↦ row.2.length).sum

/-- The number of rows whose results are terms. -/
def termRows (rows : Table (Application K) (TermReference K)) : Nat :=
  rows.countP fun row ↦ row.2.pointer?.isSome

private theorem termRows_append (rows others : Table (Application K) (TermReference K)) :
    termRows (rows ++ others) = termRows rows + termRows others := List.countP_append

theorem listedTerms_install (m : Model K) (t : TypeId) (a : Application K)
    (belief : Embedding K) :
    listedTerms (m.install t a belief).origins = listedTerms m.origins + 1 := by
  have hsum := Table.sum_insert List.length m.origins t (m.originsOf t ++ [a])
  have hold : (((m.origins.get? t).map List.length).getD 0) = (m.originsOf t).length := by
    rw [originsOf]
    cases m.origins.get? t <;> rfl
  rw [hold, List.length_append, List.length_singleton] at hsum
  change (List.map _ (m.origins.insert t (m.originsOf t ++ [a]))).sum = _
  rw [listedTerms]
  omega

/-- **A step lists a term exactly if it adds a row of one.** -/
theorem Step.listedTerms_eq [Zero K] [One K] [Add K] [Mul K] [Numbers K] {c : Context}
    {m m' : Model K} {a : Application K} {r : Except (Failure K) (TermReference K)}
    (hstep : Step c m a (r, m')) (h : listedTerms m.origins = termRows m.results) :
    listedTerms m'.origins = termRows m'.results := by
  cases hstep with
  | known => exact h
  | refused => exact h
  | vector =>
    rw [record, termRows_append]
    exact h
  | @function t v w space mean _ _ _ _ _ _ haxes =>
    rw [record, termRows_append]
    exact (listedTerms_install m t a (.prior mean haxes)).trans (congrArg (· + 1) h)

section

variable {source : NoiseSource Float} {c : Context} {m m' : Model Float}

private theorem listedTerms_unmarked (m : Model Float) :
    listedTerms m.unmarked.origins = listedTerms m.origins := by
  simp [listedTerms, unmarked, Function.comp_def]

private theorem termRows_unmarked (m : Model Float) :
    termRows m.unmarked.results = termRows m.results := by
  have hpointer : ∀ r : TermReference Float, r.unmarked.pointer? = r.pointer? := by
    rintro (p | ⟨t, xs, o⟩) <;> rfl
  simp [termRows, unmarked, List.countP_map, Function.comp_def, hpointer]

/-- **There are as many terms as rows of terms** in every model that can be reached. -/
theorem ReachableBy.listedTerms_eq [Routines Float] [Routines.Shaped Float]
    {allowed : Action → Prop} (h : ReachableBy allowed source c m) :
    listedTerms m.origins = termRows m.results := by
  refine h.of_steps (P := fun results origins ↦ listedTerms origins = termRows results) rfl
    (fun _ hcount hstep ↦ hstep.listedTerms_eq hcount) ?_
  intro m hcount
  rw [listedTerms_unmarked, hcount, termRows_unmarked]

/-- **An evaluation only adds to a model**, whether it answers or fails. The rows of results stay,
in their order, and others come behind them. The applications of the new rows are those that are
pending in addition, in the same order; those of them that have terms for results are listed behind
the old ones of the types of their results, and there is one new term for each. Beliefs about terms
that were known are what they were, and neither the matrices of the types nor the state of the
source of noise has changed. -/
theorem evaluate_only_adds [Routines Float] [Routines.Shaped Float] (h : Reachable source c m)
    {e : Expression Float} {answer : Except (Failure Float) (TermReference Float)}
    (hrun : (e.evaluate c).run m = (answer, m')) :
    ∃ rows, m'.results = m.results ++ rows ∧ m'.pending = m.pending ++ rows.map (·.1) ∧
      (∀ t, m'.originsOf t = m.originsOf t ++ originsAmong t rows) ∧
      listedTerms m'.origins = listedTerms m.origins + termRows rows ∧
      (∀ p b, m.embeddings.get? p = some b → m'.embeddings.get? p = some b) ∧
      m'.elaborators = m.elaborators ∧ m'.noise = m.noise := by
  obtain rfl : ((e.evaluate c).run m).2 = m' := congrArg Prod.snd hrun
  have h' : Reachable source c ((e.evaluate c).run m).2 :=
    ReachableBy.act (a := .evaluateExpression e) h trivial
  obtain ⟨rows, hrows⟩ := h.consistent.gains_evaluate e
  refine ⟨rows, hrows.results, hrows.pending, hrows.origins, ?_, fun p b hb ↦ ?_,
    hrows.elaborators, hrows.noise⟩
  · rw [h'.listedTerms_eq, h.listedTerms_eq, hrows.results, termRows_append]
  · obtain ⟨beliefs, hbeliefs, -⟩ := hrows.embeddings
    exact Table.get?_of_isPrefix ⟨beliefs, hbeliefs.symm⟩ hb

/-- The declared function of three numbers, which is applied to two of them and then to itself. -/
def curriedMisapplied : Expression Float :=
  .application (.application (.application (.term ⟨3, .primitive 0⟩)
    (.reference (.vector 0 [1.0] .anywhere))) (.reference (.vector 0 [2.0] .anywhere)))
    (.reference (.function ⟨3, .primitive 0⟩))

/-- An evaluation that fails at its last application has listed the terms of the two before it. -/
theorem evaluate_only_adds_misapplied : ∃ m m' f, Reachable (.tape #[20.0]) .curried m ∧
    (curriedMisapplied.evaluate .curried).run m = (.error f, m') ∧
    m'.pending = m.pending ++ curriedResults.map (·.1) ∧
    listedTerms m'.origins = listedTerms m.origins + 2 := by
  have hfacts : (Model.fresh (.tape #[20.0]) .curried .unspecified).toOption.map (fun m ↦
      (m.results, ((curriedMisapplied.evaluate .curried).run m).1.toOption,
        ((curriedMisapplied.evaluate .curried).run m).2.results)) =
      some ([], none, curriedResults) := by
    decide +kernel
  obtain ⟨m, hfresh, hfacts⟩ := exists_of_map_toOption_eq_some hfacts
  obtain ⟨hnone, hfails, hresults⟩ : m.results = [] ∧
      ((curriedMisapplied.evaluate .curried).run m).1.toOption = none ∧
      ((curriedMisapplied.evaluate .curried).run m).2.results = curriedResults := by
    simpa using hfacts
  rcases hrun : (curriedMisapplied.evaluate .curried).run m with ⟨f | r, m'⟩
  · rw [hrun] at hresults
    obtain ⟨rows, hrows, hpending, -, hlisted, -⟩ := evaluate_only_adds (.fresh hfresh) hrun
    obtain rfl : curriedResults = rows := by
      rw [← hresults, hrows, hnone, List.nil_append]
    exact ⟨m, m', f, .fresh hfresh, hrun, hpending, hlisted⟩
  · rw [hrun] at hfails
    cases hfails

end

end Model

end TermEmbedding
