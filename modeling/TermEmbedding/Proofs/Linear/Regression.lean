import Mathlib.Algebra.Star.Rat
import Mathlib.Data.Rat.Star
import Mathlib.LinearAlgebra.Matrix.PosDef
import TermEmbedding.Proofs.Linear.Rational

/-!
# Regression in batches

A belief with rational numbers is proper if its precision is symmetric and positive definite. Every
update keeps it so, since observations add squares to the precision: no system of equations is
without a solution, and the covariance, which is the inverse of the precision, is positive definite
as well.

An update finds the new mean from the old one and both precisions, so means of different batches
cannot be compared step by step. What adds up is another pair, the precision and the product of the
mean and the precision. Each row of observations contributes its own evidence to this pair, and a
proper belief is determined by it. Hence it does not matter how rows are divided into batches, nor
in which order they come.
-/

namespace TermEmbedding

open Matrix

variable {k n : Nat}

/-! ## Observations -/

/-- Features of an argument and the value that was seen there. -/
abbrev Observation (k n : Nat) := (Fin n → ℚ) × (Fin k → ℚ)

/-- Observations as they are given to an update, row by row. -/
structure Observations (k n : Nat) where
  size : Nat
  features : Tensor ℚ
  targets : Tensor ℚ
  shape_features : features.shape = [size, n]
  shape_targets : targets.shape = [size, k]

namespace Observations

def rows (o : Observations k n) : List (Observation k n) :=
  List.ofFn fun i : Fin o.size ↦
    (o.features.toMatrix o.size n i, o.targets.toMatrix o.size k i)

def ofRows (rows : List (Observation k n)) : Observations k n where
  size := rows.length
  features := .ofMatrix (.of fun i : Fin rows.length ↦ rows[i].1)
  targets := .ofMatrix (.of fun i : Fin rows.length ↦ rows[i].2)
  shape_features := rfl
  shape_targets := rfl

@[simp] theorem rows_ofRows (rows : List (Observation k n)) : (ofRows rows).rows = rows := by
  rw [Observations.rows, ofRows]
  simp only [Tensor.toMatrix_ofMatrix]
  exact List.ofFn_getElem

end Observations

/-! ## Evidence -/

/-- What determines a proper belief: its precision, and the product of its mean and precision. -/
abbrev Evidence (k n : Nat) := Matrix (Fin n) (Fin n) ℚ × Matrix (Fin k) (Fin n) ℚ

/-- What rows of observations contribute. -/
def evidence (rows : List (Observation k n)) : Evidence k n :=
  (rows.map fun row ↦ (vecMulVec row.1 row.1, vecMulVec row.2 row.1)).sum

theorem evidence_append (rows others : List (Observation k n)) :
    evidence (rows ++ others) = evidence rows + evidence others := by
  rw [evidence, List.map_append, List.sum_append, ← evidence, ← evidence]

theorem evidence_perm {rows others : List (Observation k n)} (h : rows.Perm others) :
    evidence rows = evidence others :=
  (h.map _).sum_eq

theorem evidence_rows (o : Observations k n) :
    evidence o.rows =
      ((o.features.toMatrix o.size n)ᵀ * o.features.toMatrix o.size n,
        (o.targets.toMatrix o.size k)ᵀ * o.features.toMatrix o.size n) := by
  rw [evidence, Observations.rows, List.map_ofFn, List.sum_ofFn]
  refine Prod.ext ?_ ?_
  · rw [Prod.fst_sum]
    ext i j
    rw [Matrix.sum_apply]
    rfl
  · rw [Prod.snd_sum]
    ext i j
    rw [Matrix.sum_apply]
    rfl

/-! ## Beliefs -/

namespace Embedding

variable {e e' : Embedding ℚ} {s : ℚ}

/-- A belief whose precision is symmetric and positive definite. -/
structure IsProper (e : Embedding ℚ) (k n : Nat) : Prop where
  fits : e.Fits ⟨k, n⟩
  posDef : (e.precision.toMatrix n n).PosDef

/-- The evidence that a belief stands for. -/
def evidence (e : Embedding ℚ) (k n : Nat) : Evidence k n :=
  (e.precision.toMatrix n n, e.mean.toMatrix k n * e.precision.toMatrix n n)

theorem isProper_prior {mean : Tensor ℚ} (haxes : 1 < mean.shape.length)
    (h : mean.shape = [k, n]) : (prior mean haxes).IsProper k n := by
  have hprecision : (prior mean haxes).precision = .identity n := by simp only [prior, h]; rfl
  refine ⟨⟨h, by rw [hprecision]; rfl⟩, ?_⟩
  rw [hprecision, Tensor.toMatrix_identity]
  exact .one

private theorem IsProper.transpose_precision (h : e.IsProper k n) :
    (e.precision.toMatrix n n)ᵀ = e.precision.toMatrix n n := by
  rw [← conjTranspose_eq_transpose_of_trivial]
  exact h.posDef.isHermitian

/-- A proper belief is determined by its evidence. -/
theorem IsProper.eq_of_evidence (h : e.IsProper k n) (h' : e'.IsProper k n)
    (heq : e.evidence k n = e'.evidence k n) : e = e' := by
  obtain ⟨hprecision, hproduct⟩ := Prod.mk.inj heq
  have hdet := (isUnit_iff_isUnit_det _).mp h.posDef.isUnit
  have hmean : e.mean.toMatrix k n = e'.mean.toMatrix k n := by
    rw [← mul_nonsing_inv_cancel_right _ (e.mean.toMatrix k n) hdet, hproduct, ← hprecision,
      mul_nonsing_inv_cancel_right _ _ hdet]
  have hmeans := Tensor.eq_of_toMatrix_eq h.fits.mean h'.fits.mean hmean
  have hprecisions := Tensor.eq_of_toMatrix_eq h.fits.precision h'.fits.precision hprecision
  obtain ⟨mean, precision⟩ := e
  obtain ⟨mean', precision'⟩ := e'
  exact congrArg₂ Embedding.mk hmeans hprecisions

/-- **An update of a proper belief adds the evidence of the rows**, and leads to a proper belief. -/
theorem IsProper.exists_update (h : e.IsProper k n) (hs : 0 < s) (o : Observations k n) :
    ∃ e', e.update o.features o.targets s = .ok e' ∧ e'.IsProper k n ∧
      e'.evidence k n = e.evidence k n + s⁻¹ • TermEmbedding.evidence o.rows := by
  obtain ⟨precision, right, hshape, hrightshape, hupdate, hprecision, hright⟩ :=
    h.fits.exists_update_toMatrix o.shape_features o.shape_targets s
  have hposDef : (precision.toMatrix n n).PosDef := by
    have hgram := posSemidef_conjTranspose_mul_self (o.features.toMatrix o.size n)
    rw [conjTranspose_eq_transpose_of_trivial] at hgram
    rw [hprecision]
    exact h.posDef.add_posSemidef (hgram.smul (inv_nonneg.mpr hs.le))
  obtain ⟨x, hx, hxshape, hsolved⟩ := Routines.Exact.solve hshape hrightshape hposDef.isUnit
  have hproper : IsProper ⟨x.transpose, precision⟩ k n := by
    refine ⟨⟨?_, hshape⟩, hposDef⟩
    rw [Tensor.shape_transpose, hxshape]
    rfl
  -- the equations that the new mean solves are those of the sum of the evidence
  have hproduct : x.transpose.toMatrix k n * precision.toMatrix n n =
      e.mean.toMatrix k n * e.precision.toMatrix n n +
        s⁻¹ • ((o.targets.toMatrix o.size k)ᵀ * o.features.toMatrix o.size n) := by
    rw [Tensor.toMatrix_transpose hxshape, ← hproper.transpose_precision, ← transpose_mul, hsolved,
      hright, transpose_transpose]
  refine ⟨⟨x.transpose, precision⟩, ?_, hproper, ?_⟩
  · rw [hupdate, bind_ok hx]
    rfl
  · rw [evidence_rows]
    exact Prod.ext hprecision hproduct

/-! ## Sequences of updates -/

/-- The belief after batches of observations. -/
def updates (e : Embedding ℚ) (s : ℚ) (batches : List (Observations k n)) :
    Except LinearError (Embedding ℚ) :=
  batches.foldlM (fun e o ↦ e.update o.features o.targets s) e

theorem IsProper.exists_updates (h : e.IsProper k n) (hs : 0 < s)
    (batches : List (Observations k n)) :
    ∃ e', e.updates s batches = .ok e' ∧ e'.IsProper k n ∧
      e'.evidence k n =
        e.evidence k n + s⁻¹ • TermEmbedding.evidence (batches.flatMap Observations.rows) := by
  induction batches generalizing e with
  | nil =>
    refine ⟨e, rfl, h, ?_⟩
    rw [List.flatMap_nil, TermEmbedding.evidence, List.map_nil, List.sum_nil, smul_zero, add_zero]
  | cons o batches ih =>
    obtain ⟨e₁, hupdate, hproper, hevidence⟩ := h.exists_update hs o
    obtain ⟨e₂, hupdates, hproper', hevidence'⟩ := ih hproper
    refine ⟨e₂, ?_, hproper', ?_⟩
    · rw [updates, List.foldlM_cons, bind_ok hupdate]
      exact hupdates
    · rw [hevidence', hevidence, List.flatMap_cons, evidence_append, smul_add, add_assoc]

/-- Batches with the same rows in some order lead to the same belief. -/
theorem IsProper.updates_eq_of_perm (h : e.IsProper k n) (hs : 0 < s)
    {batches others : List (Observations k n)}
    (hrows : (others.flatMap Observations.rows).Perm (batches.flatMap Observations.rows)) :
    e.updates s others = e.updates s batches := by
  obtain ⟨e₁, he₁, hproper₁, hevidence₁⟩ := h.exists_updates hs batches
  obtain ⟨e₂, he₂, hproper₂, hevidence₂⟩ := h.exists_updates hs others
  rw [evidence_perm hrows, ← hevidence₁] at hevidence₂
  rw [he₁, he₂, hproper₂.eq_of_evidence hproper₁ hevidence₂]

theorem IsProper.exists_covariance (h : e.IsProper k n) :
    ∃ covariance, Routines.inverse e.precision = .ok covariance ∧ covariance.shape = [n, n] ∧
      (covariance.toMatrix n n).PosDef ∧
      e.precision.toMatrix n n * covariance.toMatrix n n = 1 := by
  obtain ⟨covariance, hinverse, hshape, hproduct⟩ :=
    Rational.exists_inverse h.fits.precision h.posDef.isUnit
  refine ⟨covariance, hinverse, hshape, ?_, hproduct⟩
  rw [← inv_eq_right_inv hproduct]
  exact h.posDef.inv

/-- **Updates of a proper belief succeed and depend on the rows only.** -/
theorem updates_of_rows {k n : Nat} {s : ℚ} (hs : 0 < s) :
    (∀ (mean : Tensor ℚ) (haxes : 1 < mean.shape.length), mean.shape = [k, n] →
      (prior mean haxes).IsProper k n) ∧
    ∀ e : Embedding ℚ, e.IsProper k n → ∀ batches : List (Observations k n),
      (∀ before, before <+: batches → ∃ e' covariance, e.updates s before = .ok e' ∧
        e'.IsProper k n ∧ Routines.inverse e'.precision = .ok covariance ∧
        covariance.shape = [n, n] ∧ (covariance.toMatrix n n).PosDef ∧
        e'.precision.toMatrix n n * covariance.toMatrix n n = 1) ∧
      (∀ all : Observations k n, all.rows = batches.flatMap Observations.rows →
        e.update all.features all.targets s = e.updates s batches) ∧
      ∀ others : List (Observations k n),
        (others.flatMap Observations.rows).Perm (batches.flatMap Observations.rows) →
        e.updates s others = e.updates s batches := by
  refine ⟨fun _ haxes hmean ↦ isProper_prior haxes hmean, fun e h batches ↦ ⟨?_, ?_, ?_⟩⟩
  · intro before _
    obtain ⟨e', hupdates, hproper, -⟩ := h.exists_updates hs before
    obtain ⟨covariance, hcovariance⟩ := hproper.exists_covariance
    exact ⟨e', covariance, hupdates, hproper, hcovariance⟩
  · intro all hall
    have hsingle : e.updates s [all] = e.update all.features all.targets s := bind_pure _
    rw [← hsingle]
    refine h.updates_eq_of_perm hs ?_
    rw [List.flatMap_singleton, hall]
  · exact fun others hrows ↦ h.updates_eq_of_perm hs hrows

/-- Two rows, one after the other and then at once in the other order. -/
theorem updates_of_rows_swapped :
    (prior (.ofMatrix (0 : Matrix (Fin 1) (Fin 2) ℚ)) Nat.one_lt_two).IsProper 1 2 ∧
      (prior (.ofMatrix (0 : Matrix (Fin 1) (Fin 2) ℚ)) Nat.one_lt_two).updates (1 / 10)
          [.ofRows [(![2, 1], ![5])], .ofRows [(![1, 1], ![3])]] =
        (prior (.ofMatrix (0 : Matrix (Fin 1) (Fin 2) ℚ)) Nat.one_lt_two).updates (1 / 10)
          [.ofRows [(![1, 1], ![3]), (![2, 1], ![5])]] := by
  have hs : (0 : ℚ) < 1 / 10 := by norm_num
  obtain ⟨hprior, h⟩ := updates_of_rows (k := 1) (n := 2) hs
  have hproper := hprior (.ofMatrix 0) Nat.one_lt_two rfl
  refine ⟨hproper, (h _ hproper _).2.2 _ ?_⟩
  simp only [List.flatMap_cons, List.flatMap_nil, Observations.rows_ofRows, List.append_nil]
  exact .swap _ _ []

end Embedding

end TermEmbedding
