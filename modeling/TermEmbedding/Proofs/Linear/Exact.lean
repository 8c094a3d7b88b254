import Mathlib.Algebra.Order.Field.Basic
import Mathlib.LinearAlgebra.Matrix.DotProduct
import Mathlib.LinearAlgebra.Matrix.NonsingularInverse
import Mathlib.Tactic.Linarith
import TermEmbedding.Proofs.Linear.Matrices
import TermEmbedding.Proofs.Model.Update

/-!
# Exact arithmetic

The numbers of a field can be read as exact: a system of equations with an invertible matrix is then
solved by its solution. A belief is a linear regression, and over an ordered field its precision is
always invertible, being an identity matrix plus squares. A belief that is updated with its own
predictions keeps its mean: the equations that the new mean solves are solved by the old one.
-/

namespace TermEmbedding

variable {K : Type} [Field K]

/-- Routines that are exact as far as updates need them: a system with an invertible matrix has its
solution for an answer. -/
class Routines.Exact (K : Type) [Field K] [Routines K] : Prop where
  solve {a b : Tensor K} {n k : Nat} : a.shape = [n, n] → b.shape = [n, k] →
    IsUnit (a.toMatrix n n) → ∃ x, Routines.solve a b = .ok x ∧ x.shape = [n, k] ∧
      a.toMatrix n n * x.toMatrix n k = b.toMatrix n k

/-- Numbers with exact routines and the constants that the program has. -/
class Numbers.Exact (K : Type) [Field K] [Numbers K] : Prop extends Routines.Exact K where
  noiseVariance : (Numbers.noiseVariance : K) = 1 / 10

/-! ## Sums of squares -/

open Matrix

/-- The sum of the squares of vectors, each of them a matrix. -/
def squares {n : Nat} (vs : List (Fin n → K)) : Matrix (Fin n) (Fin n) K :=
  (vs.map fun v ↦ vecMulVec v v).sum

@[simp] theorem squares_nil {n : Nat} : squares ([] : List (Fin n → K)) = 0 := rfl

theorem squares_cons {n : Nat} (v : Fin n → K) (vs : List (Fin n → K)) :
    squares (v :: vs) = vecMulVec v v + squares vs := by
  rw [squares, List.map_cons, List.sum_cons, squares]

theorem squares_append {n : Nat} (vs ws : List (Fin n → K)) :
    squares (vs ++ ws) = squares vs + squares ws := by
  rw [squares, List.map_append, List.sum_append, squares, squares]

theorem squares_perm {n : Nat} {vs ws : List (Fin n → K)} (h : vs.Perm ws) :
    squares vs = squares ws :=
  (h.map fun v ↦ vecMulVec v v).sum_eq

private theorem transpose_squares {n : Nat} (vs : List (Fin n → K)) :
    (squares vs)ᵀ = squares vs := by
  induction vs with
  | nil => exact transpose_zero
  | cons v vs ih => rw [squares_cons, transpose_add, ih, transpose_vecMulVec]

theorem transpose_mul_self {n : Nat} (vs : List (Fin n → K)) :
    (Matrix.of fun i : Fin vs.length ↦ vs[i])ᵀ * Matrix.of (fun i : Fin vs.length ↦ vs[i]) =
      squares vs := by
  ext i j
  rw [squares, ← Fin.sum_univ_fun_getElem vs fun v ↦ vecMulVec v v, Matrix.sum_apply]
  rfl

section

variable [LinearOrder K] [IsStrictOrderedRing K] {n : Nat}

private theorem dotProduct_squares_nonneg (vs : List (Fin n → K)) (x : Fin n → K) :
    0 ≤ x ⬝ᵥ (squares vs *ᵥ x) := by
  induction vs with
  | nil => simp
  | cons v vs ih =>
    have hsquare : x ⬝ᵥ (vecMulVec v v *ᵥ x) = (v ⬝ᵥ x) * (v ⬝ᵥ x) := by
      rw [vecMulVec_mulVec, dotProduct_smul, dotProduct_comm x v]
      rfl
    rw [squares_cons, add_mulVec, dotProduct_add, hsquare]
    exact add_nonneg (mul_self_nonneg _) ih

/-- **An identity matrix plus squares is invertible.** -/
theorem isUnit_one_add_squares {s : K} (hs : 0 ≤ s) (vs : List (Fin n → K)) :
    IsUnit (1 + s • squares vs) := by
  rw [← mulVec_injective_iff_isUnit]
  -- what is mapped to zero has the length zero
  refine (injective_iff_map_eq_zero (1 + s • squares vs).mulVecLin).mpr fun x hx ↦ ?_
  have hzero : x ⬝ᵥ x + s * (x ⬝ᵥ (squares vs *ᵥ x)) = 0 := by
    rw [mulVecLin_apply] at hx
    have := congrArg (x ⬝ᵥ ·) hx
    simpa [add_mulVec, smul_mulVec, dotProduct_add] using this
  have hself : 0 ≤ x ⬝ᵥ x := Finset.sum_nonneg fun i _ ↦ mul_self_nonneg (x i)
  have hrest := mul_nonneg hs (dotProduct_squares_nonneg vs x)
  exact dotProduct_self_eq_zero.mp (le_antisymm (by linarith) hself)

end

/-! ## Updates with the own predictions -/

private theorem map_div_eq_smul {m n : Nat} (s : K) (a : Matrix (Fin m) (Fin n) K) :
    a.map (· / s) = s⁻¹ • a := by
  ext i j
  exact div_eq_inv_mul _ _

/-- An update as a linear regression: the equations that the new mean solves. -/
theorem Embedding.Fits.exists_update_toMatrix [Routines K] {e : Embedding K} {n k l : Nat}
    (h : e.Fits ⟨k, n⟩) {features targets : Tensor K} (hfeatures : features.shape = [l, n])
    (htargets : targets.shape = [l, k]) (s : K) :
    ∃ precision right, precision.shape = [n, n] ∧ right.shape = [n, k] ∧
      e.update features targets s =
        Routines.solve precision right >>= (fun x ↦ pure ⟨x.transpose, precision⟩) ∧
      precision.toMatrix n n = e.precision.toMatrix n n +
        s⁻¹ • ((features.toMatrix l n)ᵀ * features.toMatrix l n) ∧
      right.toMatrix n k = (e.mean.toMatrix k n * e.precision.toMatrix n n +
        s⁻¹ • ((targets.toMatrix l k)ᵀ * features.toMatrix l n))ᵀ := by
  have hmean : e.mean.shape = [k, n] := h.mean
  have hprecision : e.precision.shape = [n, n] := h.precision
  have hfeatures' : features.transpose.shape = [n, l] := by
    rw [Tensor.shape_transpose, hfeatures]
    rfl
  have htargets' : targets.transpose.shape = [k, l] := by
    rw [Tensor.shape_transpose, htargets]
    rfl
  obtain ⟨gram, hgram, hgramshape⟩ := Tensor.matmul_matrix hfeatures' hfeatures
  obtain ⟨precision, hnew, hnewshape⟩ := Tensor.add_of_shape (a := e.precision)
    (b := gram.map (· / s)) (hprecision.trans hgramshape.symm)
  obtain ⟨weighted, hweighted, hweightedshape⟩ := Tensor.matmul_matrix hmean hprecision
  obtain ⟨observed, hobserved, hobservedshape⟩ := Tensor.matmul_matrix htargets' hfeatures
  obtain ⟨right, hright, hrightshape⟩ := Tensor.add_of_shape (a := weighted)
    (b := observed.map (· / s)) (hweightedshape.trans hobservedshape.symm)
  rw [hweightedshape] at hrightshape
  refine ⟨precision, right.transpose, hnewshape.trans hprecision, ?_, ?_, ?_, ?_⟩
  · rw [Tensor.shape_transpose, hrightshape]
    rfl
  · rw [Embedding.update, bind_ok hgram, bind_ok hnew, bind_ok hweighted, bind_ok hobserved,
      bind_ok hright]
  · rw [Tensor.toMatrix_add (b := gram.map _) hprecision hgramshape hnew,
      Tensor.toMatrix_map hgramshape, map_div_eq_smul,
      Tensor.toMatrix_matmul hfeatures' hfeatures hgram, Tensor.toMatrix_transpose hfeatures]
  · rw [Tensor.toMatrix_transpose hrightshape,
      Tensor.toMatrix_add (b := observed.map _) hweightedshape hobservedshape hright,
      Tensor.toMatrix_matmul hmean hprecision hweighted, Tensor.toMatrix_map hobservedshape,
      map_div_eq_smul, Tensor.toMatrix_matmul htargets' hfeatures hobserved,
      Tensor.toMatrix_transpose htargets]

variable [LinearOrder K] [IsStrictOrderedRing K] [Numbers K] [Numbers.Exact K]

/-- **A belief that is updated with its own predictions keeps its mean**, and its precision grows by
the squares of the features. Such an update always succeeds. -/
theorem Embedding.Fits.exists_update_eq {e : Embedding K} {n k : Nat} (h : e.Fits ⟨k, n⟩)
    {vs ws : List (Fin n → K)}
    (hprecision : e.precision.toMatrix n n = 1 + (Numbers.noiseVariance : K)⁻¹ • squares vs)
    {features targets : Tensor K} (hfeatures : features.shape = [ws.length, n])
    (htargets : targets.shape = [ws.length, k])
    (hrows : features.toMatrix ws.length n = .of fun i ↦ ws[i])
    (hpredicted : targets.toMatrix ws.length k =
      features.toMatrix ws.length n * (e.mean.toMatrix k n)ᵀ) :
    ∃ e', e.update features targets Numbers.noiseVariance = .ok e' ∧ e'.Fits ⟨k, n⟩ ∧
      e'.mean = e.mean ∧ e'.precision.toMatrix n n =
        1 + (Numbers.noiseVariance : K)⁻¹ • squares (vs ++ ws) := by
  obtain ⟨precision, right, hshape, hrightshape, hupdate, hsum, hright⟩ :=
    h.exists_update_toMatrix hfeatures htargets Numbers.noiseVariance
  -- the new precision is symmetric and invertible
  have hgrown : precision.toMatrix n n =
      1 + (Numbers.noiseVariance : K)⁻¹ • squares (vs ++ ws) := by
    rw [hsum, hprecision, hrows, transpose_mul_self, squares_append, smul_add, add_assoc]
  have hsymmetric : (precision.toMatrix n n)ᵀ = precision.toMatrix n n := by
    rw [hgrown, transpose_add, transpose_one, transpose_smul, transpose_squares]
  have hunit : IsUnit (precision.toMatrix n n) := by
    rw [hgrown]
    refine isUnit_one_add_squares (inv_nonneg.mpr ?_) _
    rw [Numbers.Exact.noiseVariance]
    positivity
  -- the old mean solves the equations
  have hequation : right.toMatrix n k = precision.toMatrix n n * (e.mean.toMatrix k n)ᵀ := by
    have hproduct : e.mean.toMatrix k n * e.precision.toMatrix n n +
        (Numbers.noiseVariance : K)⁻¹ • ((targets.toMatrix ws.length k)ᵀ *
          features.toMatrix ws.length n) = e.mean.toMatrix k n * precision.toMatrix n n := by
      rw [hpredicted, transpose_mul, transpose_transpose, hsum, Matrix.mul_add, Matrix.mul_smul,
        Matrix.mul_assoc]
    rw [hright, hproduct, transpose_mul, hsymmetric]
  obtain ⟨x, hx, hxshape, hsolved⟩ := Routines.Exact.solve hshape hrightshape hunit
  have hsame : x.toMatrix n k = (e.mean.toMatrix k n)ᵀ := by
    have hdet := (isUnit_iff_isUnit_det _).mp hunit
    rw [← nonsing_inv_mul_cancel_left _ (x.toMatrix n k) hdet, hsolved, hequation,
      nonsing_inv_mul_cancel_left _ _ hdet]
  have hkept : x.transpose = e.mean := by
    refine Tensor.eq_of_toMatrix_eq (m := k) (n := n) (by rw [Tensor.shape_transpose, hxshape]; rfl)
      h.mean ?_
    rw [Tensor.toMatrix_transpose hxshape, hsame, transpose_transpose]
  refine ⟨⟨x.transpose, precision⟩, ?_, ⟨hkept ▸ h.mean, hshape⟩, hkept, hgrown⟩
  rw [hupdate, bind_ok hx]
  rfl

end TermEmbedding
