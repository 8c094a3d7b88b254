import Mathlib.LinearAlgebra.Matrix.Adjugate
import TermEmbedding.Proofs.Linear.Exact

/-!
# Rational numbers

Systems of equations with rational numbers are solved exactly, with inverses that are computed from
determinants. The pseudo-inverse of a matrix with independent columns is computed from the inverse
of the product of its transpose and itself. Roots need not be rational, so no matrix is given one,
and columns are orthonormal only if they already are.
-/

namespace TermEmbedding

open Matrix

namespace Tensor

variable {K : Type} [Zero K] {m n : Nat}

/-- The array of a matrix. -/
def ofMatrix (a : Matrix (Fin m) (Fin n) K) : Tensor K :=
  tabulate [m, n] fun
    | [i, j] => if h : i < m ∧ j < n then a ⟨i, h.1⟩ ⟨j, h.2⟩ else 0
    | _ => 0

@[simp] theorem shape_ofMatrix (a : Matrix (Fin m) (Fin n) K) : (ofMatrix a).shape = [m, n] := rfl

@[simp] theorem toMatrix_ofMatrix (a : Matrix (Fin m) (Fin n) K) :
    (ofMatrix a).toMatrix m n = a := by
  ext i j
  rw [toMatrix_apply, ofMatrix, get_tabulate (isIndexOf_matrix i.isLt j.isLt)]
  exact dif_pos ⟨i.isLt, j.isLt⟩

end Tensor

/-! ## Inverses -/

section

variable {K : Type} [Field K] [DecidableEq K] {n : Nat} {a b : Matrix (Fin n) (Fin n) K}

def inverse? (a : Matrix (Fin n) (Fin n) K) : Option (Matrix (Fin n) (Fin n) K) :=
  if a.det = 0 then none else some (a.det⁻¹ • a.adjugate)

private theorem mul_eq_one_of_inverse? (h : inverse? a = some b) : a * b = 1 := by
  by_cases hdet : a.det = 0
  · rw [inverse?, if_pos hdet] at h
    cases h
  · rw [inverse?, if_neg hdet] at h
    cases h
    rw [Matrix.mul_smul, mul_adjugate, smul_smul, inv_mul_cancel₀ hdet, one_smul]

private theorem exists_inverse? (h : IsUnit a) : ∃ b, inverse? a = some b := by
  have hdet : a.det ≠ 0 := ((isUnit_iff_isUnit_det a).mp h).ne_zero
  exact ⟨_, if_neg hdet⟩

end

/-! ## Routines -/

def Rational.inverse (t : Tensor ℚ) : Except LinearError (Tensor ℚ) :=
  match t.shape with
  | [m, n] =>
    if m = n then
      match inverse? (t.toMatrix n n) with
      | some b => return .ofMatrix b
      | none => throw .degenerate
    else throw .degenerate
  | _ => throw .degenerate

def Rational.solve (t u : Tensor ℚ) : Except LinearError (Tensor ℚ) :=
  match u.shape with
  | [n, k] =>
    if t.shape = [n, n] then
      match inverse? (t.toMatrix n n) with
      | some b => return .ofMatrix (b * u.toMatrix n k)
      | none => throw .degenerate
    else throw .shape
  | _ => throw .shape

/-- The pseudo-inverse of a matrix with independent columns. -/
def Rational.pseudoInverse (t : Tensor ℚ) : Except LinearError (Tensor ℚ) :=
  match t.shape with
  | [m, n] =>
    match inverse? ((t.toMatrix m n)ᵀ * t.toMatrix m n) with
    | some b => return .ofMatrix (b * (t.toMatrix m n)ᵀ)
    | none => throw .degenerate
  | _ => throw .degenerate

/-- A matrix with orthonormal columns. -/
def Rational.orthonormal (t : Tensor ℚ) : Except LinearError (Tensor ℚ) :=
  match t.shape with
  | [m, n] => if (t.toMatrix m n)ᵀ * t.toMatrix m n = 1 then return t else throw .degenerate
  | _ => throw .degenerate

instance instRoutinesRat : Routines ℚ where
  inverse := Rational.inverse
  lowerRoot _ := throw .indefinite
  solve := Rational.solve
  pseudoInverse := Rational.pseudoInverse
  orthonormal := Rational.orthonormal

instance instNumbersRat : Numbers ℚ where
  noiseVariance := 1 / 10
  initialScale := 1 / 10

namespace Rational

variable {t u r : Tensor ℚ} {m n k : Nat}

private theorem shape_of_inverse (h : inverse t = .ok r) : r.shape = t.shape := by
  rw [inverse] at h
  split at h
  · rename_i m n hshape
    split_ifs at h with hmn
    · subst hmn
      split at h
      · cases h
        exact hshape.symm
      · cases h
  · cases h

private theorem shape_of_solve (hu : u.shape = [n, k]) (h : solve t u = .ok r) :
    r.shape = [n, k] := by
  rw [solve, hu] at h
  dsimp only at h
  split_ifs at h
  · split at h
    · cases h
      rfl
    · cases h

theorem exists_inverse (ht : t.shape = [n, n]) (hunit : IsUnit (t.toMatrix n n)) :
    ∃ b, inverse t = .ok b ∧ b.shape = [n, n] ∧ t.toMatrix n n * b.toMatrix n n = 1 := by
  obtain ⟨b, hb⟩ := exists_inverse? hunit
  refine ⟨.ofMatrix b, ?_, Tensor.shape_ofMatrix _, ?_⟩
  · rw [inverse, ht]
    dsimp only
    rw [if_pos rfl, hb]
    rfl
  · rw [Tensor.toMatrix_ofMatrix, mul_eq_one_of_inverse? hb]

theorem exists_solve (ht : t.shape = [n, n]) (hu : u.shape = [n, k])
    (hunit : IsUnit (t.toMatrix n n)) : ∃ x, solve t u = .ok x ∧ x.shape = [n, k] ∧
      t.toMatrix n n * x.toMatrix n k = u.toMatrix n k := by
  obtain ⟨b, hb⟩ := exists_inverse? hunit
  refine ⟨.ofMatrix (b * u.toMatrix n k), ?_, Tensor.shape_ofMatrix _, ?_⟩
  · rw [solve, hu]
    dsimp only
    rw [if_pos ht, hb]
    rfl
  · rw [Tensor.toMatrix_ofMatrix, ← Matrix.mul_assoc, mul_eq_one_of_inverse? hb, Matrix.one_mul]

private theorem exists_of_pseudoInverse (ht : t.shape = [m, n]) (h : pseudoInverse t = .ok r) :
    ∃ b, inverse? ((t.toMatrix m n)ᵀ * t.toMatrix m n) = some b ∧
      r = .ofMatrix (b * (t.toMatrix m n)ᵀ) := by
  rw [pseudoInverse, ht] at h
  dsimp only at h
  split at h
  · rename_i b hb
    cases h
    exact ⟨b, hb, rfl⟩
  · cases h

/-- **A pseudo-inverse that is found is a left inverse.** -/
theorem toMatrix_pseudoInverse_mul (ht : t.shape = [m, n]) (h : pseudoInverse t = .ok r) :
    r.toMatrix n m * t.toMatrix m n = 1 := by
  obtain ⟨b, hb, rfl⟩ := exists_of_pseudoInverse ht h
  rw [Tensor.toMatrix_ofMatrix, Matrix.mul_assoc]
  exact mul_eq_one_comm.mp (mul_eq_one_of_inverse? hb)

private theorem eq_of_orthonormal (h : orthonormal t = .ok r) : r = t := by
  rw [orthonormal] at h
  split at h
  · split_ifs at h
    · cases h
      rfl
  · cases h

end Rational

instance : Routines.Shaped ℚ where
  inverse := Rational.shape_of_inverse
  lowerRoot h := by cases h
  solve _ hb h := Rational.shape_of_solve hb h
  pseudoInverse ha h := by
    obtain ⟨b, -, rfl⟩ := Rational.exists_of_pseudoInverse ha h
    rfl
  orthonormal ha h := by rw [Rational.eq_of_orthonormal h, ha]

instance : Routines.Exact ℚ where
  solve := Rational.exists_solve

instance : Numbers.Exact ℚ where
  noiseVariance := rfl

instance instReflBEqRat : ReflBEq ℚ where
  rfl := decide_eq_true rfl

end TermEmbedding
