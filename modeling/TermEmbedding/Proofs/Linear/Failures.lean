import TermEmbedding.Proofs.Exceptions
import TermEmbedding.Proofs.Linear.Shapes
import TermEmbedding.Proofs.Linear.Sizes

/-!
# How the routines of linear algebra fail

A routine may be given arrays that it does not apply to, and there are numbers that it cannot work
with. If the shapes of its operands fit, only the second can happen: a matrix has no inverse or no
root, or it has an entry that is no number.
-/

namespace TermEmbedding

/-- Numbers whose routines fail on operands of fitting shapes for one reason only. -/
class Routines.FailsByNumbers (K : Type) [Routines K] : Prop where
  inverse {a : Tensor K} {n : Nat} : a.shape = [n, n] →
    ErrorsOnly (· = .degenerate) (Routines.inverse a)
  lowerRoot {a : Tensor K} {n : Nat} : a.shape = [n, n] →
    ErrorsOnly (· = .indefinite) (Routines.lowerRoot a)
  solve {a b : Tensor K} {n k : Nat} : a.shape = [n, n] → b.shape = [n, k] →
    ErrorsOnly (· = .degenerate) (Routines.solve a b)
  pseudoInverse {a : Tensor K} {m n : Nat} : a.shape = [m, n] →
    ErrorsOnly (· = .degenerate) (Routines.pseudoInverse a)

namespace Tensor

private theorem places_nil : places [] = [[]] := rfl

variable {P : LinearError → Prop}

private theorem errorsOnly_ofMatrices {m n : Nat} {rows : List (List Float)}
    (h : IsMatrix m n rows) : ErrorsOnly P (ofMatrices [] m n [rows]) := by
  obtain ⟨t, ht⟩ := ofMatrices_singleton h
  rw [ht]
  exact errorsOnly_pure t

private theorem errorsOnly_onSquares {a : Tensor Float} {n : Nat} (ha : a.shape = [n, n])
    (error : LinearError) {routine : List (List Float) → Option (List (List Float))}
    (hroutine : ∀ {rows result}, IsMatrix n n rows → routine rows = some result →
      IsMatrix n n result) : ErrorsOnly (· = error) (a.onSquares error routine) := by
  rw [onSquares, ha, asStack?_matrix]
  dsimp only
  rw [if_pos rfl, places_nil, List.mapM_cons, List.mapM_nil]
  cases hresult : routine (a.matrixAt [] n n []) with
  | none => exact errorsOnly_error rfl
  | some result =>
    exact errorsOnly_ofMatrices (hroutine (a.isMatrix_matrixAt [] n n []) hresult)

private theorem errorsOnly_solveStacks {a b : Tensor Float} {n k : Nat} (ha : a.shape = [n, n])
    (hb : b.shape = [n, k]) : ErrorsOnly (· = .degenerate) (solveStacks a b) := by
  rw [solveStacks, ha, hb, asStack?_matrix, asStack?_matrix]
  dsimp only
  rw [commonShape?_self]
  dsimp only
  rw [if_pos rfl, places_nil, List.mapM_cons, List.mapM_nil]
  cases hx : Elimination.solve? (a.matrixAt [] n n []) (b.matrixAt [] n k []) with
  | none => exact errorsOnly_error rfl
  | some x =>
    exact errorsOnly_ofMatrices (Elimination.isMatrix_of_solve? (a.isMatrix_matrixAt [] n n [])
      (b.isMatrix_matrixAt [] n k []) hx)

private theorem isMatrix_identityRows (n : Nat) : IsMatrix n n (identityRows n) :=
  .range fun i ↦ by rw [List.length_map, List.length_range]

end Tensor

instance : Routines.FailsByNumbers Float where
  inverse ha := Tensor.errorsOnly_onSquares ha _ fun {rows result} hrows h ↦ by
    rw [hrows.length] at h
    exact Elimination.isMatrix_of_solve? hrows (Tensor.isMatrix_identityRows _) h
  lowerRoot ha := Tensor.errorsOnly_onSquares ha _ Tensor.isMatrix_of_lowerRootRows?
  solve := by
    intro a b n k ha hb
    change ErrorsOnly _ (Tensor.solveSquare a b)
    rw [Tensor.solveSquare, ha, Tensor.asStack?_matrix, Tensor.asRight_matrix hb]
    dsimp only
    rw [if_pos rfl]
    refine (Tensor.errorsOnly_solveStacks ha hb).bind fun x _ ↦ ?_
    -- the right-hand side is a matrix, so the outcome is not made a vector
    rw [if_neg (by rw [hb]; exact Nat.succ_ne_self 1)]
    exact errorsOnly_pure x
  pseudoInverse := by
    intro a m n ha
    change ErrorsOnly _ (Tensor.pseudoInverseOf a)
    rw [Tensor.pseudoInverseOf, ha, Tensor.asStack?_matrix]
    dsimp only
    rw [Tensor.places_nil, List.map_singleton]
    refine errorsOnly_ite ?_ (errorsOnly_error rfl)
    exact Tensor.errorsOnly_ofMatrices
      (PseudoInverse.isMatrix_rows (a.isMatrix_matrixAt [] m n []).columnsOf)

end TermEmbedding
