import TermEmbedding.Linear.Cholesky
import TermEmbedding.Linear.Elimination
import TermEmbedding.Linear.Householder
import TermEmbedding.Linear.PseudoInverse
import TermEmbedding.Linear.Routines

/-!
# Linear algebra of floating-point numbers

One choice of the routines that models of floating-point numbers are built on, the one that the
program is run with. They take stacks of matrices and treat each matrix of a stack by itself. What
has no rows and columns is no stack, and a matrix that is not square has no inverse and no root.
-/

namespace TermEmbedding

namespace Tensor

variable {K : Type}

/-- The places of the matrices in a stack. -/
def places (front : List Nat) : List (List Nat) := (List.range (volume front)).map (unravel front)

/-- The rows of the matrix that a stack has at a place. -/
def matrixAt [Zero K] (t : Tensor K) (front : List Nat) (m n : Nat) (place : List Nat) :
    List (List K) :=
  (List.range m).map fun i ↦ (List.range n).map fun j ↦ t.get (stretched front place ++ [i, j])

/-- The stack of matrices that are given by their rows. -/
def ofMatrices (front : List Nat) (m n : Nat) (matrices : List (List (List K))) :
    Except LinearError (Tensor K) :=
  match (ofList matrices.flatten.flatten).reshape? (front ++ [m, n]) with
  | some t => return t
  | none => throw .shape

/-! ## The routines -/

/-- A routine on square matrices, applied to each matrix of a stack, and the error of what it does
not apply to. -/
def onSquares (t : Tensor Float) (error : LinearError)
    (routine : List (List Float) → Option (List (List Float))) :
    Except LinearError (Tensor Float) :=
  match asStack? t.shape with
  | none => throw .degenerate
  | some (front, m, n) =>
    if m = n then
      match (places front).mapM fun place ↦ routine (t.matrixAt front n n place) with
      | none => throw error
      | some results => ofMatrices front n n results
    else throw .degenerate

def identityRows (n : Nat) : List (List Float) :=
  (List.range n).map fun i ↦ (List.range n).map fun j ↦ if i = j then 1 else 0

def lowerRootRows? (rows : List (List Float)) : Option (List (List Float)) :=
  let n := rows.length
  let lower := (columnsOf n rows).zipIdx.map fun (column, j) ↦ column.drop j
  (Cholesky.columns? n lower).map fun root ↦
    columnsOf n (root.zipIdx.map fun (column, j) ↦ List.replicate j 0 ++ column)

/-- Solves a system for each place of two stacks. -/
def solveStacks (a b : Tensor Float) : Except LinearError (Tensor Float) :=
  match asStack? a.shape, asStack? b.shape with
  | some (aFront, n, _), some (bFront, m, k) =>
    match commonShape? aFront bFront with
    | some front =>
      if n = m then
        match (places front).mapM fun place ↦
          Elimination.solve? (a.matrixAt aFront n n place) (b.matrixAt bFront n k place) with
        | none => throw .degenerate
        | some results => ofMatrices front n k results
      else throw .shape
    | none => throw .shape
  | _, _ => throw .shape

/-- Solves systems with square matrices. A vector on the right is one column. -/
def solveSquare (a b : Tensor Float) : Except LinearError (Tensor Float) := do
  match asStack? a.shape with
  | none => throw .degenerate
  | some (front, m, n) =>
    if m = n then
      let x ← solveStacks a b.asRight
      if b.shape.length = 1 then
        match x.reshape? (front ++ [n]) with
        | some result => return result
        | none => throw .shape
      else return x
    else throw .degenerate

/-- The pseudo-inverse of each matrix of a stack. Entries that are not finite have none. Of an array
without rows and columns an empty one is refused for its shape. -/
def pseudoInverseOf (t : Tensor Float) : Except LinearError (Tensor Float) :=
  match asStack? t.shape with
  | none => throw (if t.shape = [0] then .shape else .degenerate)
  | some (front, m, n) =>
    if t.toList.all Float.isFinite then
      ofMatrices front n m ((places front).map fun place ↦
        PseudoInverse.rows m (columnsOf n (t.matrixAt front m n place)))
    else throw .degenerate

/-- Orthonormal columns for each matrix of a stack. -/
def orthonormalOf (t : Tensor Float) : Except LinearError (Tensor Float) :=
  match asStack? t.shape with
  | none => throw .degenerate
  | some (front, m, n) =>
    ofMatrices front m n ((places front).map fun place ↦
      columnsOf m (Householder.orthonormal n (columnsOf n (t.matrixAt front m n place))))

end Tensor

instance instRoutinesFloat : Routines Float where
  inverse t := t.onSquares .degenerate fun rows ↦
    Elimination.solve? rows (Tensor.identityRows rows.length)
  lowerRoot t := t.onSquares .indefinite Tensor.lowerRootRows?
  solve := Tensor.solveSquare
  pseudoInverse := Tensor.pseudoInverseOf
  orthonormal := Tensor.orthonormalOf

end TermEmbedding
