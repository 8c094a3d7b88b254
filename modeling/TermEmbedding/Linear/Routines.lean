import TermEmbedding.Linear.Arithmetic
import TermEmbedding.Term

/-!
# Numbers that a model can be built on

A model needs more of its numbers than sums and products: it inverts matrices, takes their roots and
solves systems. These routines are given by a class, and so are the two constants of a model.
Statements about models hold for all numbers, or for those whose routines have known properties; the
program runs on floating-point numbers, and which routines it is given for them is left open here.
-/

namespace TermEmbedding

/-- The linear algebra of models. -/
class Routines (K : Type) where
  /-- The inverse of a matrix. -/
  inverse : Tensor K → Except LinearError (Tensor K)
  /-- The lower triangular root of a positive definite matrix. -/
  lowerRoot : Tensor K → Except LinearError (Tensor K)
  /-- The array `X` with `A X = B`. -/
  solve : Tensor K → Tensor K → Except LinearError (Tensor K)
  /-- The pseudo-inverse of a matrix. -/
  pseudoInverse : Tensor K → Except LinearError (Tensor K)
  /-- Orthonormal columns that span the columns of a matrix. -/
  orthonormal : Tensor K → Except LinearError (Tensor K)

/-- Numbers with all that a model needs of them. -/
class Numbers (K : Type) extends BEq K, Routines K where
  /-- The variance of the noise in observed values. -/
  noiseVariance : K
  /-- The standard deviation of the entries of a new primitive term. -/
  initialScale : K

instance instZeroFloat : Zero Float := ⟨0.0⟩

instance instOneFloat : One Float := ⟨1.0⟩

instance instNumbersFloat [Routines Float] : Numbers Float where
  noiseVariance := 0.1
  initialScale := 0.1

end TermEmbedding
