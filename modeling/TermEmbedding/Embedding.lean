import TermEmbedding.Linear.Routines
import TermEmbedding.Noise

/-!
# Embeddings

What is believed about a function term is a distribution over linear maps: a matrix of means, and
a precision that all rows share. A new term has the identity for its precision. Observed values of
the function, each a vector of features with the value that was seen, are folded into the belief as
in linear regression with noise of known variance.

A draw from the belief adds to the mean a row of noise for each row of the map, shaped by the root
of the covariance.
-/

namespace TermEmbedding

/-- A belief about a linear map from features to values. -/
structure Embedding (K : Type) where
  mean : Tensor K
  precision : Tensor K

namespace Embedding

variable {K : Type} [Zero K] [One K] [Add K] [Mul K] [Div K]

/-- The belief about a new term, whose mean has to have columns. -/
def prior (mean : Tensor K) (h : 1 < mean.shape.length) : Embedding K :=
  ⟨mean, Tensor.identity mean.shape[1]⟩

def meanVector (e : Embedding K) : Tensor K := e.mean.flatten

/-- A draw from the belief, as the vector of its entries, and the state of the source after it. The
noise is drawn only if the covariance has a root. -/
def sample [Routines K] (source : NoiseSource K) (e : Embedding K) (state : Int) :
    Except LinearError (Tensor K) × Int :=
  match Routines.inverse e.precision >>= Routines.lowerRoot with
  | .error err => (.error err, state)
  | .ok root =>
    let (noise, next) := source.drawArray e.mean.shape state
    (do
      let deviation ← noise.matmul root.transpose
      let sum ← e.mean.add deviation
      return sum.flatten, next)

/-- The belief after observations: rows of features and the values that were seen there. -/
def update [Routines K] (e : Embedding K) (features targets : Tensor K) (noiseVariance : K) :
    Except LinearError (Embedding K) := do
  let gram ← features.transpose.matmul features
  let precision ← e.precision.add (gram.map (· / noiseVariance))
  let weighted ← e.mean.matmul e.precision
  let observed ← targets.transpose.matmul features
  let right ← weighted.add (observed.map (· / noiseVariance))
  let solution ← Routines.solve precision right.transpose
  return ⟨solution.transpose, precision⟩

end Embedding

end TermEmbedding
