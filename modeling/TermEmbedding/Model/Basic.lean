import TermEmbedding.Embedding
import TermEmbedding.Model.Failure

/-!
# Models

A model holds what evaluation has found out and what is believed about every function term. The
results of applications are kept, so an application that was evaluated once has its result for good.
An application whose result is a function brings a new term into being; the applications that the
terms of a type came from are listed in the order of the terms' running numbers. Each result is
folded into the belief about the applied function once: until then the application is pending.

An operation on a model either answers or fails, and in both cases it leaves a model behind.
-/

namespace TermEmbedding

/-- A function term applied to an argument. -/
structure Application (K : Type) where
  callee : TermPointer
  argument : TermReference K
deriving DecidableEq, Inhabited

instance {K : Type} [BEq K] : BEq (Application K) where
  beq a b := a.callee == b.callee && a.argument == b.argument

/-- What evaluation has found out and what is believed about every function term. -/
structure Model (K : Type) where
  /-- The results of applications. -/
  results : Table (Application K) (TermReference K)
  /-- The applications that terms came from, type by type. -/
  origins : Table TypeId (List (Application K))
  /-- The belief about each function term. -/
  embeddings : Table TermPointer (Embedding K)
  /-- The matrices that expand compressed vectors, for each type of functions. -/
  elaborators : Table TypeId (Tensor K)
  /-- The applications whose results are not yet folded into the beliefs. -/
  pending : List (Application K)
  /-- The state of the source of noise. -/
  noise : Int

abbrev Operation (K α : Type) := ExceptT (Failure K) (StateM (Model K)) α

namespace Model

variable {K : Type}

def embedding (p : TermPointer) : Operation K (Embedding K) := do
  match (← get).embeddings.get? p with
  | some e => return e
  | none => throw (.noTerm p)

/-- The matrix that expands the compressed vectors of a type. -/
def elaborator (typeId : TypeId) : Operation K (Tensor K) := do
  match (← get).elaborators.get? typeId with
  | some matrix => return matrix
  | none => throw (.noElaborator typeId)

/-- The vector that represents a reference: its entries, or the mean of the belief about it. -/
def meanVector : TermReference K → Operation K (Tensor K)
  | .vector _ entries _ => return .ofList entries
  | .function p => return (← embedding p).meanVector

section

variable [Zero K] [One K] [Add K] [Mul K] [Div K]

def sample [Routines K] (source : NoiseSource K) (p : TermPointer) : Operation K (Tensor K) := do
  let e ← embedding p
  let (result, state) := e.sample source (← get).noise
  modify fun m ↦ { m with noise := state }
  return (← result)

/-- A compressed vector of a type in the full space of the type. -/
def expand (context : Context) (typeId : TypeId) (v : Tensor K) : Operation K (Tensor K) := do
  if ← context.isVector typeId then return v
  else
    let matrix ← elaborator typeId
    return (← matrix.matmul v)

/-- A vector of the full space of a type in the compressed space. -/
def compress [Routines K] (context : Context) (typeId : TypeId) (v : Tensor K) :
    Operation K (Tensor K) := do
  if ← context.isVector typeId then return v
  else
    let matrix ← elaborator typeId
    let inverse ← Routines.pseudoInverse matrix
    return (← inverse.matmul v)

end

end Model

end TermEmbedding
