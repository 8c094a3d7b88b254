import TermEmbedding.Model.Basic

/-!
# Evaluation

A function applied to an argument is looked up first, and its result is what it was before. A new
application is checked for its type and computed from means: the mean of the function is applied to
the features of the argument. A result of a vector type is the vector that comes out. A result of a
function type is a new term, whose belief starts from the vector that comes out, expanded to the
full space of the type. A vector that needs a mark is marked by the row that it is going to have.

Expressions are evaluated from the left: what is applied before what it is applied to. Whatever was
computed before a failure is kept.
-/

namespace TermEmbedding

namespace Model

variable {K : Type} [Zero K] [One K] [Add K] [Mul K] [Div K] [Numbers K]

def checkArgument (context : Context) (p : TermPointer) (argument : TermReference K) :
    Operation K Unit := do
  let (expected, _) ← context.signature p.typeId
  if argument.typeId ≠ expected then
    throw (.wrongArgument (.term p) (← context.display p.typeId) (.reference argument)
      argument.typeId)

/-- Adds a term of a function type with the vector that represents it. The term is listed before it
is known whether the vector has the size that the type asks for. -/
def addTerm (context : Context) (typeId : TypeId) (origin : Application K) (v : Tensor K) :
    Operation K TermPointer := do
  let earlier := ((← get).origins.get? typeId).getD []
  let p : TermPointer := ⟨typeId, .nonprimitive earlier.length⟩
  modify fun m ↦ { m with origins := m.origins.insert typeId (earlier ++ [origin]) }
  let space ← context.functionSpace typeId
  match hmean : v.reshape? [space.output, space.features] with
  | none => throw (.linear .shape)
  | some mean =>
    let belief : Embedding K := .prior mean (by simp [Tensor.shape_of_reshape? hmean])
    modify fun m ↦ { m with embeddings := m.embeddings.insert p belief }
    return p

/-- The result of a new application. -/
def compute (context : Context) (p : TermPointer) (argument : TermReference K) :
    Operation K (TermReference K) := do
  checkArgument context p argument
  let e ← embedding p
  let (argumentType, resultType) ← context.signature p.typeId
  let space ← context.featureSpace argumentType
  let features ← space.features (← meanVector argument)
  let v ← e.mean.matmul features
  if ← context.isVector resultType then
    match v.toVector? with
    | some entries => return .vectorAt (.result (← get).results.length) resultType entries
    | none => throw (.linear .parts)
  else
    return .function (← addTerm context resultType ⟨p, argument⟩ (← expand context resultType v))

/-- The result of an application, which is computed if it is new. -/
def evaluate (context : Context) (p : TermPointer) (argument : TermReference K) :
    Operation K (TermReference K) := do
  match (← get).results.get? ⟨p, argument⟩ with
  | some result => return result
  | none =>
    let result ← compute context p argument
    modify fun m ↦ { m with
      results := m.results.insert ⟨p, argument⟩ result
      pending := m.pending ++ [⟨p, argument⟩] }
    return result

end Model

variable {K : Type} [Zero K] [One K] [Add K] [Mul K] [Div K] [Numbers K]

mutual

def Callee.evaluate (context : Context) : Callee K → Operation K TermPointer
  | .term p => return p
  | .application f x => do
    let p ← f.evaluate context
    let argument ← x.evaluate context
    match ← Model.evaluate context p argument with
    | .function result => return result
    | .vector _ _ _ => throw (.vectorApplied .evaluating (.application f x))

def Expression.evaluate (context : Context) : Expression K → Operation K (TermReference K)
  | .reference r => return r
  | .application f x => do
    let p ← f.evaluate context
    let argument ← x.evaluate context
    Model.evaluate context p argument

end

end TermEmbedding
