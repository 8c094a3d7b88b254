import TermEmbedding.Model.Basic

/-!
# Folding results into beliefs

The pending applications are grouped by the function that was applied, in the order in which the
functions first occur, and each group is folded in at once: the features of its arguments against
the vectors of its results, compressed if the results are functions. A group sees the beliefs that
the groups before it have left.
-/

namespace TermEmbedding

namespace Model

variable {K : Type} [Zero K] [One K] [Add K] [Mul K] [Div K] [Numbers K]

/-- Applications grouped by what is applied. -/
def grouped (applications : List (Application K)) : Table TermPointer (List (TermReference K)) :=
  applications.foldl (fun groups a ↦
    groups.insert a.callee ((groups.get? a.callee).getD [] ++ [a.argument])) []

/-- The features of an argument. -/
def observedFeatures (space : Context.FeatureSpace) (argument : TermReference K) :
    Operation K (Tensor K) := do
  return (← space.features (← meanVector argument))

/-- The compressed vector of the result of an application. -/
def observedTarget (context : Context) (resultType : TypeId) (p : TermPointer)
    (argument : TermReference K) : Operation K (Tensor K) := do
  match (← get).results.get? ⟨p, argument⟩ with
  | none => throw .noResult
  | some result => compress context resultType (← meanVector result)

/-- Folds the applications of one function into the belief about it. -/
def observe (context : Context) (p : TermPointer) (arguments : List (TermReference K)) :
    Operation K Unit := do
  let (argumentType, resultType) ← context.signature p.typeId
  let space ← context.featureSpace argumentType
  let features ← Tensor.stack (← arguments.mapM (observedFeatures space))
  let targets ← Tensor.stack (← arguments.mapM (observedTarget context resultType p))
  let e ← embedding p
  let updated ← e.update features targets Numbers.noiseVariance
  modify fun m ↦ { m with embeddings := m.embeddings.insert p updated }

/-- Folds the applications of several functions into the beliefs about them, one after the other. -/
def observeAll (context : Context) :
    Table TermPointer (List (TermReference K)) → Operation K Unit
  | [] => return
  | (p, arguments) :: rest => do
    observe context p arguments
    observeAll context rest

/-- Folds all pending applications into the beliefs. They stay pending. -/
def learn (context : Context) : Operation K Unit := do
  observeAll context (grouped (← get).pending)

/-- Declares that nothing is pending. -/
def clearPending : Operation K Unit := modify fun m ↦ { m with pending := [] }

/-- Folds all pending applications into the beliefs, after which none is pending. -/
def update (context : Context) : Operation K Unit := do
  learn context
  clearPending

end Model

end TermEmbedding
