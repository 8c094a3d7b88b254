import TermEmbedding.Model.Basic

/-!
# Simulation

In a simulation every function term in an expression stands for a vector of its own, and every
occurrence is given one afresh. The vector is made a matrix and applied to the features of the
argument, and the outcome, expanded to the full space of its type, is the vector of the application.
Nothing is looked up and no term is added: a simulation leaves no trace but the state of the source
of noise.

Where the vectors of terms come from is a parameter. The program draws them from the beliefs; taking
the means instead gives the vectors that evaluation computes.
-/

namespace TermEmbedding

/-- A vector that represents a term of a type, in the full space of the type. -/
structure TypedVector (K : Type) where
  typeId : TypeId
  entries : Tensor K

/-- A vector as it is written in expressions, if its entries are numbers. -/
def TypedVector.text? (v : TypedVector Float) : Option Text :=
  v.entries.toVector?.map fun xs ↦ '#' :: integerNumeral v.typeId ++ vectorText xs

namespace Model

variable {K : Type} [Zero K] [One K] [Add K] [Mul K] [Div K]

/-- The vector of an application, from the vectors of its parts. -/
def applyVector (context : Context) (callee : Callee K) (f : TypedVector K)
    (argument : Expression K) (x : TypedVector K) : Operation K (TypedVector K) := do
  let (expected, resultType) ← context.signature f.typeId
  if x.typeId ≠ expected then
    throw (.wrongArgument callee (← context.display f.typeId) argument x.typeId)
  let space ← context.functionSpace f.typeId
  let features ← context.featureSpace x.typeId
  match f.entries.reshape? [space.output, space.features] with
  | none => throw (.wrongSample callee f.entries.toList.length space)
  | some matrix =>
    let v ← matrix.matmul (← features.features x.entries)
    return ⟨resultType, ← expand context resultType v⟩

end Model

variable {K : Type} [Zero K] [One K] [Add K] [Mul K] [Div K]

mutual

/-- The vector of what is applied, where terms stand for the vectors that `vectorOf` gives. -/
def Callee.simulate (vectorOf : TermPointer → Operation K (Tensor K)) (context : Context) :
    Callee K → Operation K (TypedVector K)
  | .term p => return ⟨p.typeId, ← vectorOf p⟩
  | .application f x => do
    let function ← f.simulate vectorOf context
    let argument ← x.simulate vectorOf context
    let result ← Model.applyVector context f function x argument
    if ← context.isVector result.typeId then
      throw (.vectorApplied .simulating (.application f x))
    return result

/-- The vector of an expression, where terms stand for the vectors that `vectorOf` gives. -/
def Expression.simulate (vectorOf : TermPointer → Operation K (Tensor K)) (context : Context) :
    Expression K → Operation K (TypedVector K)
  | .reference (.function p) => return ⟨p.typeId, ← vectorOf p⟩
  | .reference (.vector typeId entries _) => return ⟨typeId, .ofList entries⟩
  | .application f x => do
    let function ← f.simulate vectorOf context
    let argument ← x.simulate vectorOf context
    Model.applyVector context f function x argument

end

end TermEmbedding
