import TermEmbedding.Expression.Basic
import TermEmbedding.Linear.Arithmetic
import TermEmbedding.Ontology.Context

/-!
# What can go wrong in a model

Most failures are about types: a term or a type is asked for that does not exist, an argument has
the wrong type, or what is applied turns out to be a vector. The last ones are failures of
arithmetic, of the tables of a model that was stored by someone else, and of the start of a new one.
-/

namespace TermEmbedding

/-- How an expression is given a value. -/
inductive Interpretation where
  | evaluating
  | simulating
deriving DecidableEq, Inhabited

/-- Why an operation on a model has no result. -/
inductive Failure (K : Type) where
  | type (fault : Context.TypeFault)
  | noTerm (pointer : TermPointer)
  | noElaborator (typeId : TypeId)
  | wrongArgument (callee : Callee K) (calleeType : Text) (argument : Expression K)
      (argumentType : TypeId)
  | wrongBase (dimension : Nat) (shape : List Nat)
  | wrongSample (callee : Callee K) (entries : Nat) (space : Context.FunctionSpace)
  | vectorApplied (interpretation : Interpretation) (callee : Callee K)
  | linear (error : LinearError)
  /-- An application is pending that has no result. -/
  | noResult
  /-- The source of noise cannot start from the seed. -/
  | badSeed

namespace Failure

def message : Failure Float → Text
  | type fault => fault.message
  | noTerm p => "No term ".toList ++ p.text ++ " in the current context".toList
  | noElaborator typeId =>
    "Type #".toList ++ integerNumeral typeId ++ " has no elaborator".toList
  | wrongArgument callee calleeType argument argumentType =>
    "Cannot apply ".toList ++ callee.text ++ " of type ".toList ++ calleeType ++ " to ".toList ++
      argument.text ++ " of type #".toList ++ integerNumeral argumentType
  | wrongBase dimension shape =>
    "Expected a base vector of dimension ".toList ++ numeral dimension ++ ", got shape ".toList ++
      Tensor.shapeText shape
  | wrongSample callee entries space =>
    "Sample for ".toList ++ callee.text ++ " has ".toList ++ numeral entries ++
      " entries, expected ".toList ++ numeral space.output ++ ['x'] ++ numeral space.features
  | vectorApplied interpretation callee =>
    "Expected function, but obtained vector from ".toList ++
      (match interpretation with
        | .evaluating => "evaluating ".toList
        | .simulating => "simulating ".toList) ++ callee.text
  | linear .shape => "the shapes of arrays do not fit".toList
  | linear .degenerate => "Singular matrix".toList
  | linear .indefinite => "Matrix is not positive definite".toList
  | linear .parts => "an array has larger parts than numbers".toList
  | noResult => "a pending application has no result".toList
  | badSeed => "the seed is no integer".toList

end Failure

variable {K : Type}

instance : MonadLift (Except Context.TypeFault) (Except (Failure K)) := ⟨Except.mapError .type⟩

instance : MonadLift (Except LinearError) (Except (Failure K)) := ⟨Except.mapError .linear⟩

namespace Context

/-- The features of a vector: its entries and a constant. -/
def FeatureSpace.features [One K] (space : FeatureSpace) (base : Tensor K) :
    Except (Failure K) (Tensor K) :=
  if base.shape = [space.base] then return .ofList (base.toList ++ [1])
  else throw (.wrongBase space.base base.shape)

end Context

end TermEmbedding
