import TermEmbedding.Json.Conversion
import TermEmbedding.Term

/-!
# What can be wrong with the definition of a context

A definition is read from parameters or from the stored form of a context. A fault of the data is
reported under the name of the activity that met it, but two kinds of fault are reported by no
activity: an object that is none, and a number beyond all bounds. The rest are violated rules.
-/

namespace TermEmbedding

/-- What is done with a definition. -/
inductive Activity where
  | generating
  | loading
  | interpreting
deriving DecidableEq, Inhabited

def Activity.complaint : Activity → Text
  | generating => "Cannot generate context".toList
  | loading => "Cannot deserialize context".toList
  | interpreting => "Malformed context".toList

/-- Why a definition gives no context. -/
inductive ContextError where
  /-- A fault of the data, which no activity has reported yet. -/
  | fault (fault : DataFault)
  /-- A fault of the data, reported by an activity. -/
  | failed (activity : Activity) (fault : DataFault)
  | noTypeList
  | entryNoObject (index : Nat) (entry : Json)
  | entryUnknown (index : Nat)
  | unknownKind (kind : Json)
  | repeatedNames (typeId : Int)
  | emptyVector (index : Nat)
  | laterType (index : Nat) (reference : Int)
  | compression (index : Nat) (full : Nat)
  /-- Primitive terms are declared for a type that does not exist. -/
  | noType (typeId : Int)
  /-- Primitive terms are declared for a type of vectors. -/
  | primitiveVectors (typeId : Int)
deriving Inhabited

namespace ContextError

/-- The beginning of a message about one type. -/
def aboutType (typeId : Int) : Text := "Type #".toList ++ integerNumeral typeId ++ ": ".toList

def message : ContextError → Text
  | fault f => f.message
  | failed activity f => activity.complaint ++ ": ".toList ++ f.message
  | noTypeList => "Context parameters must be an object with a 'types' list".toList
  | entryNoObject index entry =>
    aboutType index ++ "expected an object, got ".toList ++ entry.shown
  | entryUnknown index => aboutType index ++ "expected a 'vector' or 'function' entry".toList
  | unknownKind kind => "Unknown type kind ".toList ++ kind.shown
  | repeatedNames typeId =>
    "Duplicate primitive term names for type #".toList ++ integerNumeral typeId
  | emptyVector index => aboutType index ++ "vector dimension must be positive".toList
  | laterType index reference =>
    aboutType index ++ "function types may only refer to earlier types, got #".toList ++
      integerNumeral reference
  | compression index full =>
    aboutType index ++ "compressed dimension must be in 1..".toList ++ numeral full
  | noType typeId => "No type #".toList ++ integerNumeral typeId ++ " in the current context".toList
  | primitiveVectors typeId =>
    "Primitive terms must have function types, got #".toList ++ integerNumeral typeId

/-- Whether an activity reports a fault that it meets. -/
def isReported : DataFault → Bool
  | .encoding | .malformed | .value | .kind | .missing => true
  | .noMembers _ | .noText | .unbounded => false

/-- The result of an activity, with the faults that it met reported by it. -/
def during {α : Type} (activity : Activity) (result : Except ContextError α) :
    Except ContextError α :=
  result.mapError fun
    | fault f => if isReported f then failed activity f else fault f
    | other => other

end ContextError

end TermEmbedding
