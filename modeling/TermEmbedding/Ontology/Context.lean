import TermEmbedding.Ontology.Error
import TermEmbedding.Ontology.Kind

/-!
# Contexts

A context is a list of types and, for some of its function types, the names of primitive terms.
Declarations are checked from the first one on, so the dimensions that a check needs are those of
types that have passed. What a context has passed is part of its type: every kind makes sense behind
those before it, and primitive terms stand in the order of their types, each of which is a type of
functions and is listed once.

Whoever asks about a type names it by number, and a number may belong to no type, or to a type for
which the question makes no sense.
-/

namespace TermEmbedding

abbrev TermName := List CodePoint

/-- Types, and the names of primitive terms. -/
structure Context where
  kinds : List Kind
  /-- Types with primitive terms, and the names of these. -/
  primitives : List (Nat × List TermName)
  wellFormed : Kind.WellFormed kinds
  /-- Types are listed in ascending order. -/
  ascending : (primitives.map (·.1)).Pairwise (· < ·)
  /-- Primitive terms are functions. -/
  functional : ∀ row ∈ primitives, ∃ kind ∈ kinds[row.1]?, kind.isFunction = true
deriving DecidableEq

/-- Types that have passed all checks. -/
structure Ontology where
  kinds : List Kind
  wellFormed : Kind.WellFormed kinds

namespace Ontology

/-! ## Checking declarations -/

/-- Checks a reference of the type with the given number to another one. -/
def earlier (index : Nat) (reference : Int) : Except ContextError { n : Nat // n < index } :=
  if h : 0 ≤ reference ∧ reference < index then return ⟨reference.toNat, by omega⟩
  else throw (.laterType index reference)

/-- Checks a declaration behind types that have passed. -/
def pass (known : List Dimensions) :
    Declaration → Except ContextError { kind : Kind // kind.Admissible known }
  | .vector d =>
    if h : 1 ≤ d then return ⟨.vector d.toNat, by simp only [Kind.Admissible]; omega⟩
    else throw (.emptyVector known.length)
  | .function argument result compressed => do
    let a ← earlier known.length argument
    let r ← earlier known.length result
    match compressed with
    | none => return ⟨.function a r none, a.2, r.2, by simp⟩
    | some c =>
      let full := (Kind.function a r (some c.toNat)).full known
      if h : 1 ≤ c ∧ c ≤ full then
        return ⟨.function a r (some c.toNat), a.2, r.2, by
          intro n hn
          obtain rfl := Option.mem_some.1 hn
          omega⟩
      else if hasNumeral full then throw (.compression known.length full)
      else throw (.fault .value)

/-- The types with one more, if its declaration makes sense behind them. -/
def push (types : Ontology) (declaration : Declaration) : Except ContextError Ontology := do
  let kind ← pass (Kind.allDimensions types.kinds) declaration
  return ⟨types.kinds ++ [kind.1], types.wellFormed.snoc kind.2⟩

/-- The types of a list of declarations. -/
def ofDeclarations (declarations : List Declaration) : Except ContextError Ontology :=
  declarations.foldlM push ⟨[], .nil⟩

end Ontology

namespace Context

/-- Checks that the types of a list exist and are types of functions. -/
def checkPrimitives (kinds : List Kind) : List TypeId → Except ContextError Unit
  | [] => return
  | typeId :: rest => do
    match if typeId < 0 then none else kinds[typeId.toNat]? with
    | none => throw (.noType typeId)
    | some kind =>
      if kind.isFunction then checkPrimitives kinds rest else throw (.primitiveVectors typeId)

/-- The rows of a table that belong to types of functions, in ascending order. -/
def arranged (kinds : List Kind) (names : Table TypeId (List TermName)) :
    List (Nat × List TermName) :=
  (List.range kinds.length).filterMap fun n : Nat ↦
    if kinds[n]?.any Kind.isFunction then (names.get? n).map (n, ·) else none

private theorem eq_of_arranged {kinds : List Kind} {names : Table TypeId (List TermName)} {n : Nat}
    {row : Nat × List TermName}
    (h : (if kinds[n]?.any Kind.isFunction then (names.get? n).map (n, ·) else none) = some row) :
    row.1 = n ∧ kinds[n]?.any Kind.isFunction = true := by
  split at h
  · rename_i hany
    obtain ⟨_, _, rfl⟩ := Option.map_eq_some_iff.1 h
    exact ⟨rfl, hany⟩
  · cases h

theorem pairwise_arranged (kinds : List Kind) (names : Table TypeId (List TermName)) :
    ((arranged kinds names).map (·.1)).Pairwise (· < ·) := by
  rw [arranged, List.pairwise_map]
  refine List.Pairwise.filterMap _ ?_ List.pairwise_lt_range
  intro a b hab row hrow other hother
  rw [(eq_of_arranged hrow).1, (eq_of_arranged hother).1]
  exact hab

private theorem isFunction_of_mem_arranged {kinds : List Kind}
    {names : Table TypeId (List TermName)}
    {row : Nat × List TermName} (h : row ∈ arranged kinds names) :
    ∃ kind ∈ kinds[row.1]?, kind.isFunction = true := by
  obtain ⟨n, _, hn⟩ := List.mem_filterMap.1 h
  obtain ⟨hrow, hany⟩ := eq_of_arranged hn
  rw [hrow]
  simpa [Option.any_eq_true] using hany

/-- The context of declarations and names, if they pass all checks. -/
def ofDeclarations (declarations : List Declaration) (names : Table TypeId (List TermName)) :
    Except ContextError Context := do
  let types ← Ontology.ofDeclarations declarations
  checkPrimitives types.kinds (names.map (·.1))
  return ⟨types.kinds, arranged types.kinds names, types.wellFormed,
    pairwise_arranged _ _, fun _ ↦ isFunction_of_mem_arranged⟩

/-! ## Questions about types -/

/-- Why a question about a type has no answer. -/
inductive TypeFault where
  | noType (typeId : TypeId)
  | noFunctionType (typeId : TypeId)
deriving DecidableEq, Inhabited

def TypeFault.message : TypeFault → Text
  | noType typeId => "No type #".toList ++ integerNumeral typeId ++ " in the current context".toList
  | noFunctionType typeId =>
    "Type #".toList ++ integerNumeral typeId ++ " is not a function type".toList

def atType {α : Type} (xs : List α) (typeId : TypeId) : Except TypeFault α :=
  match if typeId < 0 then none else xs[typeId.toNat]? with
  | some x => return x
  | none => throw (.noType typeId)

def size (c : Context) : Nat := c.kinds.length

def shown (c : Context) : Text := "Context(".toList ++ numeral c.size ++ " types)".toList

def kind (c : Context) (typeId : TypeId) : Except TypeFault Kind := atType c.kinds typeId

def isVector (c : Context) (typeId : TypeId) : Except TypeFault Bool :=
  return !(← c.kind typeId).isFunction

def isFunction (c : Context) (typeId : TypeId) : Except TypeFault Bool :=
  return (← c.kind typeId).isFunction

def signature (c : Context) (typeId : TypeId) : Except TypeFault (TypeId × TypeId) := do
  match ← c.kind typeId with
  | .function argument result _ => return (argument, result)
  | .vector _ => throw (.noFunctionType typeId)

def dimensions (c : Context) : List Dimensions := Kind.allDimensions c.kinds

/-- The dimension of the vectors that represent the terms of a type. -/
def full (c : Context) (typeId : TypeId) : Except TypeFault Nat :=
  return (← atType c.dimensions typeId).full

/-- The dimension in which functions return the terms of a type. -/
def compressed (c : Context) (typeId : TypeId) : Except TypeFault Nat :=
  return (← atType c.dimensions typeId).compressed

/-- The text of a type. The types behind it are not looked at: a text may be twice as long as those
of the types that it is about. -/
def display (c : Context) (typeId : TypeId) : Except TypeFault Text :=
  atType (Kind.allTexts (c.kinds.take (typeId.toNat + 1))) typeId

def primitiveNames (c : Context) (typeId : TypeId) : List TermName :=
  match c.primitives.find? fun row ↦ (row.1 : TypeId) = typeId with
  | some row => row.2
  | none => []

/-! ## Spaces -/

/-- The matrices of a function type: they map features to compressed results. -/
structure FunctionSpace where
  output : Nat
  features : Nat
deriving DecidableEq

/-- The number of entries of a matrix of the space. -/
def FunctionSpace.full (s : FunctionSpace) : Nat := s.output * s.features

def functionSpace (c : Context) (typeId : TypeId) : Except TypeFault FunctionSpace := do
  let (argument, result) ← c.signature typeId
  return ⟨← c.compressed result, (← c.full argument) + 1⟩

/-- The feature vectors of a type: a constant is added to the entries of a vector. -/
structure FeatureSpace where
  base : Nat
deriving DecidableEq

/-- The dimension of feature vectors. -/
def FeatureSpace.dimension (s : FeatureSpace) : Nat := s.base + 1

def featureSpace (c : Context) (typeId : TypeId) : Except TypeFault FeatureSpace :=
  return ⟨← c.full typeId⟩

end Context

end TermEmbedding
