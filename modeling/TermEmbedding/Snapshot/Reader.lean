import TermEmbedding.Expression.Reader
import TermEmbedding.Linear.Data
import TermEmbedding.Model.Basic
import TermEmbedding.Snapshot.Basic

/-!
# Taking a model up again

The parts are read in the order in which a snapshot holds them, and the first fault that is met is
reported. A term that is not written as terms are is reported as such, while one with something
behind it, or one that is a vector where a function is needed, counts as malformed data.
-/

namespace TermEmbedding

namespace Snapshot

/-- The text that a value has to be. -/
def toText : Json → Except SnapshotError Text
  | .string s => return Text.ofCodePoints s
  | _ => throw (.fault .noText)

def toReference (value : Json) : Except SnapshotError (TermReference Float) := do
  match readReference (← toText value) with
  | .error (.numeralTooLong _) => throw (.malformed .value)
  | .error e => throw (.unreadable e)
  | .ok r => if r.rest = [] then return r.value else throw (.malformed .value)

def toPointer (value : Json) : Except SnapshotError TermPointer := do
  match ← toReference value with
  | .function p => return p
  | .vector _ _ _ => throw (.malformed .value)

/-- The number of a type that the name of a member spells. -/
def toTypeId (name : List CodePoint) : Except SnapshotError TypeId :=
  return (← (Json.string name).toInteger)

def toApplication (row : Json) : Except SnapshotError (Application Float) := do
  match ← row.toItems with
  | [callee, argument] => return ⟨← toPointer callee, ← toReference argument⟩
  | _ => throw (.malformed .value)

def toResult (row : Json) : Except SnapshotError (Application Float × TermReference Float) := do
  match ← row.toItems with
  | [callee, argument, result] =>
    return (⟨← toPointer callee, ← toReference argument⟩, ← toReference result)
  | _ => throw (.malformed .value)

/-- Reads the applications that the terms of a type came from. -/
def toOrigins (row : List CodePoint × Json) :
    Except SnapshotError (TypeId × List (Application Float)) := do
  let typeId ← toTypeId row.1
  let rows ← row.2.toItems
  return (typeId, ← rows.mapM toApplication)

def toEmbedding (entry : Json) : Except SnapshotError (TermPointer × Embedding Float) := do
  let p ← toPointer (← entry.member "term")
  let mean ← Tensor.ofData (← entry.member "mean")
  let precision ← Tensor.ofData (← entry.member "precision")
  return (p, ⟨mean, precision⟩)

def toElaborator (row : List CodePoint × Json) :
    Except SnapshotError (TypeId × Tensor Float) := do
  let typeId ← toTypeId row.1
  return (typeId, ← Tensor.ofData row.2)

/-- The model that a snapshot describes. -/
def toModel (s : Snapshot) : Except SnapshotError (Model Float) := do
  match s.noise with
  | none => throw .noModel
  | some noise =>
    return {
      results := .ofRows (← (← s.results.toItems).mapM toResult)
      origins := .ofRows (← (← s.origins.toMembers).mapM toOrigins)
      embeddings := .ofRows (← (← s.embeddings.toItems).mapM toEmbedding)
      elaborators := .ofRows (← (← s.elaborators.toMembers).mapM toElaborator)
      pending := ← (← s.pending.toItems).mapM toApplication
      noise := noise }

end Snapshot

end TermEmbedding
