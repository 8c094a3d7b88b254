import TermEmbedding.Linear.Data
import TermEmbedding.Model.Basic
import TermEmbedding.Snapshot.Basic

/-!
# Putting a model away

Every part of a model is written in the order in which the model holds it. The only thing that can
fail is a term whose numbers are too long to be written.
-/

namespace TermEmbedding

def TermPointer.hasText (p : TermPointer) : Bool :=
  hasNumeral p.typeId && match p.index with
    | .primitive n => hasNumeral n
    | .nonprimitive n => hasNumeral n

def TermReference.hasText {K : Type} : TermReference K → Bool
  | function p => p.hasText
  | vector typeId _ _ => hasNumeral typeId

namespace Snapshot

def ofPointer (p : TermPointer) : Except SnapshotError Json :=
  if p.hasText then return .text p.text else throw .unwritable

def ofReference (r : TermReference Float) : Except SnapshotError Json :=
  if r.hasText then return .text r.text else throw .unwritable

/-- The number of a type as the name of a member. -/
def ofTypeId (typeId : TypeId) : Except SnapshotError (List CodePoint) :=
  if hasNumeral typeId then return (integerNumeral typeId).codePoints else throw .unwritable

def ofApplication (a : Application Float) : Except SnapshotError Json :=
  return .array [← ofPointer a.callee, ← ofReference a.argument]

def ofResult (row : Application Float × TermReference Float) : Except SnapshotError Json :=
  return .array [← ofPointer row.1.callee, ← ofReference row.1.argument, ← ofReference row.2]

def ofOrigins (row : TypeId × List (Application Float)) :
    Except SnapshotError (List CodePoint × Json) :=
  return (← ofTypeId row.1, .array (← row.2.mapM ofApplication))

def ofEmbedding (row : TermPointer × Embedding Float) : Except SnapshotError Json :=
  return .object [(Json.name "term", ← ofPointer row.1), (Json.name "mean", row.2.mean.toData),
    (Json.name "precision", row.2.precision.toData)]

def ofElaborator (row : TypeId × Tensor Float) : Except SnapshotError (List CodePoint × Json) :=
  return (← ofTypeId row.1, row.2.toData)

/-- A model as plain data. -/
def ofModel (m : Model Float) : Except SnapshotError Snapshot :=
  return {
    results := .array (← m.results.mapM ofResult)
    origins := .object (← m.origins.mapM ofOrigins)
    embeddings := .array (← m.embeddings.mapM ofEmbedding)
    elaborators := .object (← m.elaborators.mapM ofElaborator)
    pending := .array (← m.pending.mapM ofApplication)
    noise := some m.noise }

end Snapshot

end TermEmbedding
