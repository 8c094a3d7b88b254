import TermEmbedding.Expression.Error
import TermEmbedding.Json.Conversion

/-!
# Models at rest

Between two operations a model is kept as plain data: terms by their text, arrays as nested lists,
tables of types by numerals. Anyone may have written such data, and each part of it may be any value
at all, so reading it checks everything but the tables' agreement with each other.

A snapshot without a state of the source of noise is no model. The empty one stands in for a model
while that model is in use.
-/

namespace TermEmbedding

/-- A model as plain data. -/
structure Snapshot where
  /-- Rows of a function, an argument and a result. -/
  results : Json
  /-- Rows of a function and an argument, type by type. -/
  origins : Json
  /-- Objects with a term, the mean and the precision of the belief about it. -/
  embeddings : Json
  /-- The matrix of each type of functions. -/
  elaborators : Json
  /-- Rows of a function and an argument. -/
  pending : Json
  /-- The state of the source of noise. -/
  noise : Option Int
deriving Inhabited

namespace Snapshot

/-- The snapshot that is no model. -/
def empty : Snapshot := ⟨.array [], .object [], .array [], .object [], .array [], none⟩

def isEmpty (s : Snapshot) : Bool :=
  s.results.isNothing && s.origins.isNothing && s.embeddings.isNothing &&
    s.elaborators.isNothing && s.pending.isNothing && s.noise.isNone

end Snapshot

/-- Why a model cannot be put away or taken up again. -/
inductive SnapshotError where
  /-- The snapshot is no model. -/
  | noModel
  /-- The data is not what a model is stored as. -/
  | malformed (fault : DataFault)
  /-- A term is not written as terms are. -/
  | unreadable (error : ReadError)
  /-- A fault of the data that is reported as it is. -/
  | fault (fault : DataFault)
  /-- A term has a number that is too long to be written. -/
  | unwritable
deriving Inhabited

namespace SnapshotError

def message : SnapshotError → Text
  | noModel => "Cannot deserialize an empty model".toList
  | malformed f => "Malformed serialized model: ".toList ++ f.message
  | unreadable e => e.message
  | fault f => f.message
  | unwritable => "a numeral is too long to be written".toList

/-- A fault of the data as an error: some kinds are reported as malformed data. -/
def ofFault : DataFault → SnapshotError
  | .kind => malformed .kind
  | .value => malformed .value
  | .missing => malformed .missing
  | .encoding => malformed .encoding
  | .malformed => malformed .malformed
  | other => fault other

end SnapshotError

instance : MonadLift (Except DataFault) (Except SnapshotError) :=
  ⟨Except.mapError SnapshotError.ofFault⟩

end TermEmbedding
