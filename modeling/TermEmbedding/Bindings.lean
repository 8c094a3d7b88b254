import TermEmbedding.Expression.Error
import TermEmbedding.Table
import TermEmbedding.Term

/-!
# Bindings

The names that a session has bound, each with the reference it stands for. They are listed in
dictionary order, whatever the order in which they were bound.

A vector that is told apart by the place where it came up is marked anew when it is bound: the row
of its result belongs to a table that the next evaluation knows nothing of.
-/

namespace TermEmbedding

/-- Names and the references they stand for. -/
abbrev Bindings (K : Type) := Table Text (TermReference K)

namespace Bindings

variable {K : Type}

def lookup (bindings : Bindings K) (name : Text) : Except ReadError (TermReference K) :=
  match bindings.get? name with
  | some r => return r
  | none => throw (.unbound name)

/-- The number of a reference that was marked when it was bound, or zero. -/
def markOf : TermReference K → Nat
  | .vector _ _ (.binding n) => n
  | _ => 0

/-- A number that marks none of the bound references. -/
def freshMark (bindings : Bindings K) : Nat :=
  bindings.foldl (fun greatest (_, r) ↦ max greatest (markOf r)) 0 + 1

def bind (bindings : Bindings K) (name : Text) (r : TermReference K) : Bindings K :=
  bindings.insert name (match r with
    | .vector typeId entries (.result _) =>
      .vector typeId entries (.binding bindings.freshMark)
    | r => r)

def names (bindings : Bindings K) : List Text := (bindings.map (·.1)).mergeSort Text.le

end Bindings

end TermEmbedding
