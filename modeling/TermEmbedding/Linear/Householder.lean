import TermEmbedding.Linear.Norm

/-!
# Orthonormal columns

A matrix is triangulated by reflections, one for each column: the reflection maps the column, from
the diagonal down, to a multiple of the first unit vector, whose sign is opposite to that of the
head, be it a zero, so that nothing cancels. A column that is zero below its head is left alone. The
product of the reflections, cut to as many columns as the matrix has, has orthonormal columns that
span those of the matrix.

The recursion follows the triangulation: the columns of the smaller matrix that one reflection
leaves are orthonormalised, a zero is put in front of each, the first unit vector is added, and the
reflection maps all of them back.
-/

namespace TermEmbedding

namespace Householder

/-- The reflection `w ↦ w - scale * (v · w) v`. -/
structure Reflection where
  scale : Float
  direction : List Float

namespace Reflection

def apply (r : Reflection) (w : List Float) : List Float :=
  let multiple := r.scale * inner r.direction w
  (w.zip r.direction).map fun (x, v) ↦ x - multiple * v

/-- The reflection that makes a column vanish below its head, unless it does so already. -/
def ofColumn? : List Float → Option Reflection
  | [] => none
  | head :: below =>
    if below.all (· == 0) then none
    else
      let length := norm (head :: below)
      let target := if head.toBits >>> 63 = 1 then length else -length
      some ⟨(target - head) / target, 1 :: below.map (· / (head - target))⟩

end Reflection

def reflected (r : Option Reflection) (w : List Float) : List Float :=
  match r with
  | none => w
  | some r => r.apply w

/-- Orthonormal columns that span the first `n` columns of a list. -/
def orthonormal : Nat → List (List Float) → List (List Float)
  | 0, _ => []
  | _ + 1, [] => []
  | n + 1, column :: columns =>
    let r := Reflection.ofColumn? column
    let smaller := columns.map fun other ↦ (reflected r other).tail
    let unit := 1 :: List.replicate (column.length - 1) 0
    (unit :: (orthonormal n smaller).map (0 :: ·)).map (reflected r)

end Householder

end TermEmbedding
