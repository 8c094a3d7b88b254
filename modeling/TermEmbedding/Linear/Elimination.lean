/-!
# Solving by elimination

A system is given by the rows of its matrix, each followed by the same row of the right-hand sides.
One step exchanges the first row with the row whose leading entry has the greatest magnitude and
subtracts multiples of it from the others so that their leading entries vanish. These are dropped,
and the next step works on a system that is one row and one column smaller. If all leading entries
are zero the matrix has no inverse.

The rows that were chosen form a triangular system, which is solved from its last row upwards.
-/

namespace TermEmbedding

namespace Elimination

/-- The place of the row of greatest leading magnitude, the first of them if there are several. -/
def pivotPlace (rows : List (List Float)) : Nat :=
  (rows.zipIdx.foldl (fun (best : Float × Nat) (row, i) ↦
    let magnitude := (row.headD 0).abs
    if best.1 < magnitude then (magnitude, i) else best) (0, 0)).2

/-- The rows with the one of greatest leading magnitude and the first one exchanged. -/
def pivotFirst (rows : List (List Float)) : List (List Float) :=
  match rows with
  | [] => []
  | first :: rest =>
    match pivotPlace (first :: rest) with
    | 0 => first :: rest
    | i + 1 => rest.getD i first :: rest.set i first

/-- A row without its leading entry, which a multiple of the pivot's row makes vanish. -/
def reduce (pivot row : List Float) : List Float :=
  let factor := row.headD 0 / pivot.headD 1
  (row.tail.zip pivot.tail).map fun (x, p) ↦ x - factor * p

/-- The triangular system of a system in `n` unknowns. Each of its rows begins with the entry on the
diagonal, which is not zero. -/
def triangular? : Nat → List (List Float) → Option (List (List Float))
  | 0, _ => some []
  | n + 1, rows =>
    match pivotFirst rows with
    | [] => none
    | pivot :: others =>
      if pivot.headD 0 == 0 then none
      else (triangular? n (others.map (reduce pivot))).map (pivot :: ·)

/-- The solutions of a triangular system: for each unknown a row of values, one for each right-hand
side. -/
def substitute : List (List Float) → List (List Float)
  | [] => []
  | row :: rows =>
    let solved := substitute rows
    let coefficients := row.tail.take solved.length
    let right := row.tail.drop solved.length
    let known := (coefficients.zip solved).foldl
      (fun right (c, values) ↦ (right.zip values).map fun (r, x) ↦ r - c * x) right
    known.map (· / row.headD 1) :: solved

/-- The rows of `X` with `A X = B`, for the rows of a square `A` and those of `B`. -/
def solve? (a b : List (List Float)) : Option (List (List Float)) :=
  (triangular? a.length ((a.zip b).map fun (row, right) ↦ row ++ right)).map substitute

end Elimination

end TermEmbedding
