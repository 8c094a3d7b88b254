import TermEmbedding.Linear.Norm
import TermEmbedding.Linear.Rows

/-!
# Pseudo-inverses

The columns of a matrix are turned until they are orthogonal, two of them at a time. Whatever is
done to the columns is also done to those of an identity matrix, so that every column is the image
of a vector of coefficients, and the coefficients stay orthonormal. In the end the lengths of the
columns are the singular values of the matrix. A vector is mapped back by its inner products with
the columns: each of them, divided by the square of the length of its column, counts for the
coefficients of the column.

A column that is a tiny part of the longest one is what rounding has left of zero, and nothing is
mapped back along it. The matrix is brought to the size of one first, so that squares can be
trusted, and it is transposed if it has more columns than rows.
-/

namespace TermEmbedding

namespace PseudoInverse

/-- A column with the coefficients that it is the image of. -/
structure Column where
  image : List Float
  coefficients : List Float
  /-- The square of the length of the image. -/
  square : Float

namespace Column

def ofImage (image coefficients : List Float) : Column :=
  ⟨image, coefficients, inner image image⟩

/-- The columns of a matrix, each as the image of a unit vector. -/
def initial (columns : List (List Float)) : List Column :=
  columns.zipIdx.map fun (image, i) ↦
    ofImage image ((List.range columns.length).map fun j ↦ if i = j then 1 else 0)

/-- The cosine below which two columns count as orthogonal. -/
def orthogonality : Float := 1e-15

/-- `c * x + d * y`, entry by entry. -/
def combine (c d : Float) (xs ys : List Float) : List Float :=
  (xs.zip ys).map fun (x, y) ↦ c * x + d * y

/-- Turns two columns in their plane so that they become orthogonal, unless they are so already. -/
def turn? (a b : Column) : Option (Column × Column) :=
  let product := inner a.image b.image
  if product.abs ≤ orthogonality * (a.square.sqrt * b.square.sqrt) then none
  else
    let slope := (b.square - a.square) / (2 * product)
    let size := 1 / (slope.abs + (1 + slope * slope).sqrt)
    let tangent := if slope < 0 then -size else size
    let cosine := 1 / (1 + tangent * tangent).sqrt
    let sine := cosine * tangent
    some
      (ofImage (combine cosine (-sine) a.image b.image)
        (combine cosine (-sine) a.coefficients b.coefficients),
      ofImage (combine sine cosine a.image b.image)
        (combine sine cosine a.coefficients b.coefficients))

/-- Turns a column against each of several others, and tells whether anything was turned. -/
def turnAgainst (a : Column) : List Column → Column × List Column × Bool
  | [] => (a, [], false)
  | b :: others =>
    match a.turn? b with
    | none =>
      let (a, others, turned) := turnAgainst a others
      (a, b :: others, turned)
    | some (a, b) =>
      let (a, others, _) := turnAgainst a others
      (a, b :: others, true)

/-- Turns any two columns once. -/
def sweep (columns : List Column) : List Column × Bool :=
  columns.foldl (fun (done, before) column ↦
    let (column, done, turned) := column.turnAgainst done
    (column :: done, before || turned)) ([], false)

/-- Turns columns until they are orthogonal, in no more than a number of rounds. -/
def orthogonalise : Nat → List Column → List Column
  | 0, columns => columns
  | rounds + 1, columns =>
    match sweep columns with
    | (columns, true) => orthogonalise rounds columns
    | (columns, false) => columns

/-- How many rounds are made at most. Every round squares what is left of the cosines, so a few are
enough. -/
def roundLimit : Nat := 40

end Column

/-- The length, as a part of the greatest one, up to which a column counts as zero. -/
def negligible : Float := 1e-15

/-- A sum of multiples of vectors of the given length. -/
def combination (length : Nat) (coefficients : List Float) (vectors : List (List Float)) :
    List Float :=
  (coefficients.zip vectors).foldl (fun sum (c, v) ↦ (sum.zip v).map fun (s, x) ↦ s + c * x)
    (List.replicate length 0)

/-- The rows of the pseudo-inverse of a matrix that is given by its columns, of which there are no
more than rows. -/
def rowsOfTall (height : Nat) (columns : List (List Float)) : List (List Float) :=
  let turned := Column.orthogonalise Column.roundLimit (Column.initial columns)
  let longest := greatestMagnitude (turned.map (·.square.sqrt))
  let kept := turned.filter fun column ↦ negligible * longest < column.square.sqrt
  let back := kept.map fun column ↦ column.image.map (· / column.square)
  (List.range columns.length).map fun j ↦
    combination height (kept.map (·.coefficients.getD j 0)) back

/-- The rows of the pseudo-inverse of a matrix of the given height that is given by its columns. -/
def rows (height : Nat) (columns : List (List Float)) : List (List Float) :=
  let exponent := leveller columns.flatten
  let level := columns.map (levelled exponent)
  let inverse :=
    if columns.length ≤ height then rowsOfTall height level
    else columnsOf columns.length (rowsOfTall columns.length (columnsOf height level))
  inverse.map (levelled exponent)

end PseudoInverse

end TermEmbedding
