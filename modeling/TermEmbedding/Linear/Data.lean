import TermEmbedding.Json.Conversion
import TermEmbedding.Linear.Tensor

/-!
# Arrays as data

An array is stored as nested lists. What is read may be written more loosely: a number may be an
integer, a truth value or a string, and null stands for what is no number. Lists at one level must
have one shape, which is looked at before any entry, and there is a limit to how deeply they may be
nested.
-/

namespace TermEmbedding

namespace Tensor

/-- The greatest number of axes of an array that is read. -/
def axisLimit : Nat := 64

mutual

def shapeOf? : Json → Option (List Nat)
  | .array items =>
    match shapesOf? items with
    | none => none
    | some [] => some [0]
    | some (shape :: shapes) =>
      if shapes.all (· = shape) then some ((shapes.length + 1) :: shape) else none
  | _ => some []

def shapesOf? : List Json → Option (List (List Nat))
  | [] => some []
  | item :: items => do
    let shape ← shapeOf? item
    let shapes ← shapesOf? items
    return shape :: shapes

end

/-- A data value as a number. -/
def ofScalar : Json → Except DataFault Float
  | .null => return 0 / 0
  | .bool b => return if b then 1 else 0
  | .number x => return x
  | .integer i =>
    let magnitude := Decimal.scaled i.natAbs (numeral i.natAbs).length 0
    if magnitude.isInf then throw .unbounded
    else return if i < 0 then -magnitude else magnitude
  | .string s =>
    match (Text.ofCodePoints? s).bind Decimal.number? with
    | some x => return x
    | none => throw .value
  | .array _ | .object _ => throw .kind

mutual

/-- The numbers in nested lists, from the left. -/
def entriesOf : Json → Except DataFault (List Float)
  | .array items => entriesOfAll items
  | scalar => return [← ofScalar scalar]

def entriesOfAll : List Json → Except DataFault (List Float)
  | [] => return []
  | item :: items => do
    let entries ← entriesOf item
    let others ← entriesOfAll items
    return entries ++ others

end

/-- The array that nested lists spell. -/
def ofData (data : Json) : Except DataFault (Tensor Float) := do
  match (shapeOf? data).filter (·.length ≤ axisLimit) with
  | none => throw .value
  | some shape =>
    match (ofList (← entriesOf data)).reshape? shape with
    | some t => return t
    | none => throw .value

/-- Nested lists of a shape that hold the given entries from a position on. -/
def nested (entries : Array Float) : List Nat → Nat → Json
  | [], position => .number (entries.getD position 0)
  | n :: shape, position =>
    .array ((List.range n).map fun i ↦ nested entries shape (position + i * volume shape))

/-- An array as nested lists. -/
def toData (t : Tensor Float) : Json := nested t.entries t.shape 0

end Tensor

end TermEmbedding
