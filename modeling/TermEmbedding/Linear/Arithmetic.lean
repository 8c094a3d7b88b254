import TermEmbedding.Linear.Tensor

/-!
# Operations on arrays

Sums stretch axes of length one, and products act on the last two axes: a vector on the left counts
as a row, one on the right as a column, and axes in front run through stacks of matrices, which are
stretched as in sums. On matrices of conforming shapes these are the usual operations.

An operation on operands whose shapes do not fit has no result.
-/

namespace TermEmbedding

/-- Why an operation on arrays has no result. -/
inductive LinearError where
  /-- The shapes of the operands do not fit. -/
  | shape
  /-- An operand has no inverse or is no square matrix. -/
  | degenerate
  /-- An operand has no root. -/
  | indefinite
  /-- Single numbers are expected where an array has larger parts, or none. -/
  | parts
deriving DecidableEq, Inhabited

namespace Tensor

variable {K : Type}

/-! ## Entry by entry -/

def map (f : K → K) (t : Tensor K) : Tensor K where
  shape := t.shape
  entries := t.entries.map f
  size_eq := by simpa using t.size_eq

@[simp] theorem shape_map (f : K → K) (t : Tensor K) : (t.map f).shape = t.shape := rfl

def transpose [Zero K] (t : Tensor K) : Tensor K :=
  tabulate t.shape.reverse fun index ↦ t.get index.reverse

@[simp] theorem shape_transpose [Zero K] (t : Tensor K) : t.transpose.shape = t.shape.reverse := rfl

def identity [Zero K] [One K] (n : Nat) : Tensor K :=
  tabulate [n, n] fun index ↦ if index[0]? = index[1]? then 1 else 0

@[simp] theorem shape_identity [Zero K] [One K] (n : Nat) :
    (identity n : Tensor K).shape = [n, n] := rfl

/-! ## Stretching -/

/-- The common length of two axes, one of which may have to be stretched. -/
def commonAxis? (m n : Nat) : Option Nat :=
  if m = n ∨ n = 1 then some m else if m = 1 then some n else none

/-- The common shape of two arrays, axes counted from the last one. -/
def commonShape? (s u : List Nat) : Option (List Nat) :=
  (go s.reverse u.reverse).map List.reverse
where
  /-- The common shape of two shapes that begin with their last axes. -/
  go : List Nat → List Nat → Option (List Nat)
    | [], u => some u
    | s, [] => some s
    | m :: s, n :: u => do
      let axis ← commonAxis? m n
      return axis :: (← go s u)

/-- The index in an array of the given shape that corresponds to an index in a stretched one. -/
def stretched (shape index : List Nat) : List Nat :=
  (shape.zip (index.drop (index.length - shape.length))).map fun (n, i) ↦ if n = 1 then 0 else i

def add [Zero K] [Add K] (a b : Tensor K) : Except LinearError (Tensor K) :=
  match commonShape? a.shape b.shape with
  | none => .error .shape
  | some shape =>
    .ok (tabulate shape fun index ↦
      a.get (stretched a.shape index) + b.get (stretched b.shape index))

/-! ## Products -/

def sumBelow [Zero K] [Add K] (n : Nat) (f : Nat → K) : K :=
  (List.range n).foldl (fun sum k ↦ sum + f k) 0

/-- A shape as that of a stack of matrices: the axes in front, the rows and the columns. -/
def asStack? (shape : List Nat) : Option (List Nat × Nat × Nat) :=
  match shape.reverse with
  | columns :: rows :: front => some (front.reverse, rows, columns)
  | _ => none

/-- The left factor of a product, with a vector as a row. -/
def asLeft (a : Tensor K) : Tensor K :=
  match h : a.shape with
  | [n] => ⟨[1, n], a.entries, by rw [a.size_eq, h]; simp⟩
  | _ => a

/-- The right factor of a product, with a vector as a column. -/
def asRight (a : Tensor K) : Tensor K :=
  match h : a.shape with
  | [n] => ⟨[n, 1], a.entries, by rw [a.size_eq, h]; simp⟩
  | _ => a

/-- The product of two stacks of matrices. -/
def stackProduct [Zero K] [Add K] [Mul K] (a b : Tensor K) : Except LinearError (Tensor K) :=
  match asStack? a.shape, asStack? b.shape with
  | some (aFront, m, k), some (bFront, k', n) =>
    match commonShape? aFront bFront with
    | some front =>
      if k = k' then
        .ok (tabulate (front ++ [m, n]) fun index ↦
          let place := index.take front.length
          let row := (index.drop front.length).take 1
          let column := index.drop (front.length + 1)
          sumBelow k fun l ↦
            a.get (stretched aFront place ++ row ++ [l]) *
              b.get (stretched bFront place ++ l :: column))
      else .error .shape
    | none => .error .shape
  | _, _ => .error .shape

def matmul [Zero K] [Add K] [Mul K] (a b : Tensor K) : Except LinearError (Tensor K) := do
  let product ← stackProduct a.asLeft b.asRight
  let shape :=
    match asStack? product.shape with
    | none => product.shape
    | some (front, m, n) =>
      front ++ (if a.shape.length = 1 then [] else [m]) ++ if b.shape.length = 1 then [] else [n]
  match product.reshape? shape with
  | some result => return result
  | none => throw .shape

/-! ## Stacks -/

/-- Arrays of one shape along a new first axis. -/
def stack [Zero K] : List (Tensor K) → Except LinearError (Tensor K)
  | [] => throw .shape
  | first :: rest =>
    if rest.all (·.shape = first.shape) then
      .ok (tabulate ((rest.length + 1) :: first.shape) fun index ↦
        ((first :: rest)[index.headD 0]?.map (·.get index.tail)).getD 0)
    else .error .shape

end Tensor

end TermEmbedding
