import TermEmbedding.Text.Numeral

/-!
# Arrays of numbers

The entries of an array are stored row by row. Matrices are the arrays of rank two and vectors those
of rank one, but stored models may hold arrays of any rank, and whether an operation is defined on
its operands is a question of their shapes. The shape is therefore part of the value, and an array
has exactly as many entries as its shape asks for.

Arrays are built from a function on indices. Whatever an operation does to entries is said there,
index by index, and nothing is said about the order of storage except in the two operations that
are about it: reading off all entries and giving them a new shape.
-/

namespace TermEmbedding

/-- The number of entries of the arrays of a shape. -/
def Tensor.volume : List Nat → Nat
  | [] => 1
  | n :: shape => n * volume shape

/-- An array of numbers of some shape. -/
structure Tensor (K : Type) where
  shape : List Nat
  entries : Array K
  size_eq : entries.size = Tensor.volume shape

namespace Tensor

variable {K : Type}

@[simp] theorem volume_nil : volume [] = 1 := rfl

@[simp] theorem volume_cons (n : Nat) (shape : List Nat) :
    volume (n :: shape) = n * volume shape := rfl

/-! ## Indices -/

/-- The index of the entry at a position of the storage. -/
def unravel : List Nat → Nat → List Nat
  | [], _ => []
  | _ :: shape, position => position / volume shape :: unravel shape (position % volume shape)

/-- The position of an entry in the storage. -/
def ravel : List Nat → List Nat → Nat
  | _ :: shape, i :: index => i * volume shape + ravel shape index
  | _, _ => 0

def get [Zero K] (t : Tensor K) (index : List Nat) : K := t.entries.getD (ravel t.shape index) 0

/-- The array of a shape whose entries are given index by index. -/
def tabulate (shape : List Nat) (f : List Nat → K) : Tensor K where
  shape := shape
  entries := Array.ofFn fun position : Fin (volume shape) ↦ f (unravel shape position)
  size_eq := Array.size_ofFn

@[simp] theorem shape_tabulate (shape : List Nat) (f : List Nat → K) :
    (tabulate shape f).shape = shape := rfl

/-! ## Vectors and storage order -/

def ofList (xs : List K) : Tensor K where
  shape := [xs.length]
  entries := xs.toArray
  size_eq := by simp

def toList (t : Tensor K) : List K := t.entries.toList

@[simp] theorem shape_ofList (xs : List K) : (ofList xs).shape = [xs.length] := rfl

@[simp] theorem toList_ofList (xs : List K) : (ofList xs).toList = xs := rfl

@[simp] theorem length_toList (t : Tensor K) : t.toList.length = volume t.shape := by
  simpa [toList] using t.size_eq

/-- The same entries as one vector. -/
def flatten (t : Tensor K) : Tensor K := ofList t.toList

@[simp] theorem shape_flatten (t : Tensor K) : t.flatten.shape = [volume t.shape] := by
  simp [flatten]

/-- The same entries in another shape, if it asks for as many of them. -/
def reshape? (t : Tensor K) (shape : List Nat) : Option (Tensor K) :=
  if h : volume t.shape = volume shape then some ⟨shape, t.entries, t.size_eq.trans h⟩ else none

theorem shape_of_reshape? {t u : Tensor K} {shape : List Nat} (h : t.reshape? shape = some u) :
    u.shape = shape := by
  grind [reshape?]

/-- The parts of an array along its first axis as numbers: the entries of a vector. The parts of any
other array are no numbers, and a single number has no parts; but of an array whose first axis is
empty nothing is asked. -/
def toVector? (t : Tensor K) : Option (List K) :=
  match t.shape with
  | [_] => some t.toList
  | 0 :: _ => some []
  | _ => none

@[simp] theorem toVector?_ofList (xs : List K) : (ofList xs).toVector? = some xs := rfl

/-! ## Shapes as text -/

def shapeText (shape : List Nat) : Text :=
  match shape with
  | [n] => '(' :: numeral n ++ [',', ')']
  | _ => '(' :: Text.join [',', ' '] (shape.map numeral) ++ [')']

end Tensor

end TermEmbedding
