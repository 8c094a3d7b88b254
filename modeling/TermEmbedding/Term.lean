import TermEmbedding.Decimal.Layout

/-!
# Terms and references to them

A term of a function type is known by a pointer: the type and a running number, counted apart for
the primitive terms, which a context declares, and for the others, which evaluation brings into
being. A term of a vector type has no name: it is its entries. What an expression reduces to is
therefore a reference, which is one of the two.

The model is generic in the numbers that vectors hold. It runs on floating-point numbers, where two
vectors are one key of a table when their entries compare equal: the two zeros are one key although
they are written differently.

## What is no number

Floating-point arithmetic can leave an entry that is no number, and that does not even compare equal
to itself. A vector with such an entry is one key with itself and with no other vector, so it has to
be told apart from vectors with the same entries that came up elsewhere. It carries a mark of where
it came up; vectors that hold numbers only carry none.
-/

namespace TermEmbedding

/-- The number of a type in its context. Numbers that belong to no type can be asked for. -/
abbrev TypeId := Int

/-- The place of a term among the terms of its type. -/
inductive TermIndex where
  | primitive (n : Nat)
  | nonprimitive (n : Nat)
deriving DecidableEq, Inhabited

/-- The name of one function term. -/
structure TermPointer where
  typeId : TypeId
  index : TermIndex
deriving DecidableEq, Inhabited

/-- Where a vector came up, if that matters. -/
inductive Occurrence where
  /-- It does not matter. -/
  | anywhere
  /-- As the result of an application, the one in the given row of the table of results. -/
  | result (row : Nat)
  /-- As what a name was bound to, where such bindings are counted. -/
  | binding (n : Nat)
deriving DecidableEq, Inhabited

/-- A function term by its name, or a vector by its entries. -/
inductive TermReference (K : Type) where
  | function (pointer : TermPointer)
  | vector (typeId : TypeId) (entries : List K) (occurrence : Occurrence)
deriving DecidableEq, Inhabited

/-! ## Equality of keys -/

namespace TermReference

variable {K : Type}

def typeId : TermReference K → TypeId
  | function pointer => pointer.typeId
  | vector typeId _ _ => typeId

/-- Whether two references are one key. -/
def same [BEq K] : TermReference K → TermReference K → Bool
  | function p, function q => p = q
  | vector t xs o, vector u ys p => t = u && (xs == ys || (o = p && o ≠ .anywhere))
  | _, _ => false

instance [BEq K] : BEq (TermReference K) := ⟨same⟩

/-- A vector that came up somewhere, with the mark of it if it needs one. -/
def vectorAt [BEq K] (occurrence : Occurrence) (typeId : TypeId) (entries : List K) :
    TermReference K :=
  .vector typeId entries (if entries.all fun x ↦ x == x then .anywhere else occurrence)

end TermReference

/-! ## How terms are written -/

/-- The running number of a term, behind the letter of its kind. -/
def TermIndex.text : TermIndex → Text
  | primitive n => 'p' :: numeral n
  | nonprimitive n => 'n' :: numeral n

def TermPointer.text (p : TermPointer) : Text := '#' :: integerNumeral p.typeId ++ p.index.text

def vectorText (xs : List Float) : Text :=
  '[' :: Text.join [',', ' '] (xs.map Decimal.write) ++ [']']

def TermReference.text : TermReference Float → Text
  | function p => p.text
  | vector typeId xs _ => '#' :: integerNumeral typeId ++ vectorText xs

end TermEmbedding
