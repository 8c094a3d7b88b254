import TermEmbedding.Text.Numeral

/-!
# Kinds of types

A type is a vector space of a fixed dimension, or a space of functions from one type to another. A
function is represented by a matrix that maps the features of an argument, which are its entries and
a constant, to the result. The result of a function may be a function itself and is then given in
the compressed space of its type, which may be smaller than the full one. So for a type of functions

  full dimension = compressed dimension of results × (full dimension of arguments + 1).

## Order of definition

Types are numbered in the order in which they are defined, and a function type refers to earlier
ones. Whatever follows the structure of a type (its dimensions, its text) is therefore computed for
all types in one pass, each from what is known of those before it. The pass needs no recursion along
references, so it ends even for a list of kinds that refer forward.
-/

namespace TermEmbedding

/-- What one type is, before it is known to make sense. -/
inductive Declaration where
  | vector (dimension : Int)
  | function (argument result : Int) (compressed : Option Int)
deriving DecidableEq, Inhabited

/-- What one type is. -/
inductive Kind where
  | vector (dimension : Nat)
  | function (argument result : Nat) (compressed : Option Nat)
deriving DecidableEq, Inhabited

/-- The dimensions of the spaces of one type. -/
structure Dimensions where
  /-- The dimension of the vectors that represent terms. -/
  full : Nat
  /-- The dimension in which functions return them. -/
  compressed : Nat
deriving DecidableEq, Inhabited

namespace Kind

def declaration : Kind → Declaration
  | vector d => .vector d
  | function argument result compressed =>
    .function argument result (compressed.map Int.ofNat)

def isFunction : Kind → Bool
  | vector _ => false
  | function _ _ _ => true

/-- The full dimension of a kind, where the dimensions of earlier types are known. -/
def full (known : List Dimensions) : Kind → Nat
  | vector d => d
  | function argument result _ =>
    (known.getD result default).compressed * ((known.getD argument default).full + 1)

/-- The dimensions of a kind, where those of earlier types are known. -/
def dimensions (known : List Dimensions) (kind : Kind) : Dimensions :=
  match kind with
  | vector d => ⟨d, d⟩
  | function _ _ compressed => ⟨kind.full known, compressed.getD (kind.full known)⟩

/-- The text of a kind, where those of earlier types are known. -/
def text (known : List Text) : Kind → Text
  | vector d => "Vec(".toList ++ numeral d ++ [')']
  | function argument result _ =>
    '(' :: known.getD argument [] ++ " -> ".toList ++ known.getD result [] ++ [')']

/-- The dimensions of all types of a list. -/
def allDimensions (kinds : List Kind) : List Dimensions :=
  kinds.foldl (fun known kind ↦ known ++ [kind.dimensions known]) []

/-- The texts of all types of a list. -/
def allTexts (kinds : List Kind) : List Text :=
  kinds.foldl (fun known kind ↦ known ++ [kind.text known]) []

@[simp] theorem allDimensions_nil : allDimensions [] = [] := rfl

theorem allDimensions_snoc (kinds : List Kind) (kind : Kind) :
    allDimensions (kinds ++ [kind]) =
      allDimensions kinds ++ [kind.dimensions (allDimensions kinds)] := by
  simp [allDimensions, List.foldl_append]

@[simp] theorem length_allDimensions (kinds : List Kind) :
    (allDimensions kinds).length = kinds.length := by
  have h : ∀ (kinds : List Kind) (known : List Dimensions),
      (kinds.foldl (fun known kind ↦ known ++ [kind.dimensions known]) known).length =
        known.length + kinds.length := by
    intro kinds
    induction kinds with
    | nil => simp
    | cons kind rest ih =>
      intro known
      simp only [List.foldl_cons, ih, List.length_append, List.length_cons, List.length_nil]
      omega
  simpa [allDimensions] using h kinds []

/-! ## Kinds that make sense -/

/-- Whether a kind makes sense behind types whose dimensions are known: it is not empty, it refers
to those types only, and it is not compressed to more than it has. -/
def Admissible (known : List Dimensions) : Kind → Prop
  | vector d => 1 ≤ d
  | function argument result compressed =>
    argument < known.length ∧ result < known.length ∧
      ∀ c ∈ compressed, 1 ≤ c ∧ c ≤ (function argument result compressed).full known

/-- Lists of kinds each of which makes sense behind those before it. -/
inductive WellFormed : List Kind → Prop
  | nil : WellFormed []
  | snoc {kinds : List Kind} {kind : Kind} :
      WellFormed kinds → Admissible (allDimensions kinds) kind → WellFormed (kinds ++ [kind])

end Kind

end TermEmbedding
