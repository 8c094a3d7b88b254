import TermEmbedding.Expression.Error
import TermEmbedding.Term

/-!
# Expressions

An expression is a reference or an application. What stands in the place of the function is a type
of its own: a pointer or again an application. A vector can thus be written in that place, but it
cannot be built into a tree there.

Applications take one argument. A function followed by several arguments is applied to them one
after the other, so `(f a b c)` stands for `(((f a) b) c)`.
-/

namespace TermEmbedding

mutual

/-- What is applied. -/
inductive Callee (K : Type) where
  | term (pointer : TermPointer)
  | application (callee : Callee K) (argument : Expression K)

/-- What is evaluated. -/
inductive Expression (K : Type) where
  | reference (r : TermReference K)
  | application (callee : Callee K) (argument : Expression K)

end

variable {K : Type}

instance : Inhabited (Expression K) := ⟨.reference (.vector 0 [] .anywhere)⟩

/-- An expression as something to apply, unless it is a vector. -/
def Expression.callee? : Expression K → Option (Callee K)
  | reference (.function p) => some (.term p)
  | reference (.vector _ _ _) => none
  | application f x => some (.application f x)

/-- A function applied to arguments one after the other. -/
def Callee.applyAll (f : Callee K) (argument : Expression K) : List (Expression K) → Expression K
  | [] => .application f argument
  | next :: rest => applyAll (.application f argument) next rest

/-- The application that a list of expressions stands for: the first one applied to the others. -/
def Expression.ofParts : List (Expression K) → Except ReadError (Expression K)
  | [] => throw .emptyExpression
  | [_] => throw .singleton
  | head :: first :: rest =>
    match head.callee? with
    | none => throw .vectorApplied
    | some f => return f.applyAll first rest

/-! ## How expressions are written -/

mutual

def Callee.text : Callee Float → Text
  | .term p => p.text
  | .application f x => '(' :: f.text ++ ' ' :: x.text ++ [')']

def Expression.text : Expression Float → Text
  | .reference r => r.text
  | .application f x => '(' :: f.text ++ ' ' :: x.text ++ [')']

end

mutual

/-- Whether two places of functions hold the same tree, up to equality of keys. -/
def Callee.same [BEq K] : Callee K → Callee K → Bool
  | .term p, .term q => p = q
  | .application f x, .application g y => f.same g && x.same y
  | _, _ => false

/-- Whether two expressions are the same tree, up to equality of keys. -/
def Expression.same [BEq K] : Expression K → Expression K → Bool
  | .reference r, .reference s => r == s
  | .application f x, .application g y => f.same g && x.same y
  | _, _ => false

end

end TermEmbedding
