/-!
# Lengths of vectors

The length of a vector is the root of a sum of squares, and squares leave the range of the numbers
long before the length does. The entries are therefore brought near to one before they are squared.
That is done by a power of two, which costs no digit, so wherever the plain sum of squares stays in
range the outcome is the same.
-/

namespace TermEmbedding

def inner (xs ys : List Float) : Float := (xs.zip ys).foldl (fun sum (x, y) ↦ sum + x * y) 0

def greatestMagnitude (xs : List Float) : Float :=
  xs.foldl (fun best x ↦ if best < x.abs then x.abs else best) 0

/-- The power of two that brings the greatest of some numbers between a half and one. -/
def leveller (xs : List Float) : Int := -(greatestMagnitude xs).frExp.2

/-- A vector times a power of two. -/
def levelled (exponent : Int) (xs : List Float) : List Float := xs.map (·.scaleB exponent)

def norm (xs : List Float) : Float :=
  let exponent := leveller xs
  let ys := levelled exponent xs
  (inner ys ys).sqrt.scaleB (-exponent)

end TermEmbedding
