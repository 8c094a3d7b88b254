/-!
# The numbers that round to a floating-point value

A finite floating-point value stands for every real number that rounds to it: those between the
halfway points to its two neighbours, the halfway points themselves included when the significand is
even. A decimal numeral identifies the value exactly when it lies in that span, so everything that
is to be known for writing a value with few digits is the span.

## A common decimal grid

A binary fraction has a finite decimal expansion, since `2⁻ᵘ = 5ᵘ · 10⁻ᵘ`. The value and both ends
of its span are therefore natural numbers of units of one power of ten, and all comparisons are
comparisons of naturals.
-/

namespace TermEmbedding

/-- The bit that stands in front of the stored part of a significand. -/
def leadingBit : Nat := 1 <<< 52

/-- The magnitude of a finite value as `significand * 2 ^ q`. -/
def binaryForm (x : Float) : Nat × Int :=
  let bits : Nat := x.toBits.toNat
  let fraction : Nat := bits % leadingBit
  let biased : Nat := bits / leadingBit % 2048
  if biased = 0 then (fraction, -1074) else (leadingBit + fraction, (biased : Int) - 1075)

def truncate (x : Float) : Int :=
  let (significand, q) := binaryForm x
  let magnitude : Nat :=
    if 0 ≤ q then significand <<< q.toNat else significand >>> (-q).toNat
  if x < 0 then -magnitude else magnitude

/-- The span of the reals that round to one positive value, in units of a power of ten. -/
structure Span where
  /-- The lower end. -/
  low : Nat
  /-- The value itself. -/
  value : Nat
  /-- The upper end. -/
  high : Nat
  /-- The unit is `10 ^ exponent`. -/
  exponent : Int
  /-- Whether the ends belong to the span. -/
  closed : Bool

namespace Span

def contains (s : Span) (d : Nat) : Bool :=
  (s.low < d && d < s.high) || (s.closed && (d = s.low || d = s.high))

/-- The span around `significand * 2 ^ q`. The neighbour below is at half the usual distance when
the value starts a new binade. -/
def around (significand : Nat) (q : Int) (startsBinade : Bool) : Span :=
  let quarter := q - 2
  let scale := if 0 ≤ quarter then Nat.pow 2 quarter.toNat else Nat.pow 5 (-quarter).toNat
  { low := (4 * significand - if startsBinade then 1 else 2) * scale
    value := 4 * significand * scale
    high := (4 * significand + 2) * scale
    exponent := min quarter 0
    closed := significand % 2 = 0 }

def ofFloat (x : Float) : Span :=
  let (significand, q) := binaryForm x
  around significand q (significand = leadingBit && q ≠ -1074)

end Span

end TermEmbedding
