import TermEmbedding.Decimal.Span

/-!
# The fewest digits that identify a value

Of all decimal numerals in the span of a value the shortest is wanted, and of those of that length
the nearest to the value. Numerals of fewer digits are the multiples of a higher power of ten, so
the search tries the grids from the coarsest one down. On each grid only the two neighbours of the
value can be nearest, and at the end stands the value's own finite expansion, which lies in the
span: the search has no failure to speak of.
-/

namespace TermEmbedding

namespace Span

/-- The multiple of `grid` in the span that is nearest to the value, the even one of two equally
near. -/
def nearest? (s : Span) (grid : Nat) : Option Nat :=
  let below := s.value / grid * grid
  let above := below + grid
  match s.contains below, s.contains above with
  | true, true =>
    if 2 * s.value < below + above then some below
    else if below + above < 2 * s.value then some above
    else if s.value / grid % 2 = 0 then some below
    else some above
  | true, false => some below
  | false, true => some above
  | false, false => none

/-- The nearest number of the span on the coarsest of the grids `10 ^ t`, …, `10`, `1`. -/
def shortestFrom (s : Span) : Nat → Nat
  | 0 => s.value
  | t + 1 => (s.nearest? (Nat.pow 10 (t + 1))).getD (s.shortestFrom t)

/-- The number of the span with the fewest digits before its trailing zeros. -/
def shortest (s : Span) : Nat :=
  s.shortestFrom ((Nat.toDigits 10 s.value).length - 1)

end Span

end TermEmbedding
