import TermEmbedding.Decimal.Shortest
import TermEmbedding.Text.Numeral

/-!
# Numbers as text

The entries of vectors are written with the fewest digits that identify them. A number whose leading
digit stands for at least `10⁻⁴` and less than `10¹⁶` is written positionally, with at least one
digit on both sides of the point; any other gets a signed exponent of at least two digits, and a
point only if there is more than one digit. The sign of zero is kept. What is no finite number is
written as `nan`, `inf` or `-inf`, which no reader of vectors accepts.
-/

namespace TermEmbedding

namespace Decimal

/-- The least exponent of a leading digit that is written positionally. -/
def positionalFrom : Int := -4

/-- The exponent of a leading digit from which on the exponent is written out. -/
def positionalBelow : Int := 16

/-- The exponent of a leading digit, with its sign. -/
def exponentText (e : Int) : Text :=
  'e' :: (if e < 0 then '-' else '+') :: (numeral e.natAbs).leftpad 2 '0'

/-- The number `0.d₁d₂… * 10 ^ point` for digits without zeros at the end. -/
def layout (digits : Text) (point : Int) : Text :=
  if positionalFrom ≤ point - 1 ∧ point - 1 < positionalBelow then
    if point ≤ 0 then '0' :: '.' :: (List.replicate (-point).toNat '0' ++ digits)
    else if digits.length ≤ point.toNat then
      digits ++ List.replicate (point.toNat - digits.length) '0' ++ ['.', '0']
    else digits.take point.toNat ++ '.' :: digits.drop point.toNat
  else match digits with
    | first :: next :: rest => first :: '.' :: next :: rest ++ exponentText (point - 1)
    | _ => digits ++ exponentText (point - 1)

/-- The text of the magnitude of a finite value. -/
def magnitudeText (x : Float) : Text :=
  let span := Span.ofFloat x
  if span.value = 0 then ['0', '.', '0']
  else
    let all := numeral span.shortest
    layout (all.reverse.dropWhile (· = '0')).reverse (all.length + span.exponent)

def write (x : Float) : Text :=
  if x.isNaN then ['n', 'a', 'n']
  else
    let magnitude := if x.isInf then ['i', 'n', 'f'] else magnitudeText x
    if x.toBits >>> 63 = 1 then '-' :: magnitude else magnitude

end Decimal

end TermEmbedding
