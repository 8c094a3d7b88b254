import TermEmbedding.Decimal.Literal
import TermEmbedding.Json.Conversion

/-!
# Hexadecimal notation

Where a value has to be given digit for digit it is written in hexadecimal: the bytes of a file, two
digits each, or a floating-point number, which has a power of two for its exponent. No digit of such
a number is lost when it is read, as long as it has no more of them than the format holds.

Unlike a decimal number, which is infinite when it is too large, a hexadecimal one beyond every
finite value is refused.
-/

namespace TermEmbedding

namespace Hexadecimal

/-- The value of a digit. Letters count in either case. -/
def digitValue? (c : Char) : Option Nat :=
  if c.isDigit then some (c.toNat - '0'.toNat)
  else if 'a' ≤ c ∧ c ≤ 'f' then some (c.toNat - 'a'.toNat + 10)
  else if 'A' ≤ c ∧ c ≤ 'F' then some (c.toNat - 'A'.toNat + 10)
  else none

def isDigit (c : Char) : Bool := (digitValue? c).isSome

def ofDigits (digits : Text) : Nat :=
  digits.foldl (fun n c ↦ 16 * n + (digitValue? c).getD 0) 0

/-- The bytes that pairs of digits stand for. -/
def bytes : Text → Bytes
  | high :: low :: rest => UInt8.ofNat (ofDigits [high, low]) :: bytes rest
  | _ => []

/-! ## Floating-point numbers -/

/-- The floating-point number nearest to `n * 2 ^ exponent`. The magnitude is looked at first, so no
power is computed that cannot matter. -/
def scaled (n : Nat) (exponent : Int) : Float :=
  if n = 0 then 0
  else if 1100 < n.log2 + exponent then 1 / 0
  else if n.log2 + exponent < -1100 then 0
  else if 0 ≤ exponent then Float.ofScientific (n <<< exponent.toNat) false 0
  else Float.ofScientific (n * Nat.pow 5 exponent.natAbs) true exponent.natAbs

/-- Reads a number without a sign, up to the end of a text in small letters: a mark that may be
missing, digits with at most one point among them and an exponent. -/
def digits? (t : Text) : Option Float :=
  let t := if ['0', 'x'].isPrefixOf t then t.drop 2 else t
  let whole := t.takeWhile isDigit
  let (fraction, rest) := match t.dropWhile isDigit with
    | '.' :: rest => (rest.takeWhile isDigit, rest.dropWhile isDigit)
    | rest => ([], rest)
  let value (exponent : Int) : Float :=
    scaled (ofDigits (whole ++ fraction)) (exponent - 4 * (fraction.length : Int))
  if whole ++ fraction = [] then none
  else match rest with
    | [] => some (value 0)
    | 'p' :: rest => (Decimal.exponent? rest).map value
    | _ => none

/-- Reads a magnitude: a word for what is not finite, or digits that stand for a finite number. -/
def magnitude (t : Text) : Except DataFault Float :=
  if t = "inf".toList ∨ t = "infinity".toList then return 1 / 0
  else if t = "nan".toList then return 0 / 0
  else match digits? t with
    | none => throw .value
    | some x => if x.isInf then throw .unbounded else return x

/-- The blanks that may stand around a number. -/
def isGap (c : Char) : Bool := c = ' ' || ('\t' ≤ c && c ≤ '\r')

/-- Reads a floating-point number. -/
def read (t : Text) : Except DataFault Float :=
  let stripped := ((t.dropWhile isGap).reverse.dropWhile isGap).reverse
  match stripped.map Char.toLower with
  | '-' :: t => (magnitude t).map (- ·)
  | '+' :: t => magnitude t
  | t => magnitude t

end Hexadecimal

end TermEmbedding
