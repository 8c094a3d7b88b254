import TermEmbedding.Text.Numeral

/-!
# Reading decimal numbers

A decimal number is a sign, digits with at most one point among them, at least one digit in all, and
an exponent. Digits may come from any script and single underscores may stand between two digits;
the words for the infinities and for what is no number are accepted in either case. A vector literal
takes less: only finite numbers, without underscores.

The value is the nearest floating-point number. Its magnitude is looked at before it is computed: a
numeral beyond every finite value is infinite and one below every positive value is zero, however
large its exponent.
-/

namespace TermEmbedding

namespace Decimal

/-- The floating-point number nearest to `coefficient * 10 ^ exponent`, where the coefficient has
`size` digits. -/
def scaled (coefficient size : Nat) (exponent : Int) : Float :=
  if coefficient = 0 then 0
  else if 400 < size + exponent then 1 / 0
  else if size + exponent < -400 then 0
  else Float.ofScientific coefficient (exponent < 0) exponent.natAbs

/-- The number whose digits before and after the point are given, with an exponent. -/
def assemble (whole fraction : Text) (exponent : Int) : Float :=
  let digits := (whole ++ fraction).dropWhile (· = '0')
  scaled (ofNumeral digits) digits.length (exponent - fraction.length)

/-- Reads an exponent after its mark: a sign and ASCII digits up to the end. -/
def exponent? (t : Text) : Option Int :=
  let magnitude (digits : Text) : Option Nat :=
    if digits ≠ [] ∧ digits.all Char.isDigit then some (ofNumeral digits) else none
  match t with
  | '-' :: digits => (magnitude digits).map fun n ↦ -(n : Int)
  | '+' :: digits => (magnitude digits).map Int.ofNat
  | digits => (magnitude digits).map Int.ofNat

/-- Reads a magnitude in ASCII digits, up to the end of the text. -/
def magnitude? (t : Text) : Option Float :=
  let whole := t.takeWhile Char.isDigit
  let (fraction, rest) := match t.dropWhile Char.isDigit with
    | '.' :: rest => (rest.takeWhile Char.isDigit, rest.dropWhile Char.isDigit)
    | rest => ([], rest)
  if whole ++ fraction = [] then none
  else match rest with
    | [] => some (assemble whole fraction 0)
    | mark :: rest =>
      if mark = 'e' ∨ mark = 'E' then (exponent? rest).map (assemble whole fraction) else none

/-- The words for what is not finite, and magnitudes in ASCII digits. -/
def wordOrMagnitude? (t : Text) : Option Float :=
  let word := t.map Char.toLower
  if word = ['i', 'n', 'f'] ∨ word = ['i', 'n', 'f', 'i', 'n', 'i', 't', 'y'] then some (1 / 0)
  else if word = ['n', 'a', 'n'] then some (0 / 0)
  else magnitude? t

def plainDigits (t : Text) : Text :=
  t.map fun c ↦ match digitValue? c with
    | some d => Nat.digitChar d
    | none => c

/-- Drops the underscores of a text, each of which has to stand between two digits. -/
def joinDigits? : Text → Option Text
  | [] => some []
  | '_' :: _ => none
  | c :: '_' :: d :: rest =>
    if c.isDigit ∧ d.isDigit then (joinDigits? (d :: rest)).map (c :: ·) else none
  | c :: rest => (joinDigits? rest).map (c :: ·)

/-- Reads a decimal number in the wide form. -/
def number? (t : Text) : Option Float := do
  match ← joinDigits? (plainDigits (stripNumber t)) with
  | '-' :: rest => (wordOrMagnitude? rest).map (- ·)
  | '+' :: rest => wordOrMagnitude? rest
  | rest => wordOrMagnitude? rest

/-- Reads an entry of a vector: a finite number without underscores. -/
def read? (t : Text) : Option Float :=
  if '_' ∈ t then none else (number? t).filter Float.isFinite

end Decimal

end TermEmbedding
