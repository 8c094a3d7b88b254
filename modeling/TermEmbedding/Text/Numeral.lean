import TermEmbedding.Text.Blank
import TermEmbedding.Text.Digit

/-!
# Integers as text

Integers have no bound, but their numerals do: a numeral of more than 4300 digits, leading zeros
counted, is neither read nor written. The bound is a rule of its own beside the grammar: where it
is exceeded the reader of expressions reports something else than a malformed expression.

Two grammars are in use. Identifiers of types and terms are plain runs of ASCII digits. Integers in
parameters, seeds and type numbers may have blanks around them, a sign, digits of any script and
single underscores between digits.
-/

namespace TermEmbedding

def numeral (n : Nat) : Text := Nat.toDigits 10 n

def integerNumeral (i : Int) : Text :=
  if i < 0 then '-' :: numeral i.natAbs else numeral i.natAbs

/-- The number a run of ASCII digits stands for. -/
def ofNumeral (digits : Text) : Nat := Nat.ofDigitChars 10 digits 0

@[simp] theorem ofNumeral_numeral (n : Nat) : ofNumeral (numeral n) = n :=
  Nat.ofDigitChars_ten_toDigits

/-- The longest numeral that is read or written. -/
def numeralLimit : Nat := 4300

/-- Whether an integer is small enough to be written. -/
def hasNumeral (i : Int) : Bool := (numeral i.natAbs).length ≤ numeralLimit

/-! ## Integers of parameters -/

/-- The blanks allowed around a number. The information separators are not among them. -/
def isNumberBlank (c : Char) : Bool :=
  isBlank c && !(0x1C ≤ c.toNat && c.toNat ≤ 0x1F)

/-- A text without the blanks around a number. -/
def stripNumber (t : Text) : Text :=
  ((t.dropWhile isNumberBlank).reverse.dropWhile isNumberBlank).reverse

/-- The values of a non-empty run of digits in which single underscores may stand between two
digits. -/
def digitRun? : Text → Option (List Nat)
  | [] => none
  | [c] => (digitValue? c).map ([·])
  | c :: '_' :: rest => do
    let d ← digitValue? c
    let ds ← digitRun? rest
    return d :: ds
  | c :: rest => do
    let d ← digitValue? c
    let ds ← digitRun? rest
    return d :: ds

/-- A magnitude from its digits, if they are not too many. -/
def magnitude? (digits : Text) : Option Nat := do
  let ds ← digitRun? digits
  if ds.length ≤ numeralLimit then some (ds.foldl (fun n d ↦ 10 * n + d) 0) else none

/-- Reads an integer as it is written in parameters and seeds. -/
def integer? (t : Text) : Option Int :=
  match stripNumber t with
  | '-' :: digits => (magnitude? digits).map fun n ↦ -(n : Int)
  | '+' :: digits => (magnitude? digits).map Int.ofNat
  | digits => (magnitude? digits).map Int.ofNat

end TermEmbedding
