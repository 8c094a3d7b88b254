import TermEmbedding.Text.CodePoint
import TermEmbedding.Text.Printable

/-!
# Quoted text

Messages show a piece of input between quotes, so that blanks at its ends and characters without a
visible form can be told. The quote is the apostrophe, unless the text holds apostrophes and no
double quote.
-/

namespace TermEmbedding

/-- `width` hexadecimal digits at least, in lower case. -/
def hexadecimal (width n : Nat) : Text := (Nat.toDigits 16 n).leftpad width '0'

namespace CodePoint

/-- The escape of a code point without a visible form, as short as its number allows. -/
def escape (p : CodePoint) : Text :=
  if p.value < 0x100 then '\\' :: 'x' :: hexadecimal 2 p.value
  else if p.value < 0x10000 then '\\' :: 'u' :: hexadecimal 4 p.value
  else '\\' :: 'U' :: hexadecimal 8 p.value

/-- One code point between quotes of the given kind. -/
def quotedBy (quote : Char) (p : CodePoint) : Text :=
  match p with
  | surrogate _ => p.escape
  | char '\t' => ['\\', 't']
  | char '\n' => ['\\', 'n']
  | char '\r' => ['\\', 'r']
  | char c => if c = quote ∨ c = '\\' then ['\\', c] else if isPrintable c then [c] else p.escape

end CodePoint

/-- The quote for a list of code points. -/
def quoteFor (ps : List CodePoint) : Char :=
  if CodePoint.char '\'' ∈ ps ∧ CodePoint.char '"' ∉ ps then '"' else '\''

def quotedPoints (ps : List CodePoint) : Text :=
  let quote := quoteFor ps
  quote :: ps.flatMap (CodePoint.quotedBy quote) ++ [quote]

def Text.quoted (t : Text) : Text := quotedPoints t.codePoints

end TermEmbedding
