import TermEmbedding.Text.Basic

/-!
# Blank characters

One notion of white space serves the whole program: it separates the parts of an expression, the
words of a command line and the numbers of a vector. It is wider than the ASCII one: besides the
ASCII controls for tabs and lines it has the four information separators, the next-line control and
every space or line mark of Unicode. A zero-width space is no blank.
-/

namespace TermEmbedding

/-- The blank code points, as ascending ranges with both ends included. -/
def blankRanges : List (Nat × Nat) :=
  [(0x09, 0x0D), (0x1C, 0x20), (0x85, 0x85), (0xA0, 0xA0), (0x1680, 0x1680), (0x2000, 0x200A),
    (0x2028, 0x2029), (0x202F, 0x202F), (0x205F, 0x205F), (0x3000, 0x3000)]

/-- White space between the parts of expressions and command lines. -/
def isBlank (c : Char) : Bool :=
  blankRanges.any fun r ↦ r.1 ≤ c.toNat && c.toNat ≤ r.2

namespace Text

def stripStart (t : Text) : Text := t.dropWhile isBlank

def stripEnd (t : Text) : Text := (t.reverse.dropWhile isBlank).reverse

def strip (t : Text) : Text := stripEnd (stripStart t)

/-- Dropping blanks never lengthens a text, so a reader may skip them between two steps. -/
theorem length_stripStart_le (t : Text) : (stripStart t).length ≤ t.length :=
  (List.dropWhile_sublist isBlank).length_le

end Text

end TermEmbedding
