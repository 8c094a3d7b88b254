import TermEmbedding.Text.Numeral
import TermEmbedding.Text.Quoted

/-!
# What can be wrong with an expression

Each cause carries the text that was left to read where it was found. The last one is of another
kind: a numeral may be well formed and still too long to be read as a number. No grammar rule is
broken then, and the failure is not reported as one of reading.
-/

namespace TermEmbedding

/-- Why a text could not be read as an expression. -/
inductive ReadError where
  | emptyExpression
  | singleton
  | vectorApplied
  | unbound (name : Text)
  | emptyAtom
  | noLeftParen (text : Text)
  | noRightParen (text : Text)
  | noPound (text : Text)
  | referenceEnds (text : Text)
  | noDigits (text : Text)
  | noTermIndex (text : Text)
  | noLeftBracket (text : Text)
  | noRightBracket (text : Text)
  | badNumber (entry text : Text)
  | noIdentifier (text : Text)
  | trailing (rest text : Text)
  | numeralTooLong (digits : Nat)
deriving DecidableEq, Inhabited

namespace ReadError

def message : ReadError → Text
  | emptyExpression => "Empty expression".toList
  | singleton => "Singleton expressions are disallowed".toList
  | vectorApplied => "Cannot apply vector as a function".toList
  | unbound name => "No identifier named ".toList ++ name ++ " in scope".toList
  | emptyAtom => "Cannot parse atom: empty text".toList
  | noLeftParen text => "Missing left paren for sub-expression: ".toList ++ text
  | noRightParen text =>
    "Ran out of input while parsing s-expression (missing right paren): ".toList ++ text
  | noPound text => "Missing pound sign for reference: ".toList ++ text
  | referenceEnds text => "Ran out of input while parsing reference: ".toList ++ text
  | noDigits text => "Malformed integer (no digits) in: ".toList ++ text
  | noTermIndex text => "Cannot parse term index: ".toList ++ text
  | noLeftBracket text => "Missing left bracket for vector: ".toList ++ text
  | noRightBracket text => "Missing right bracket for vector: ".toList ++ text
  | badNumber entry text => "Malformed float: ".toList ++ entry.quoted ++ " in ".toList ++ text
  | noIdentifier text => "Expected an identifier: ".toList ++ text
  | trailing rest text =>
    "Unexpected trailing input ".toList ++ rest.quoted ++ " after: ".toList ++ text
  | numeralTooLong digits =>
    "Exceeds the limit (4300 digits) for integer string conversion: value has ".toList ++
      numeral digits ++ " digits; use sys.set_int_max_str_digits() to increase the limit".toList

end ReadError

end TermEmbedding
