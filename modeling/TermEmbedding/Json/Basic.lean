import TermEmbedding.Decimal.Layout
import TermEmbedding.Table
import TermEmbedding.Text.Quoted

/-!
# Data values

Contexts and their parameters are stored as JSON. The dialect is wide: integers are kept apart from
other numbers and have no bound, the infinities and what is no number have names, and strings may
hold stray surrogates. An object is a table, so a repeated name keeps its first place and its last
value.
-/

namespace TermEmbedding

/-- A value of a data file. -/
inductive Json where
  | null
  | bool (b : Bool)
  | integer (i : Int)
  | number (x : Float)
  | string (s : List CodePoint)
  | array (items : List Json)
  | object (members : List (List CodePoint × Json))
deriving Inhabited

namespace Json

/-- A string without stray surrogates. -/
def text (t : Text) : Json := string t.codePoints

/-- A string of the program's own as it stands in a data file. -/
def name (s : String) : List CodePoint := Text.codePoints s.toList

abbrev Members := Table (List CodePoint) Json

def Members.find? (members : Members) (name : String) : Option Json :=
  Table.get? members (Json.name name)

/-! ## How values are shown in messages -/

/-- The word for the kind of a value. -/
def kindText : Json → Text
  | null => "NoneType".toList
  | bool _ => "bool".toList
  | integer _ => "int".toList
  | number _ => "float".toList
  | string _ => "str".toList
  | array _ => "list".toList
  | object _ => "dict".toList

mutual

/-- A value as messages show it. -/
def shown : Json → Text
  | null => "None".toList
  | bool true => "True".toList
  | bool false => "False".toList
  | integer i => integerNumeral i
  | number x => Decimal.write x
  | string s => quotedPoints s
  | array items => '[' :: Text.join [',', ' '] (shownItems items) ++ [']']
  | object members => '\x7b' :: Text.join [',', ' '] (shownMembers members) ++ ['\x7d']

def shownItems : List Json → List Text
  | [] => []
  | item :: items => shown item :: shownItems items

def shownMembers : List (List CodePoint × Json) → List Text
  | [] => []
  | (name, value) :: members =>
    (quotedPoints name ++ [':', ' '] ++ shown value) :: shownMembers members

end

/-- A value as a name: a string stands for itself, any other value for what messages show. -/
def asName : Json → List CodePoint
  | string s => s
  | value => value.shown.codePoints

end Json

end TermEmbedding
