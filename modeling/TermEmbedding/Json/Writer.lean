import TermEmbedding.Json.Basic

/-!
# Writing data values

The written form is indented by two blanks for each level and holds ASCII only: a code point
without a visible ASCII form is escaped, in two units if it lies beyond the basic plane. What is
empty is written without a line of its own inside.
-/

namespace TermEmbedding

/-- A code point inside a string of a data file. -/
def CodePoint.inString (p : CodePoint) : Text :=
  match p with
  | char '"' => ['\\', '"']
  | char '\\' => ['\\', '\\']
  | char '\n' => ['\\', 'n']
  | char '\r' => ['\\', 'r']
  | char '\t' => ['\\', 't']
  | char '\x08' => ['\\', 'b']
  | char '\x0c' => ['\\', 'f']
  | p =>
    match p with
    | char c => if ' ' ≤ c ∧ c ≤ '~' then [c] else escaped p
    | p => escaped p
where
  /-- The escapes of the units of a code point. -/
  escaped (p : CodePoint) : Text := p.units.flatMap fun unit ↦ '\\' :: 'u' :: hexadecimal 4 unit

namespace Json

def stringText (s : List CodePoint) : Text := '"' :: s.flatMap CodePoint.inString ++ ['"']

/-- A number that is no integer. -/
def numberText (x : Float) : Text :=
  if x.isNaN then "NaN".toList
  else if x.isInf then (if 0 < x then "Infinity" else "-Infinity").toList
  else Decimal.write x

/-- The blanks that a level puts before the lines inside it. -/
def levelIndent : Nat := 2

/-- A line end, and the blanks of the next line. -/
def lineBreak (indent : Nat) : Text := '\n' :: List.replicate indent ' '

/-- The parts of a container between its brackets, each on a line of its own. -/
def enclosed (opening closing : Char) (indent : Nat) (parts : List Text) : Text :=
  match parts with
  | [] => [opening, closing]
  | _ => opening :: lineBreak (indent + levelIndent)
    ++ Text.join (',' :: lineBreak (indent + levelIndent)) parts ++ lineBreak indent ++ [closing]

mutual

/-- A value as it is written where the blanks of its first line are counted by `indent`. -/
def written (indent : Nat) : Json → Text
  | null => "null".toList
  | bool true => "true".toList
  | bool false => "false".toList
  | integer i => integerNumeral i
  | number x => numberText x
  | string s => stringText s
  | array items => enclosed '[' ']' indent (writtenItems (indent + levelIndent) items)
  | object members =>
    enclosed '\x7b' '\x7d' indent (writtenMembers (indent + levelIndent) members)

def writtenItems (indent : Nat) : List Json → List Text
  | [] => []
  | item :: items => item.written indent :: writtenItems indent items

def writtenMembers (indent : Nat) : List (List CodePoint × Json) → List Text
  | [] => []
  | (name, value) :: members =>
    (stringText name ++ [':', ' '] ++ value.written indent) :: writtenMembers indent members

end

def write (value : Json) : Text := value.written 0

end Json

end TermEmbedding
