import TermEmbedding.Decimal.Span
import TermEmbedding.Json.Reader
import TermEmbedding.Text.Encoding

/-!
# What data values are taken for

Parameters are read generously. A place for an integer takes strings, truth values and numbers with
a fraction as well; a place for a list takes strings and objects, as the lists of their characters
and of their names. What a value cannot be taken for is a fault of some kind, and the kind decides
how the fault is reported.
-/

namespace TermEmbedding

/-- What can be wrong with data. -/
inductive DataFault where
  /-- The bytes spell no text. -/
  | encoding
  /-- The text is no data value. -/
  | malformed
  /-- A value of the right kind cannot be used. -/
  | value
  /-- A value is of the wrong kind. -/
  | kind
  /-- A member is missing. -/
  | missing
  /-- The members of a value are asked for that is no object. -/
  | noMembers (word : Text)
  /-- A text is asked for where there is another value. -/
  | noText
  /-- A number is beyond all bounds. -/
  | unbounded
deriving DecidableEq, Inhabited

def DataFault.message : DataFault → Text
  | encoding => "the bytes are in no known encoding".toList
  | malformed => "the text is no JSON value".toList
  | value => "a value is out of range".toList
  | kind => "a value is of the wrong kind".toList
  | missing => "a member is missing".toList
  | noMembers word => word.quoted ++ " object has no attribute 'items'".toList
  | noText => "a text is expected".toList
  | unbounded => "cannot convert float infinity to integer".toList

namespace Json

def ofBytes (bytes : Bytes) : Except DataFault Json :=
  match bytes.codePoints? with
  | none => throw .encoding
  | some ps =>
    match read ps with
    | .ok value => return value
    | .error .malformed => throw .malformed
    | .error .numeralTooLong => throw .value

/-- The text of a string, if it has no stray surrogates. -/
def text? : Json → Option Text
  | string s => Text.ofCodePoints? s
  | _ => none

/-- A value taken for an integer. Fractions are dropped. -/
def toInteger : Json → Except DataFault Int
  | integer i => return i
  | bool b => return if b then 1 else 0
  | number x =>
    if x.isNaN then throw .value
    else if x.isInf then throw .unbounded
    else return truncate x
  | string s =>
    match (Text.ofCodePoints? s).bind integer? with
    | some i => return i
    | none => throw .value
  | null | array _ | object _ => throw .kind

def toItems : Json → Except DataFault (List Json)
  | array items => return items
  | string s => return s.map fun p ↦ string [p]
  | object members => return members.map fun (name, _) ↦ string name
  | null | bool _ | integer _ | number _ => throw .kind

def toMembers : Json → Except DataFault Members
  | object members => return members
  | value => throw (.noMembers value.kindText)

def member (value : Json) (name : String) : Except DataFault Json :=
  match value with
  | object members =>
    match Members.find? members name with
    | some found => return found
    | none => throw .missing
  | _ => throw .kind

/-- Whether a value counts as nothing: no truth, no number but zero, no content. -/
def isNothing : Json → Bool
  | null => true
  | bool b => !b
  | integer i => i = 0
  | number x => x == 0
  | string s => s.isEmpty
  | array items => items.isEmpty
  | object members => members.isEmpty

/-- A member of an object that may be missing or null. -/
def optional? (members : Members) (name : String) : Option Json :=
  match Members.find? members name with
  | none | some null => none
  | some found => some found

/-! ## Equal values -/

/-- The integer that a number is, if it is one. -/
def exactInteger? (x : Float) : Option Int :=
  if x.isFinite && x == x.floor then some (truncate x) else none

/-- Whether two values that are neither arrays nor objects count as equal. Truth values are the
numbers zero and one, an integer equals the number of the same value, and what is no number equals
itself. -/
def sameScalar : Json → Json → Bool
  | null, null => true
  | string s, string t => s = t
  | number x, number y => x == y || (x.isNaN && y.isNaN)
  | number x, b => exactInteger? x = asInteger? b && (asInteger? b).isSome
  | a, number y => exactInteger? y = asInteger? a && (asInteger? a).isSome
  | a, b => asInteger? a = asInteger? b && (asInteger? a).isSome
where
  /-- The number of an integer or a truth value. -/
  asInteger? : Json → Option Int
    | integer i => some i
    | bool b => some (if b then 1 else 0)
    | _ => none

/-- Whether a list holds two equal values. Arrays and objects cannot be compared. -/
def hasRepetition (items : List Json) : Except DataFault Bool :=
  if items.any isContainer then throw .kind else return go items
where
  /-- Whether a value can hold others. -/
  isContainer : Json → Bool
    | array _ | object _ => true
    | _ => false
  /-- Whether a value of the list equals one behind it. -/
  go : List Json → Bool
    | [] => false
    | item :: items => items.any (sameScalar item) || go items

end Json

end TermEmbedding
