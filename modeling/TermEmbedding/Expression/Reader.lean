import TermEmbedding.Bindings
import TermEmbedding.Decimal.Literal
import TermEmbedding.Expression.Basic
import TermEmbedding.Reading

/-!
# Reading expressions

The grammar, where blanks may stand around the atoms of an application:

  application := '(' atom atom⁺ ')'
  atom        := application | reference | identifier
  reference   := '#' digits ( vector | index )
  vector      := '[' number (',' number)* ']'
  index       := ('p' | 'n') digits
  identifier  := characters other than blanks and ')'

The next character alone decides which rule applies, so there is no backtracking. An identifier is
looked up as soon as it is read, and the places of functions and arguments are told apart only when
the closing parenthesis has been reached: of two faults the one further left is reported.

## Progress

Every reader takes the beginning of its text and returns what is left, which is strictly shorter.
The result type says so, and that is all that the recursion of atoms through applications needs in
order to end.
-/

namespace TermEmbedding

/-! ## References -/

/-- A run of ASCII digits as a number, in a text that is shown when there is none. -/
def readNumeral (digits context : Text) : Except ReadError Nat :=
  if digits = [] then throw (.noDigits context)
  else if numeralLimit < digits.length then throw (.numeralTooLong digits.length)
  else return ofNumeral digits

def readIndex (text : Text) : Except ReadError (Reading TermIndex text) :=
  let numbered (kind : Nat → TermIndex) (c : Char) (rest : Text) :
      Except ReadError (Reading TermIndex (c :: rest)) := do
    let n ← readNumeral (rest.takeWhile Char.isDigit) (c :: rest)
    return ⟨kind n, rest.dropWhile Char.isDigit,
      Nat.lt_succ_of_le (length_dropWhile_le Char.isDigit rest)⟩
  match text with
  | 'p' :: rest => numbered .primitive 'p' rest
  | 'n' :: rest => numbered .nonprimitive 'n' rest
  | _ => throw (.noTermIndex text)

/-- The numbers between the brackets of a vector. -/
def readEntries (context : Text) : List Text → Except ReadError (List Float)
  | [] => return []
  | piece :: pieces => do
    let entry := Text.strip piece
    match Decimal.read? entry with
    | none => throw (.badNumber entry context)
    | some x => return x :: (← readEntries context pieces)

def readVector (text : Text) : Except ReadError (Reading (List Float) text) :=
  match text with
  | '[' :: inner => do
    let content := inner.takeWhile (· ≠ ']')
    match h : inner.dropWhile (· ≠ ']') with
    | [] => throw (.noRightBracket ('[' :: inner))
    | close :: rest =>
      let entries ← readEntries ('[' :: inner) (Text.pieces ',' content)
      return ⟨entries, rest, by
        have hle := length_dropWhile_le (· ≠ ']') inner
        rw [h] at hle
        simp only [List.length_cons] at hle ⊢
        omega⟩
  | _ => throw (.noLeftBracket text)

/-- Reads a reference by its type and its vector or index. -/
def readReference (text : Text) : Except ReadError (Reading (TermReference Float) text) :=
  match text with
  | '#' :: inner =>
    have hle := length_dropWhile_le Char.isDigit inner
    match h : inner.dropWhile Char.isDigit with
    | [] => throw (.referenceEnds ('#' :: inner))
    | c :: rest => do
      let typeId : TypeId ← readNumeral (inner.takeWhile Char.isDigit) ('#' :: inner)
      if c = '[' then
        let r ← readVector (c :: rest)
        return ⟨.vector typeId r.value .anywhere, r.rest, by
          have := r.shorter; rw [h] at hle; simp only [List.length_cons] at *; omega⟩
      else
        let r ← readIndex (c :: rest)
        return ⟨.function ⟨typeId, r.value⟩, r.rest, by
          have := r.shorter; rw [h] at hle; simp only [List.length_cons] at *; omega⟩
  | _ => throw (.noPound text)

/-! ## Atoms and applications -/

/-- The characters that end an identifier. -/
def endsIdentifier (c : Char) : Bool := isBlank c || c = ')'

def readIdentifier (bindings : Bindings Float) (text : Text) :
    Except ReadError (Reading (TermReference Float) text) :=
  match text with
  | [] => throw (.noIdentifier text)
  | c :: rest =>
    if endsIdentifier c then throw (.noIdentifier (c :: rest))
    else do
      let r ← bindings.lookup (c :: rest.takeWhile (!endsIdentifier ·))
      return ⟨r, rest.dropWhile (!endsIdentifier ·),
        Nat.lt_succ_of_le (length_dropWhile_le _ rest)⟩

mutual

def readAtom (bindings : Bindings Float) (text : Text) :
    Except ReadError (Reading (Expression Float) text) :=
  match text with
  | [] => throw .emptyAtom
  | '(' :: inner => do
    let r ← readParts bindings ('(' :: inner) (Text.stripStart inner)
    let e ← Expression.ofParts r.value
    return ⟨e, r.rest, Nat.lt_succ_of_lt (Nat.lt_of_lt_of_le r.shorter
      (Text.length_stripStart_le inner))⟩
  | '#' :: inner => do
    let r ← readReference ('#' :: inner)
    return r.map .reference
  | c :: inner => do
    let r ← readIdentifier bindings (c :: inner)
    return r.map .reference
termination_by 2 * text.length
decreasing_by
  have hle := Text.length_stripStart_le inner
  simp only [List.length_cons]
  omega

/-- Reads the atoms of an application up to its closing parenthesis, which is missing from `whole`
if the text ends before it. -/
def readParts (bindings : Bindings Float) (whole text : Text) :
    Except ReadError (Reading (List (Expression Float)) text) :=
  match text with
  | [] => throw (.noRightParen whole)
  | ')' :: rest => return ⟨[], rest, Nat.lt_succ_self _⟩
  | c :: rest => do
    let first ← readAtom bindings (c :: rest)
    let others ← readParts bindings whole (Text.stripStart first.rest)
    return ⟨first.value :: others.value, others.rest,
      Nat.lt_trans (Nat.lt_of_lt_of_le others.shorter (Text.length_stripStart_le first.rest))
        first.shorter⟩
termination_by 2 * text.length + 1
decreasing_by
  · omega
  · have hlt := Nat.lt_of_le_of_lt (Text.length_stripStart_le first.rest) first.shorter
    omega

end

/-- Reads an application in parentheses. -/
def readApplication (bindings : Bindings Float) (text : Text) :
    Except ReadError (Reading (Expression Float) text) :=
  match text with
  | '(' :: inner => readAtom bindings ('(' :: inner)
  | _ => throw (.noLeftParen text)

/-! ## Whole texts -/

/-- The value of a reading that leaves nothing but blanks. -/
def complete {α : Type} {text : Text} (r : Reading α text) : Except ReadError α :=
  match Text.strip r.rest with
  | [] => return r.value
  | rest => throw (.trailing rest text)

/-- Reads a text that is one atom, with blanks around it. -/
def Expression.read (bindings : Bindings Float) (text : Text) :
    Except ReadError (Expression Float) := do
  complete (← readAtom bindings (Text.strip text))

/-- Reads a text that is one application, with blanks around it. -/
def Expression.readApplied (bindings : Bindings Float) (text : Text) :
    Except ReadError (Expression Float) := do
  complete (← readApplication bindings (Text.strip text))

end TermEmbedding
