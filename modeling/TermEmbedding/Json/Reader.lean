import TermEmbedding.Decimal.Literal
import TermEmbedding.Json.Basic
import TermEmbedding.Reading

/-!
# Reading data values

The grammar is that of JSON with the three names for numbers that are not finite. Strings may not
hold control characters; two escapes that spell a surrogate pair are one character, and half a pair
is kept as it is. A number is an integer unless it has a fraction or an exponent. An integer of too
many digits is a failure of its own: the text is well formed, but the number is not read.
-/

namespace TermEmbedding

namespace Json

/-- Why a text could not be read as a value. -/
inductive ReadError where
  | malformed
  | numeralTooLong
deriving DecidableEq

/-- The blanks between the parts of a value. -/
def isGap : CodePoint → Bool
  | .char ' ' | .char '\t' | .char '\n' | .char '\r' => true
  | _ => false

/-- The input without the blanks in front. -/
def skipGap (input : List CodePoint) : List CodePoint := input.dropWhile isGap

theorem length_skipGap_le (input : List CodePoint) : (skipGap input).length ≤ input.length :=
  length_dropWhile_le isGap input

theorem length_lt_of_skipGap {input left : List CodePoint} {p : CodePoint}
    (h : skipGap input = p :: left) : left.length < input.length := by
  have hle := length_skipGap_le input
  rw [h] at hle
  exact hle

/-! ## Strings -/

def hexValue? : CodePoint → Option Nat
  | .surrogate _ => none
  | .char c =>
    if c.isDigit then some (c.toNat - '0'.toNat)
    else if 'a' ≤ c ∧ c ≤ 'f' then some (c.toNat - 'a'.toNat + 10)
    else if 'A' ≤ c ∧ c ≤ 'F' then some (c.toNat - 'A'.toNat + 10)
    else none

/-- Reads the four hexadecimal digits of an escaped unit. -/
def readUnit (input : List CodePoint) : Except ReadError (Reading Nat input) :=
  match input with
  | a :: b :: c :: d :: rest =>
    match hexValue? a, hexValue? b, hexValue? c, hexValue? d with
    | some a', some b', some c', some d' =>
      return ⟨((a' * 16 + b') * 16 + c') * 16 + d', rest, by simp only [List.length_cons]; omega⟩
    | _, _, _, _ => throw .malformed
  | _ => throw .malformed

/-- The code point of a unit that is no part of a pair. -/
def ofUnit (n : Nat) : CodePoint := (CodePoint.ofNat? n).getD (.char '\uFFFD')

/-- Reads what follows the mark of an escaped unit: one unit, or both units of a surrogate pair. -/
def readUnits (input : List CodePoint) : Except ReadError (Reading CodePoint input) := do
  let high ← readUnit input
  if 0xD800 ≤ high.value ∧ high.value < 0xDC00 then
    match h : high.rest with
    | .char '\\' :: .char 'u' :: next =>
      let low ← readUnit next
      match CodePoint.ofPair? high.value low.value with
      | some p => return ⟨p, low.rest, by
          have h1 := high.shorter; have h2 := low.shorter
          rw [h] at h1; simp only [List.length_cons] at *; omega⟩
      | none => return high.map ofUnit
    | _ => return high.map ofUnit
  else return high.map ofUnit

def readEscape (input : List CodePoint) : Except ReadError (Reading CodePoint input) :=
  match input with
  | .char c :: rest =>
    match c with
    | '"' => return ⟨.char '"', rest, Nat.lt_succ_self _⟩
    | '\\' => return ⟨.char '\\', rest, Nat.lt_succ_self _⟩
    | '/' => return ⟨.char '/', rest, Nat.lt_succ_self _⟩
    | 'b' => return ⟨.char '\x08', rest, Nat.lt_succ_self _⟩
    | 'f' => return ⟨.char '\x0c', rest, Nat.lt_succ_self _⟩
    | 'n' => return ⟨.char '\n', rest, Nat.lt_succ_self _⟩
    | 'r' => return ⟨.char '\r', rest, Nat.lt_succ_self _⟩
    | 't' => return ⟨.char '\t', rest, Nat.lt_succ_self _⟩
    | 'u' => do
      let p ← readUnits rest
      return p.within (Nat.le_succ _)
    | _ => throw .malformed
  | _ => throw .malformed

/-- Reads a string behind its opening quote. -/
def readString (input : List CodePoint) : Except ReadError (Reading (List CodePoint) input) :=
  match input with
  | [] => throw .malformed
  | .char '"' :: rest => return ⟨[], rest, Nat.lt_succ_self _⟩
  | .char '\\' :: rest => do
    let p ← readEscape rest
    let ps ← readString p.rest
    return ⟨p.value :: ps.value, ps.rest,
      Nat.lt_succ_of_lt (Nat.lt_trans ps.shorter p.shorter)⟩
  | p :: rest => do
    if p.value < 0x20 then throw .malformed
    else
      let ps ← readString rest
      return ⟨p :: ps.value, ps.rest, Nat.lt_succ_of_lt ps.shorter⟩
termination_by input.length
decreasing_by
  · exact Nat.lt_succ_of_lt p.shorter
  · exact Nat.lt_succ_self _

/-! ## Numbers and words -/

/-- The ASCII digit that a code point is. -/
def digit? : CodePoint → Option Char
  | .char c => if c.isDigit then some c else none
  | .surrogate _ => none

/-- Splits the ASCII digits off the front. -/
def spanDigits : List CodePoint → Text × List CodePoint
  | [] => ([], [])
  | p :: rest =>
    match digit? p with
    | some c => let (digits, left) := spanDigits rest; (c :: digits, left)
    | none => ([], p :: rest)

private theorem length_spanDigits_le (input : List CodePoint) :
    (spanDigits input).2.length ≤ input.length := by
  induction input with
  | nil => exact Nat.le_refl _
  | cons p rest ih =>
    rw [spanDigits]
    split
    · exact Nat.le_succ_of_le ih
    · exact Nat.le_refl _

/-- Reads a fraction: the point and digits. Without digits the point is left. -/
def spanFraction (input : List CodePoint) : Text × List CodePoint :=
  match input with
  | .char '.' :: rest =>
    let digits := spanDigits rest
    if digits.1 = [] then ([], input) else digits
  | _ => ([], input)

private theorem length_spanFraction_le (input : List CodePoint) :
    (spanFraction input).2.length ≤ input.length := by
  unfold spanFraction
  split
  · rename_i rest
    have h := length_spanDigits_le rest
    dsimp only
    split <;> simp only [List.length_cons] <;> omega
  · exact Nat.le_refl _

/-- The sign of an exponent, true for a minus, and what follows it. -/
def spanSign : List CodePoint → Bool × List CodePoint
  | .char '-' :: rest => (true, rest)
  | .char '+' :: rest => (false, rest)
  | rest => (false, rest)

private theorem length_spanSign_le (input : List CodePoint) :
    (spanSign input).2.length ≤ input.length := by
  unfold spanSign
  split <;> simp

def isExponentMark (p : CodePoint) : Bool := p = .char 'e' || p = .char 'E'

/-- Reads an exponent: the mark, a sign and digits. Without digits all is left. -/
def spanExponent (input : List CodePoint) : Option Int × List CodePoint :=
  match input with
  | [] => (none, [])
  | mark :: rest =>
    let sign := spanSign rest
    let digits := spanDigits sign.2
    if isExponentMark mark ∧ digits.1 ≠ [] then
      (some (if sign.1 then -(ofNumeral digits.1 : Int) else ofNumeral digits.1), digits.2)
    else (none, mark :: rest)

private theorem length_spanExponent_le (input : List CodePoint) :
    (spanExponent input).2.length ≤ input.length := by
  unfold spanExponent
  split
  · exact Nat.le_refl _
  · rename_i mark rest
    have hsign := length_spanSign_le rest
    have hdigits := length_spanDigits_le (spanSign rest).2
    dsimp only
    split <;> simp only [List.length_cons] <;> omega

/-- The whole part of a number: a zero, or digits that do not begin with one. -/
def spanWhole : List CodePoint → Text × List CodePoint
  | .char '0' :: rest => (['0'], rest)
  | input => spanDigits input

private theorem length_spanWhole_lt {input : List CodePoint} (h : (spanWhole input).1 ≠ []) :
    (spanWhole input).2.length < input.length := by
  unfold spanWhole at h ⊢
  split at h
  · simp
  · cases input with
    | nil => simp [spanDigits] at h
    | cons p rest =>
      have hle := length_spanDigits_le rest
      unfold spanDigits at h ⊢
      split
      · simp only [List.length_cons]
        omega
      · rename_i hnone
        simp [hnone] at h

/-- The value of a number given by its parts. An integer has neither fraction nor exponent. -/
def ofParts (negative : Bool) (whole fraction : Text) (exponent : Option Int) :
    Except ReadError Json :=
  if fraction = [] ∧ exponent = none then
    if numeralLimit < whole.length then throw .numeralTooLong
    else
      let n := ofNumeral whole
      return integer (if negative then -(n : Int) else n)
  else
    let x := Decimal.assemble whole fraction (exponent.getD 0)
    return number (if negative then -x else x)

/-- Reads a magnitude, with the sign that stood in front of it. -/
def readMagnitude (negative : Bool) (input : List CodePoint) :
    Except ReadError (Reading Json input) :=
  let whole := spanWhole input
  let fraction := spanFraction whole.2
  let exponent := spanExponent fraction.2
  if h : whole.1 = [] then throw .malformed
  else do
    let value ← ofParts negative whole.1 fraction.1 exponent.1
    return ⟨value, exponent.2, Nat.lt_of_le_of_lt
      (Nat.le_trans (length_spanExponent_le _) (length_spanFraction_le _)) (length_spanWhole_lt h)⟩

theorem length_drop_word_lt {word : Text} {input : List CodePoint}
    (h : word ≠ [] ∧ word.codePoints <+: input) :
    (input.drop word.length).length < input.length := by
  have hlength := h.2.length_le
  have hpositive := List.length_pos_iff.2 h.1
  simp only [Text.codePoints, List.length_map] at hlength
  simp only [List.length_drop]
  omega

/-- Reads a word that stands for a value, if the input begins with it. -/
def readWord? (word : Text) (value : Json) (input : List CodePoint) :
    Option (Reading Json input) :=
  if h : word ≠ [] ∧ word.codePoints <+: input then
    some ⟨value, input.drop word.length, length_drop_word_lt h⟩
  else none

/-- The values that are words. -/
def words : List (Text × Json) :=
  [("null".toList, null), ("true".toList, bool true), ("false".toList, bool false),
    ("NaN".toList, number (0 / 0)), ("Infinity".toList, number (1 / 0)),
    ("-Infinity".toList, number (-1 / 0))]

def readScalar (input : List CodePoint) : Except ReadError (Reading Json input) :=
  match words.findSome? fun (word, value) ↦ readWord? word value input with
  | some r => return r
  | none =>
    match input with
    | .char '-' :: rest => do
      let r ← readMagnitude true rest
      return r.within (Nat.le_succ _)
    | input => readMagnitude false input

/-! ## Values -/

mutual

/-- Reads a value, which begins with the first code point. -/
def readValue (input : List CodePoint) : Except ReadError (Reading Json input) :=
  match input with
  | .char '"' :: rest => do
    let s ← readString rest
    return (s.map string).within (Nat.le_succ _)
  | .char '[' :: rest =>
    match h : skipGap rest with
    | .char ']' :: left => return ⟨array [], left, Nat.lt_succ_of_lt (length_lt_of_skipGap h)⟩
    | _ => do
      let items ← readItems (skipGap rest)
      return (items.map array).within (Nat.le_succ_of_le (length_skipGap_le rest))
  | .char '\x7b' :: rest =>
    match h : skipGap rest with
    | .char '\x7d' :: left => return ⟨object [], left, Nat.lt_succ_of_lt (length_lt_of_skipGap h)⟩
    | _ => do
      let members ← readMembers (skipGap rest)
      return (members.map fun ms ↦ object (Table.ofRows ms)).within
        (Nat.le_succ_of_le (length_skipGap_le rest))
  | scalar => readScalar scalar
termination_by 2 * input.length
decreasing_by
  all_goals
    have hle := length_skipGap_le rest
    simp only [List.length_cons]
    omega

/-- Reads the items of an array and the bracket behind them. -/
def readItems (input : List CodePoint) : Except ReadError (Reading (List Json) input) := do
  let first ← readValue input
  match h : skipGap first.rest with
  | .char ']' :: left =>
    return ⟨[first.value], left, Nat.lt_trans (length_lt_of_skipGap h) first.shorter⟩
  | .char ',' :: left =>
    have hlt : (skipGap left).length < input.length :=
      Nat.lt_of_le_of_lt (length_skipGap_le left)
        (Nat.lt_trans (length_lt_of_skipGap h) first.shorter)
    let others ← readItems (skipGap left)
    return ⟨first.value :: others.value, others.rest, Nat.lt_trans others.shorter hlt⟩
  | _ => throw .malformed
termination_by 2 * input.length + 1
decreasing_by
  · omega
  · omega

/-- Reads the members of an object and the brace behind them. -/
def readMembers (input : List CodePoint) :
    Except ReadError (Reading (List (List CodePoint × Json)) input) :=
  match input with
  | .char '"' :: inner => do
    let name ← readString inner
    match hn : skipGap name.rest with
    | .char ':' :: right =>
      have hright : (skipGap right).length < inner.length + 1 :=
        Nat.lt_succ_of_lt (Nat.lt_of_le_of_lt (length_skipGap_le right)
          (Nat.lt_trans (length_lt_of_skipGap hn) name.shorter))
      let value ← readValue (skipGap right)
      match h : skipGap value.rest with
      | .char '\x7d' :: left =>
        return ⟨[(name.value, value.value)], left,
          Nat.lt_trans (Nat.lt_trans (length_lt_of_skipGap h) value.shorter) hright⟩
      | .char ',' :: left =>
        have hlt : (skipGap left).length < inner.length + 1 :=
          Nat.lt_of_le_of_lt (length_skipGap_le left)
            (Nat.lt_trans (Nat.lt_trans (length_lt_of_skipGap h) value.shorter) hright)
        let others ← readMembers (skipGap left)
        return ⟨(name.value, value.value) :: others.value, others.rest,
          Nat.lt_trans others.shorter hlt⟩
      | _ => throw .malformed
    | _ => throw .malformed
  | _ => throw .malformed
termination_by 2 * input.length + 1
decreasing_by
  · simp only [List.length_cons]
    omega
  · simp only [List.length_cons]
    omega

end

/-- Reads a text that is one value, with blanks around it. -/
def read (input : List CodePoint) : Except ReadError Json := do
  let r ← readValue (skipGap input)
  match skipGap r.rest with
  | [] => return r.value
  | _ => throw .malformed

end Json

end TermEmbedding
