import TermEmbedding.Text.Basic

/-!
# Code points

A data file may spell half of a surrogate pair, by an escape or in its bytes. Such a half is no
character, so it cannot stand in a `Text`, but it may be part of a name and is written back as it
was read. Strings of data files are therefore lists of code points, and a character is the common
case.
-/

namespace TermEmbedding

/-- A Unicode code point: a character, or one of the surrogates, which no character occupies. -/
inductive CodePoint where
  | char (c : Char)
  | surrogate (k : Fin 0x800)
deriving DecidableEq, Inhabited

namespace CodePoint

def value : CodePoint → Nat
  | char c => c.toNat
  | surrogate k => 0xD800 + k

def ofNat? (n : Nat) : Option CodePoint :=
  if h : n.isValidChar then some (char (Char.ofNatAux n h))
  else if h : 0xD800 ≤ n ∧ n < 0xE000 then some (surrogate ⟨n - 0xD800, by omega⟩)
  else none

/-- The character that two halves of a surrogate pair stand for. -/
def ofPair? (high low : Nat) : Option CodePoint :=
  if 0xD800 ≤ high ∧ high < 0xDC00 ∧ 0xDC00 ≤ low ∧ low < 0xE000 then
    ofNat? (0x10000 + (high - 0xD800) * 0x400 + (low - 0xDC00))
  else none

/-- The 16-bit units of a code point: two for the characters beyond the basic plane. -/
def units (p : CodePoint) : List Nat :=
  if p.value < 0x10000 then [p.value]
  else [0xD800 + (p.value - 0x10000) / 0x400, 0xDC00 + (p.value - 0x10000) % 0x400]

end CodePoint

namespace Text

/-- A text as a list of code points. -/
def codePoints (t : Text) : List CodePoint := t.map .char

/-- The text that a list of code points spells, if it has no stray surrogate. -/
def ofCodePoints? : List CodePoint → Option Text
  | [] => some []
  | .char c :: rest => (ofCodePoints? rest).map (c :: ·)
  | .surrogate _ :: _ => none

/-- The text that a list of code points spells, with the replacement character for each stray
surrogate. -/
def ofCodePoints (ps : List CodePoint) : Text :=
  ps.map fun
    | .char c => c
    | .surrogate _ => '\uFFFD'

@[simp] theorem ofCodePoints?_codePoints (t : Text) : ofCodePoints? (codePoints t) = some t := by
  induction t with
  | nil => rfl
  | cons c rest ih => simpa [codePoints, ofCodePoints?] using ih

end Text

end TermEmbedding
