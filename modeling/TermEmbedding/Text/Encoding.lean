import TermEmbedding.Text.CodePoint

/-!
# Text as bytes

Files hold bytes. A data file may be in any of the five common encodings of Unicode, with or without
a mark that tells which; everything that this program writes is in UTF-8.

Surrogates are let through in every encoding, as the code points they are. Two of them side by side
are one character in UTF-16, where that is how characters beyond the basic plane are spelled, and
stay two code points in the others.
-/

namespace TermEmbedding

abbrev Bytes := List UInt8

def Text.utf8 (t : Text) : Bytes := t.flatMap String.utf8EncodeChar

/-- How code points are laid out in bytes. The wide encodings begin each unit with its high or its
low byte. -/
inductive Encoding where
  | utf8
  | utf16 (highFirst : Bool)
  | utf32 (highFirst : Bool)
deriving DecidableEq

namespace Encoding

/-! ## Eight bits -/

/-- The six bits of a byte that continues a code point. -/
def tail? (b : UInt8) : Option Nat :=
  if 0x80 ≤ b.toNat ∧ b.toNat < 0xC0 then some (b.toNat - 0x80) else none

/-- The code point with the given leading bits and continuing bytes, unless a shorter spelling
covers the numbers below `least`. -/
def ofTails? (least lead : Nat) (tails : Bytes) : Option CodePoint := do
  let payloads ← tails.mapM tail?
  let n := payloads.foldl (fun n bits ↦ 64 * n + bits) lead
  if least ≤ n then CodePoint.ofNat? n else none

/-- The code points of bytes in UTF-8. -/
def decodeUtf8 : Bytes → Option (List CodePoint)
  | [] => some []
  | a :: rest =>
    if a.toNat < 0x80 then do
      let p ← CodePoint.ofNat? a.toNat
      return p :: (← decodeUtf8 rest)
    else if a.toNat < 0xC0 then none
    else if a.toNat < 0xE0 then
      match rest with
      | b :: rest => do
        let p ← ofTails? 0x80 (a.toNat - 0xC0) [b]
        return p :: (← decodeUtf8 rest)
      | _ => none
    else if a.toNat < 0xF0 then
      match rest with
      | b :: c :: rest => do
        let p ← ofTails? 0x800 (a.toNat - 0xE0) [b, c]
        return p :: (← decodeUtf8 rest)
      | _ => none
    else if a.toNat < 0xF8 then
      match rest with
      | b :: c :: d :: rest => do
        let p ← ofTails? 0x10000 (a.toNat - 0xF0) [b, c, d]
        return p :: (← decodeUtf8 rest)
      | _ => none
    else none

/-! ## Sixteen bits -/

/-- Bytes in pairs, as numbers. -/
def units16? (highFirst : Bool) : Bytes → Option (List Nat)
  | [] => some []
  | [_] => none
  | a :: b :: rest =>
    let unit := if highFirst then 256 * a.toNat + b.toNat else 256 * b.toNat + a.toNat
    (units16? highFirst rest).map (unit :: ·)

/-- The code points of 16-bit units: two halves of a pair are one character. -/
def ofUnits16 : List Nat → List CodePoint
  | [] => []
  | [n] => (CodePoint.ofNat? n).toList
  | high :: low :: rest =>
    match CodePoint.ofPair? high low with
    | some p => p :: ofUnits16 rest
    | none => (CodePoint.ofNat? high).toList ++ ofUnits16 (low :: rest)

/-! ## Thirty-two bits -/

/-- The code points of bytes in groups of four. -/
def decodeUtf32 (highFirst : Bool) : Bytes → Option (List CodePoint)
  | [] => some []
  | a :: b :: c :: d :: rest => do
    let bytes := if highFirst then [a, b, c, d] else [d, c, b, a]
    let p ← CodePoint.ofNat? (bytes.foldl (fun n byte ↦ 256 * n + byte.toNat) 0)
    return p :: (← decodeUtf32 highFirst rest)
  | _ => none

def decode? : Encoding → Bytes → Option (List CodePoint)
  | utf8, bytes => decodeUtf8 bytes
  | utf16 highFirst, bytes => (units16? highFirst bytes).map ofUnits16
  | utf32 highFirst, bytes => decodeUtf32 highFirst bytes

/-! ## Telling the encodings apart -/

/-- The marks of the encodings. A longer mark comes before a shorter one that it begins with. -/
def marks : List (Bytes × Encoding) :=
  [([0x00, 0x00, 0xFE, 0xFF], utf32 true), ([0xFF, 0xFE, 0x00, 0x00], utf32 false),
    ([0xFE, 0xFF], utf16 true), ([0xFF, 0xFE], utf16 false), ([0xEF, 0xBB, 0xBF], utf8)]

/-- The encoding of a file without a mark whose first character, or first two if there are so many,
are ASCII: it shows in the places of the zero bytes. -/
def ofZeros : Bytes → Encoding
  | [a, b] => if a = 0 then utf16 true else if b = 0 then utf16 false else utf8
  | a :: b :: c :: d :: _ =>
    if a = 0 then (if b = 0 then utf32 true else utf16 true)
    else if b = 0 then (if c = 0 ∧ d = 0 then utf32 false else utf16 false)
    else utf8
  | _ => utf8

/-- The encoding of a file, and the file without its mark. -/
def detect (bytes : Bytes) : Encoding × Bytes :=
  match marks.find? fun (mark, _) ↦ mark.isPrefixOf bytes with
  | some (mark, encoding) => (encoding, bytes.drop mark.length)
  | none => (ofZeros bytes, bytes)

end Encoding

/-- The code points of a file in the encoding that it shows. -/
def Bytes.codePoints? (bytes : Bytes) : Option (List CodePoint) :=
  let (encoding, content) := Encoding.detect bytes
  encoding.decode? content

end TermEmbedding
