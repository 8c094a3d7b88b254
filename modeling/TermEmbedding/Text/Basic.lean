/-!
# Text

Everything this library reads or writes is a list of characters. Readers recurse on it and return
the part that they did not use; writers append. `String` appears only where text enters or leaves
the program, so no statement about reading has to speak of byte positions.
-/

namespace TermEmbedding

/-- Text as the readers consume it and the writers produce it. -/
abbrev Text := List Char

namespace Text

/-- Pieces of text with a separator between each two of them. -/
def join (separator : Text) : List Text → Text
  | [] => []
  | [piece] => piece
  | piece :: next :: rest => piece ++ separator ++ join separator (next :: rest)

/-- The pieces of `t` between occurrences of `mark`; one piece more than there are marks. -/
def pieces (mark : Char) : Text → List Text
  | [] => [[]]
  | c :: rest =>
    if c = mark then [] :: pieces mark rest
    else match pieces mark rest with
      | [] => [[c]]
      | piece :: others => (c :: piece) :: others

def le : Text → Text → Bool
  | [], _ => true
  | _ :: _, [] => false
  | a :: s, b :: t => if a = b then le s t else decide (a.val < b.val)

end Text

end TermEmbedding
