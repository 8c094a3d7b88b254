/-!
# Reading from the front

A reader takes the beginning of its input and returns a value together with what is left. What is
left is strictly shorter than the input, and the result carries the proof: readers that call each
other in turn then end because lengths do, with nothing to count.
-/

namespace TermEmbedding

/-- What was read from the beginning of an input, and what is left of it. -/
structure Reading (α : Type) {σ : Type} (input : List σ) where
  value : α
  rest : List σ
  shorter : rest.length < input.length

namespace Reading

variable {α β σ : Type}

def map {input : List σ} (f : α → β) (r : Reading α input) : Reading β input :=
  ⟨f r.value, r.rest, r.shorter⟩

/-- A reading of a part of an input that is no longer than the whole, as one of the whole. -/
def within {part input : List σ} (r : Reading α part) (h : part.length ≤ input.length) :
    Reading α input :=
  ⟨r.value, r.rest, Nat.lt_of_lt_of_le r.shorter h⟩

end Reading

theorem length_dropWhile_le {σ : Type} (p : σ → Bool) (input : List σ) :
    (input.dropWhile p).length ≤ input.length :=
  (List.dropWhile_sublist p).length_le

end TermEmbedding
