import TermEmbedding.Proofs.Exceptions
import TermEmbedding.Reading

/-!
# What a reader takes and what it leaves

A reader that succeeds gives a value and the rest of its input, with a proof that the rest is
shorter. Statements about reading are not about the proof, so they speak of the value and the rest
alone.
-/

namespace TermEmbedding

variable {ε α β σ : Type}

/-- A reader succeeds with a value and leaves a rest. -/
def Reads {input : List σ} (reader : Except ε (Reading α input)) (a : α) (rest : List σ) : Prop :=
  ∃ r, reader = .ok r ∧ r.value = a ∧ r.rest = rest

variable {input rest rest' : List σ} {a a' : α}

theorem reads_ok_iff {r : Reading α input} :
    Reads (.ok r : Except ε (Reading α input)) a rest ↔ r.value = a ∧ r.rest = rest := by
  constructor
  · rintro ⟨_, ⟨⟩, hr⟩
    exact hr
  · intro hr
    exact ⟨r, rfl, hr⟩

theorem not_reads_error {e : ε} : ¬Reads (.error e : Except ε (Reading α input)) a rest := by
  rintro ⟨_, ⟨⟩, -⟩

theorem reads_bind_iff {x : Except ε β} {f : β → Except ε (Reading α input)} :
    Reads (x >>= f) a rest ↔ ∃ b, x = .ok b ∧ Reads (f b) a rest := by
  constructor
  · rintro ⟨r, hr, hread⟩
    obtain ⟨b, hb, hr⟩ := exists_of_bind_eq_ok hr
    exact ⟨b, hb, r, hr, hread⟩
  · rintro ⟨b, rfl, hread⟩
    exact hread

theorem Reads.unique {reader : Except ε (Reading α input)} (h : Reads reader a rest)
    (h' : Reads reader a' rest') : a = a' ∧ rest = rest' := by
  obtain ⟨r, rfl, rfl, rfl⟩ := h
  exact reads_ok_iff.mp h'

end TermEmbedding
