import TermEmbedding.Proofs.Expression.Grammar

/-!
# Reading ends

Every reader of the grammar leaves a proper end of its text. The readers of atoms and applications
call each other, and the one of applications goes through the atoms in a loop, so whether they end
is a question about what each of them leaves for the next one. The readers have it answered by the
type of their results. Here the answer is given for the same recursion without these types, which
could go on forever if a reader succeeded without taking anything.

What a text says of types and brackets has no part in it: the recursion ends for malformed texts as
it does for others, and with the same outcome as the reader that carries its proofs.

## How deep calls are nested

A call that is nested too deeply has no outcome, and reading that goes on forever has none at any
depth. An atom costs one call, an application one more, and each round of the loop one. The text is
shorter by one character at least behind the parenthesis and behind each atom, so three calls for
each character, and two more, are enough.
-/

namespace TermEmbedding

section

variable {ε α σ : Type} {input : List σ}

/-- What a reader leaves, if it succeeds, is a proper end of its input. -/
def Progresses (reader : Except ε (Reading α input)) : Prop :=
  ∀ a rest, Reads reader a rest → rest <:+ input ∧ rest.length < input.length

/-- A reader that takes the beginning of its input makes progress, since it leaves less. -/
private theorem progresses_of_taken {reader : Except ε (Reading α input)}
    (h : ∀ {a rest}, Reads reader a rest → ∃ c, input = c ++ rest) : Progresses reader := by
  intro a rest hread
  obtain ⟨c, hc⟩ := h hread
  obtain ⟨r, -, -, rfl⟩ := hread
  exact ⟨⟨c, hc.symm⟩, r.shorter⟩

end

variable {bindings : Bindings Float}

private theorem progresses_readIndex (text : Text) : Progresses (readIndex text) :=
  progresses_of_taken fun h ↦ (reads_readIndex_iff.mp h).imp fun _ hc ↦ hc.1

private theorem progresses_readVector (text : Text) : Progresses (readVector text) :=
  progresses_of_taken fun h ↦ (reads_readVector_iff.mp h).imp fun _ hc ↦ hc.1

private theorem progresses_readReference (text : Text) : Progresses (readReference text) :=
  progresses_of_taken fun h ↦ (reads_readReference_iff.mp h).imp fun _ hc ↦ hc.1

private theorem progresses_readIdentifier (text : Text) :
    Progresses (readIdentifier bindings text) :=
  progresses_of_taken fun h ↦ (reads_readIdentifier_iff.mp h).imp fun _ hc ↦ hc.1

private theorem progresses_readAtom (text : Text) : Progresses (readAtom bindings text) :=
  progresses_of_taken fun h ↦ (reads_readAtom_iff.mp h).imp fun _ hc ↦ hc.1

private theorem progresses_readApplication (text : Text) :
    Progresses (readApplication bindings text) :=
  progresses_of_taken fun h ↦ (reads_readApplication_iff.mp h).imp fun _ hc ↦ hc.1

/-! ## The recursion -/

/-- A computation of a reader, which has no outcome if calls are nested too deeply. -/
abbrev Descent (α : Type) := ExceptT ReadError Option α

namespace Descent

variable {α β : Type}

/-- What comes of a call that is nested too deeply. -/
def cutOff : Descent α := ExceptT.mk none

/-- What comes of a computation without such calls. -/
def settled (x : Except ReadError α) : Descent α := ExceptT.mk (some x)

/-- The value of a reader and what it leaves, without the proof that this is less. -/
def outcome {input : Text} (reader : Except ReadError (Reading α input)) : Descent (α × Text) :=
  settled (reader.map fun r ↦ (r.value, r.rest))

mutual

def atom (bindings : Bindings Float) : Nat → Text → Descent (Expression Float × Text)
  | 0, _ => cutOff
  | _ + 1, [] => throw .emptyAtom
  | calls + 1, '(' :: inner => application bindings calls ('(' :: inner)
  | _ + 1, '#' :: inner => do
    let (r, rest) ← outcome (readReference ('#' :: inner))
    return (.reference r, rest)
  | _ + 1, c :: inner => do
    let (r, rest) ← outcome (readIdentifier bindings (c :: inner))
    return (.reference r, rest)

def application (bindings : Bindings Float) : Nat → Text → Descent (Expression Float × Text)
  | 0, _ => cutOff
  | calls + 1, '(' :: inner => do
    let (parts, rest) ← loop bindings calls ('(' :: inner) [] (Text.stripStart inner)
    return (← settled (Expression.ofParts parts), rest)
  | _ + 1, text => throw (.noLeftParen text)

/-- The loop over the atoms of an application, with those that have been read. -/
def loop (bindings : Bindings Float) :
    Nat → Text → List (Expression Float) → Text → Descent (List (Expression Float) × Text)
  | 0, _, _, _ => cutOff
  | _ + 1, _, found, ')' :: rest => return (found, rest)
  | _ + 1, whole, _, [] => throw (.noRightParen whole)
  | calls + 1, whole, found, c :: tail => do
    let (e, rest) ← atom bindings calls (c :: tail)
    loop bindings calls whole (found ++ [e]) (Text.stripStart rest)

end

/-! ## The outcome -/

/-- Computations in a row, where the first one has no calls that are nested too deeply. -/
private theorem bind_settled {γ δ : Type} {d : Descent α} {x : Except ReadError γ} {p : γ → α}
    (hd : d = settled (x.map p)) {f : α → Descent β} {g : γ → Except ReadError δ} {q : δ → β}
    (h : ∀ c, x = .ok c → f (p c) = settled ((g c).map q)) :
    d >>= f = settled ((x >>= g).map q) := by
  rw [hd]
  cases x with
  | error e => rfl
  | ok c => exact h c rfl

section

variable {text : Text}
  (hloop : ∀ (whole rest : Text) (calls : Nat), rest.length < text.length →
    3 * rest.length + 1 < calls → ∀ found, loop bindings calls whole found rest =
      settled ((readParts bindings whole rest).map fun r ↦ (found ++ r.value, r.rest)))
  {calls : Nat}

include hloop

private theorem application_of_paren {inner : Text} (htext : text = '(' :: inner)
    (hcalls : 3 * inner.length + 2 < calls) :
    application bindings calls text = outcome (readAtom bindings text) := by
  subst htext
  obtain ⟨calls, rfl⟩ := Nat.exists_eq_succ_of_ne_zero (Nat.ne_zero_of_lt hcalls)
  have hle := Text.length_stripStart_le inner
  rw [readAtom, application]
  refine bind_settled (hloop _ _ calls (Nat.lt_succ_of_le hle) (by omega) []) fun parts _ ↦ ?_
  dsimp only [List.nil_append]
  cases Expression.ofParts parts.value <;> rfl

private theorem atom_eq (hcalls : 3 * text.length < calls) :
    atom bindings calls text = outcome (readAtom bindings text) := by
  obtain ⟨calls, rfl⟩ := Nat.exists_eq_succ_of_ne_zero (Nat.ne_zero_of_lt hcalls)
  rcases text with _ | ⟨c, inner⟩
  · rw [readAtom]
    rfl
  · by_cases hparen : c = '('
    · subst hparen
      rw [List.length_cons] at hcalls
      rw [atom]
      exact application_of_paren hloop rfl (by omega)
    · by_cases hpound : c = '#'
      · subst hpound
        rw [atom, readAtom]
        exact bind_settled rfl fun _ _ ↦ rfl
      · rw [atom, readAtom]
        · exact bind_settled rfl fun _ _ ↦ rfl
        all_goals assumption

end

/-- The loop over the atoms of an application ends. Each atom leaves less than it is given, and what
is left of a text has its outcome by induction on the length. -/
private theorem loop_eq (whole text : Text) {calls : Nat} (hcalls : 3 * text.length + 1 < calls)
    (found : List (Expression Float)) :
    loop bindings calls whole found text =
      settled ((readParts bindings whole text).map fun r ↦ (found ++ r.value, r.rest)) := by
  induction hlength : text.length using Nat.strongRecOn
    generalizing whole text calls found with
  | ind length ih =>
    subst hlength
    obtain ⟨calls, rfl⟩ := Nat.exists_eq_succ_of_ne_zero (Nat.ne_zero_of_lt hcalls)
    rcases text with _ | ⟨c, tail⟩
    · rw [readParts]
      rfl
    · by_cases hclose : c = ')'
      · subst hclose
        rw [loop, readParts]
        change pure (found, tail) = pure (found ++ [], tail)
        rw [List.append_nil]
      · have hatom : atom bindings calls (c :: tail) = outcome (readAtom bindings (c :: tail)) :=
          atom_eq (fun whole rest calls hshorter hcalls found ↦
            ih rest.length hshorter whole rest hcalls found rfl) (by omega)
        rw [loop, readParts]
        · refine bind_settled hatom fun first _ ↦ ?_
          have hshorter := Nat.lt_of_le_of_lt (Text.length_stripStart_le first.rest) first.shorter
          dsimp only
          rw [ih _ hshorter whole _ (by omega) _ rfl]
          rcases readParts bindings whole (Text.stripStart first.rest) with e | others
          · rfl
          · dsimp only [Except.map]
            rw [List.append_assoc]
            rfl
        all_goals assumption

private theorem application_eq {text : Text} {calls : Nat} (hcalls : 3 * text.length < calls) :
    application bindings calls text = outcome (readApplication bindings text) := by
  obtain ⟨calls, rfl⟩ := Nat.exists_eq_succ_of_ne_zero (Nat.ne_zero_of_lt hcalls)
  by_cases hparen : ∃ inner, text = '(' :: inner
  · obtain ⟨inner, rfl⟩ := hparen
    rw [List.length_cons] at hcalls
    rw [readApplication]
    exact application_of_paren (fun whole rest _ _ hcalls ↦ loop_eq whole rest hcalls) rfl
      (by omega)
  · have hne : ∀ inner, text ≠ '(' :: inner := fun inner h ↦ hparen ⟨inner, h⟩
    rw [application, readApplication]
    · rfl
    · exact hne
    · exact hne

end Descent

/-- **Every reader makes progress, and so reading ends.** What a reader leaves is a proper end of
its text. The recursion of atoms, applications and the loop over the atoms of an application has its
outcome for every text, however malformed, as soon as calls may be nested two deeper than three
times the length of the text, and deeper calls do not change it. -/
theorem reading_ends (bindings : Bindings Float) (text : Text) :
    (Progresses (readIndex text) ∧ Progresses (readVector text) ∧
      Progresses (readReference text) ∧ Progresses (readIdentifier bindings text) ∧
      Progresses (readAtom bindings text) ∧ Progresses (readApplication bindings text)) ∧
    ∀ calls, 3 * text.length + 1 < calls →
      Descent.atom bindings calls text = Descent.outcome (readAtom bindings text) ∧
      Descent.application bindings calls text =
        Descent.outcome (readApplication bindings text) ∧
      ∀ whole found, Descent.loop bindings calls whole found text =
        Descent.settled ((readParts bindings whole text).map fun r ↦
          (found ++ r.value, r.rest)) := by
  refine ⟨⟨progresses_readIndex text, progresses_readVector text, progresses_readReference text,
    progresses_readIdentifier text, progresses_readAtom text, progresses_readApplication text⟩,
    fun calls hcalls ↦ ⟨?_, ?_, fun whole found ↦ ?_⟩⟩
  · exact Descent.atom_eq (fun whole rest _ _ h ↦ Descent.loop_eq whole rest h) (by omega)
  · exact Descent.application_eq (by omega)
  · exact Descent.loop_eq whole text hcalls found

/-- An application that is not closed, in one that is not closed, and a parenthesis too many. -/
theorem reading_ends_parentheses :
    (∀ calls, 19 < calls →
      Descent.atom [] calls "((#1p0".toList = throw (.noRightParen "(#1p0".toList)) ∧
    ∀ calls, 19 < calls →
      Descent.atom [] calls "#1p0 )".toList =
        pure (.reference (.function ⟨1, .primitive 0⟩), " )".toList) := by
  have houtcome : ∀ {text : Text}, text.length = 6 → ∀ calls, 19 < calls →
      Descent.atom [] calls text = Descent.atom [] 20 text := by
    intro text hlength calls hcalls
    obtain ⟨-, hread⟩ := reading_ends [] text
    rw [(hread calls (by omega)).1, (hread 20 (by omega)).1]
  refine ⟨fun calls hcalls ↦ (houtcome rfl calls hcalls).trans ?_,
    fun calls hcalls ↦ (houtcome rfl calls hcalls).trans ?_⟩
  · rfl
  · rfl

end TermEmbedding
