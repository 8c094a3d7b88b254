import TermEmbedding.Proofs.Expression.Grammar
import TermEmbedding.Session.Failure

/-!
# Numerals that are too long

A numeral has a longest length, and a reference with a longer one is not read. This is a fault of
its own, and it takes a long text: all digits of the numeral are in it, with at least one character
before them.

The fault is met at the number of a type with anything behind it, and at the index of a term whose
type can be read. No other text is refused as a reference in this way.
-/

namespace TermEmbedding

/-- Whether an error, if it is one of a numeral, is one that a text of a length can have. -/
def ReadError.FitsIn (length : Nat) (e : ReadError) : Prop :=
  ∀ n, e = .numeralTooLong n → numeralLimit < n ∧ n < length

variable {bindings : Bindings Float}

theorem ReadError.FitsIn.mono {e : ReadError} {k l : Nat} (h : e.FitsIn k) (hkl : k ≤ l) :
    e.FitsIn l := fun n hn ↦ ⟨(h n hn).1, Nat.lt_of_lt_of_le (h n hn).2 hkl⟩

private theorem errorsOnly_of_kind {α : Type} {e : ReadError} {length : Nat}
    (h : e.kind? = some .parsing) :
    ErrorsOnly (·.FitsIn length) (.error e : Except ReadError α) := by
  apply errorsOnly_error
  rintro n rfl
  cases h

/-! ## References -/

private theorem errorsOnly_readNumeral {digits : Text} {length : Nat} (h : digits.length < length)
    (context : Text) : ErrorsOnly (·.FitsIn length) (readNumeral digits context) := by
  rw [readNumeral]
  by_cases hempty : digits = []
  · rw [if_pos hempty]
    exact errorsOnly_of_kind rfl
  · rw [if_neg hempty]
    by_cases hlong : numeralLimit < digits.length
    · rw [if_pos hlong]
      refine errorsOnly_error ?_
      rintro n ⟨⟩
      exact ⟨hlong, h⟩
    · rw [if_neg hlong]
      exact errorsOnly_pure _

private theorem errorsOnly_readIndex (text : Text) :
    ErrorsOnly (·.FitsIn text.length) (readIndex text) := by
  have hdigits : ∀ rest : Text, (rest.takeWhile Char.isDigit).length < rest.length + 1 := fun rest ↦
    Nat.lt_succ_of_le (List.takeWhile_sublist _).length_le
  rw [readIndex.eq_def]
  split
  · exact (errorsOnly_readNumeral (hdigits _) _).bind fun n _ ↦ errorsOnly_pure _
  · exact (errorsOnly_readNumeral (hdigits _) _).bind fun n _ ↦ errorsOnly_pure _
  · exact errorsOnly_of_kind rfl

private theorem errorsOnly_readEntries (context : Text) (pieces : List Text) (length : Nat) :
    ErrorsOnly (·.FitsIn length) (readEntries context pieces) := by
  induction pieces with
  | nil => exact errorsOnly_pure []
  | cons piece pieces ih =>
    rw [readEntries]
    cases Decimal.read? (Text.strip piece) with
    | none => exact errorsOnly_of_kind rfl
    | some x => exact ih.bind fun _ _ ↦ errorsOnly_pure _

private theorem errorsOnly_readVector (text : Text) (length : Nat) :
    ErrorsOnly (·.FitsIn length) (readVector text) := by
  rw [readVector.eq_def]
  split
  · split
    · exact errorsOnly_of_kind rfl
    · exact (errorsOnly_readEntries _ _ _).bind fun _ _ ↦ errorsOnly_pure _
  · exact errorsOnly_of_kind rfl

private theorem errorsOnly_readReference (text : Text) :
    ErrorsOnly (·.FitsIn text.length) (readReference text) := by
  rw [readReference.eq_def]
  split
  · rename_i inner
    have htaken := (List.takeWhile_sublist Char.isDigit (l := inner)).length_le
    split
    · exact errorsOnly_of_kind rfl
    · rename_i c rest hrest
      have hdropped := length_dropWhile_le Char.isDigit inner
      rw [hrest] at hdropped
      refine ErrorsOnly.bind ((errorsOnly_readNumeral (Nat.lt_succ_of_le htaken) _).bind
        fun t _ ↦ errorsOnly_pure _) fun t _ ↦ ?_
      split
      · exact (errorsOnly_readVector _ _).bind fun _ _ ↦ errorsOnly_pure _
      · exact ((errorsOnly_readIndex (c :: rest)).imp fun e he ↦
          he.mono (Nat.le_succ_of_le hdropped)).bind fun _ _ ↦ errorsOnly_pure _
  · exact errorsOnly_of_kind rfl

theorem readReference_of_long {digits : Text} (hdigits : ∀ c ∈ digits, c.isDigit = true)
    (hlong : numeralLimit < digits.length) {c : Char} (hc : c.isDigit = false) (rest : Text) :
    readReference ('#' :: (digits ++ c :: rest)) = .error (.numeralTooLong digits.length) := by
  have hne : digits ≠ [] := by
    rintro rfl
    exact Nat.not_lt_zero _ hlong
  rw [readReference_eq hdigits hc, readNumeral, if_neg hne, if_pos hlong]
  rfl

/-! ## References with a numeral that is too long -/

section

variable {α β : Type}

/-- A reading that fails because of a numeral that is too long. -/
def MeetsLongNumeral (x : Except ReadError α) : Prop := ∃ n, x = .error (.numeralTooLong n)

private theorem meetsLongNumeral_bind_iff {x : Except ReadError α} {f : α → Except ReadError β} :
    MeetsLongNumeral (x >>= f) ↔ MeetsLongNumeral x ∨ ∃ a, x = .ok a ∧ MeetsLongNumeral (f a) := by
  simp only [MeetsLongNumeral, bind_eq_error_iff, exists_or]
  refine or_congr_right ⟨?_, ?_⟩
  · rintro ⟨n, a, ha, h⟩
    exact ⟨a, ha, n, h⟩
  · rintro ⟨a, ha, n, h⟩
    exact ⟨n, a, ha, h⟩

private theorem meetsLongNumeral_bind_pure_iff {x : Except ReadError α} {f : α → β} :
    MeetsLongNumeral (x >>= fun a ↦ pure (f a)) ↔ MeetsLongNumeral x := by
  rw [meetsLongNumeral_bind_iff, or_iff_left]
  rintro ⟨a, -, n, ⟨⟩⟩

private theorem meetsLongNumeral_readNumeral_iff {digits : Text} (context : Text) :
    MeetsLongNumeral (readNumeral digits context) ↔ numeralLimit < digits.length := by
  rw [readNumeral]
  by_cases hempty : digits = []
  · rw [if_pos hempty, hempty]
    exact iff_of_false (by rintro ⟨n, ⟨⟩⟩) (Nat.not_lt_zero _)
  · rw [if_neg hempty]
    by_cases hlong : numeralLimit < digits.length
    · rw [if_pos hlong]
      exact iff_of_true ⟨_, rfl⟩ hlong
    · rw [if_neg hlong]
      exact iff_of_false (by rintro ⟨n, ⟨⟩⟩) hlong

private theorem meetsLongNumeral_readIndex_iff {c : Char} {rest : Text} :
    MeetsLongNumeral (readIndex (c :: rest)) ↔
      (c = 'p' ∨ c = 'n') ∧ numeralLimit < (rest.takeWhile Char.isDigit).length := by
  by_cases hletter : c = 'p' ∨ c = 'n'
  · rw [← meetsLongNumeral_readNumeral_iff (c :: rest), and_iff_right hletter]
    rcases hletter with rfl | rfl
    · exact meetsLongNumeral_bind_pure_iff
    · exact meetsLongNumeral_bind_pure_iff
  · obtain ⟨hp, hn⟩ := not_or.mp hletter
    rw [readIndex]
    · exact iff_of_false (by rintro ⟨n, ⟨⟩⟩) fun h ↦ hletter h.1
    · exact fun _ h ↦ hp (List.cons.inj h).1
    · exact fun _ h ↦ hn (List.cons.inj h).1

private theorem not_meetsLongNumeral_readVector (text : Text) :
    ¬MeetsLongNumeral (readVector text) := by
  rintro ⟨n, hn⟩
  exact Nat.not_lt_zero n (errorsOnly_readVector text 0 _ hn n rfl).2

theorem meetsLongNumeral_digits_iff {digits : Text} (hdigits : ∀ c ∈ digits, c.isDigit = true)
    {c : Char} (hc : c.isDigit = false) {rest : Text} :
    MeetsLongNumeral (readReference ('#' :: (digits ++ c :: rest))) ↔
      numeralLimit < digits.length ∨ (∃ t, IsNumeral digits t) ∧ (c = 'p' ∨ c = 'n') ∧
        numeralLimit < (rest.takeWhile Char.isDigit).length := by
  rw [readReference_eq hdigits hc, meetsLongNumeral_bind_iff, meetsLongNumeral_bind_pure_iff,
    meetsLongNumeral_readNumeral_iff]
  refine or_congr_right ⟨?_, ?_⟩
  · rintro ⟨i, hi, h⟩
    obtain ⟨t, ht, -⟩ := exists_of_bind_eq_ok hi
    refine ⟨⟨t, (readNumeral_eq_ok_iff hdigits).mp ht⟩, ?_⟩
    split at h
    · exact absurd (meetsLongNumeral_bind_pure_iff.mp h) (not_meetsLongNumeral_readVector _)
    · exact meetsLongNumeral_readIndex_iff.mp (meetsLongNumeral_bind_pure_iff.mp h)
  · rintro ⟨⟨t, ht⟩, hletter, hlong⟩
    refine ⟨t, by rw [(readNumeral_eq_ok_iff hdigits).mpr ht]; rfl, ?_⟩
    have hbracket : c ≠ '[' := by
      rcases hletter with rfl | rfl
      · decide
      · decide
    rw [if_neg hbracket]
    exact meetsLongNumeral_bind_pure_iff.mpr (meetsLongNumeral_readIndex_iff.mpr ⟨hletter, hlong⟩)

/-- A text that begins like a reference, but with a numeral that is too long for its type or for a
running number. -/
inductive HasLongNumeral : Text → Prop
  | type {digits rest : Text} {c : Char} (hdigits : ∀ d ∈ digits, d.isDigit = true)
      (hlong : numeralLimit < digits.length) (hc : c.isDigit = false) :
      HasLongNumeral ('#' :: (digits ++ c :: rest))
  | index {digits rest : Text} {t : Nat} {letter : Char} (htype : IsNumeral digits t)
      (hletter : letter = 'p' ∨ letter = 'n')
      (hlong : numeralLimit < (rest.takeWhile Char.isDigit).length) :
      HasLongNumeral ('#' :: (digits ++ letter :: rest))

/-- **A reference is refused for a numeral if it has one that is too long.** -/
theorem meetsLongNumeral_readReference_iff {text : Text} :
    MeetsLongNumeral (readReference text) ↔ HasLongNumeral text := by
  constructor
  · intro h
    rcases text with _ | ⟨c, inner⟩
    · obtain ⟨n, ⟨⟩⟩ := h
    by_cases hc : c = '#'
    · subst hc
      obtain ⟨hsplit, hdigits, hends⟩ := Text.takeWhile_dropWhile_iff.mp
        (⟨rfl, rfl⟩ : inner.takeWhile Char.isDigit = _ ∧ inner.dropWhile Char.isDigit = _)
      rcases hdrop : inner.dropWhile Char.isDigit with _ | ⟨c, rest⟩
      · rw [readReference_of_ends hdrop] at h
        obtain ⟨n, ⟨⟩⟩ := h
      · rw [hdrop] at hsplit hends
        rw [hsplit, meetsLongNumeral_digits_iff hdigits (hends c rfl)] at h
        rw [hsplit]
        rcases h with hlong | ⟨⟨t, ht⟩, hletter, hlong⟩
        · exact .type hdigits hlong (hends c rfl)
        · exact .index ht hletter hlong
    · rw [readReference_of_ne hc] at h
      obtain ⟨n, ⟨⟩⟩ := h
  · intro h
    cases h with
    | type hdigits hlong hc => exact (meetsLongNumeral_digits_iff hdigits hc).mpr (.inl hlong)
    | @index digits rest t letter htype hletter hlong =>
      have hends : letter.isDigit = false := by
        rcases hletter with rfl | rfl
        · rfl
        · rfl
      exact (meetsLongNumeral_digits_iff htype.isDigit hends).mpr
        (.inr ⟨⟨t, htype⟩, hletter, hlong⟩)

end

/-! ## Identifiers -/

private theorem errorsOnly_readIdentifier (text : Text) (length : Nat) :
    ErrorsOnly (·.FitsIn length) (readIdentifier bindings text) := by
  rw [readIdentifier.eq_def]
  split
  · exact errorsOnly_of_kind rfl
  · split
    · exact errorsOnly_of_kind rfl
    · refine ErrorsOnly.bind ?_ fun _ _ ↦ errorsOnly_pure _
      rw [Bindings.lookup]
      split
      · exact errorsOnly_pure _
      · exact errorsOnly_of_kind rfl

/-! ## Expressions -/

private theorem errorsOnly_ofParts (parts : List (Expression Float)) (length : Nat) :
    ErrorsOnly (·.FitsIn length) (Expression.ofParts parts) := by
  rcases parts with _ | ⟨head, _ | ⟨first, rest⟩⟩
  · exact errorsOnly_of_kind rfl
  · exact errorsOnly_of_kind rfl
  · rw [Expression.ofParts]
    cases head.callee? with
    | none => exact errorsOnly_of_kind rfl
    | some f => exact errorsOnly_pure _

private theorem errorsOnly_readAtom {text : Text}
    (hparts : ∀ whole rest : Text, rest.length < text.length →
      ErrorsOnly (·.FitsIn rest.length) (readParts bindings whole rest)) :
    ErrorsOnly (·.FitsIn text.length) (readAtom bindings text) := by
  rw [readAtom.eq_def]
  split
  · exact errorsOnly_of_kind rfl
  · rename_i inner
    have hshorter := Nat.lt_succ_of_le (Text.length_stripStart_le inner)
    exact ((hparts _ _ hshorter).imp fun e he ↦ he.mono (Nat.le_of_lt hshorter)).bind fun parts _ ↦
      (errorsOnly_ofParts _ _).bind fun _ _ ↦ errorsOnly_pure _
  · exact (errorsOnly_readReference _).bind fun _ _ ↦ errorsOnly_pure _
  · exact (errorsOnly_readIdentifier _ _).bind fun _ _ ↦ errorsOnly_pure _

private theorem errorsOnly_readParts (whole text : Text) :
    ErrorsOnly (·.FitsIn text.length) (readParts bindings whole text) := by
  induction hlength : text.length using Nat.strongRecOn generalizing whole text with
  | ind length ih =>
    subst hlength
    rw [readParts.eq_def]
    split
    · exact errorsOnly_of_kind rfl
    · exact errorsOnly_pure _
    · refine (errorsOnly_readAtom fun whole rest hshorter ↦
        ih rest.length hshorter whole rest rfl).bind fun first _ ↦ ?_
      have hshorter := Nat.lt_of_le_of_lt (Text.length_stripStart_le first.rest) first.shorter
      exact ((ih _ hshorter whole _ rfl).imp fun e he ↦ he.mono (Nat.le_of_lt hshorter)).bind
        fun _ _ ↦ errorsOnly_pure _

private theorem readAtom_of_readReference_error {inner : Text} {e : ReadError}
    (h : readReference ('#' :: inner) = .error e) :
    readAtom bindings ('#' :: inner) = .error e := by
  rw [readAtom.eq_def]
  change (readReference ('#' :: inner) >>= fun r ↦ _) = _
  rw [h]
  rfl

theorem readApplication_of_readReference_error {inner : Text} {e : ReadError}
    (h : readReference ('#' :: inner) = .error e) :
    readApplication bindings ('(' :: '#' :: inner) = .error e := by
  have hparts : ∀ whole, readParts bindings whole ('#' :: inner) = .error e := by
    intro whole
    rw [readParts.eq_def]
    change (readAtom bindings ('#' :: inner) >>= fun first ↦ _) = _
    rw [readAtom_of_readReference_error h]
    rfl
  rw [readApplication, readAtom.eq_def]
  change (readParts bindings ('(' :: '#' :: inner) ('#' :: inner) >>= fun r ↦ _) = _
  rw [hparts]
  rfl

private theorem errorsOnly_complete {α : Type} {text : Text} (r : Reading α text) (length : Nat) :
    ErrorsOnly (·.FitsIn length) (complete r) := by
  rw [complete]
  split
  · exact errorsOnly_pure _
  · exact errorsOnly_of_kind rfl

private theorem errorsOnly_readApplication (text : Text) :
    ErrorsOnly (·.FitsIn text.length) (readApplication bindings text) := by
  rw [readApplication.eq_def]
  split
  · exact errorsOnly_readAtom fun _ _ _ ↦ errorsOnly_readParts _ _
  · exact errorsOnly_of_kind rfl

/-- **A numeral that is too long is in the text that is read.** -/
theorem Expression.errorsOnly_read (text : Text) :
    ErrorsOnly (·.FitsIn text.length) (Expression.read bindings text) :=
  ((errorsOnly_readAtom fun _ _ _ ↦ errorsOnly_readParts _ _).imp fun _ he ↦
    he.mono (Text.length_strip_le text)).bind fun r _ ↦ errorsOnly_complete r _

theorem Expression.errorsOnly_readApplied (text : Text) :
    ErrorsOnly (·.FitsIn text.length) (Expression.readApplied bindings text) :=
  ((errorsOnly_readApplication _).imp fun _ he ↦ he.mono (Text.length_strip_le text)).bind
    fun r _ ↦ errorsOnly_complete r _

end TermEmbedding
