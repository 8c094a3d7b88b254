import TermEmbedding.Proofs.Json.Strings
import TermEmbedding.Proofs.Text.Integers

/-!
# Integers and words of data files

An integer is read as it is written if its numeral is short enough for that and something follows
that can be no part of a number. The words for values are told apart by their first letters, and
from integers by being no digits.
-/

namespace TermEmbedding

namespace Json

/-! ## Blanks -/

section

variable {input mid left rest : List CodePoint}

theorem skipGap_of_not_isGap {p : CodePoint} (h : isGap p = false) (input : List CodePoint) :
    skipGap (p :: input) = p :: input :=
  List.dropWhile_cons_of_neg (by rw [h]; exact Bool.false_ne_true)

theorem skipGap_lineBreak (indent : Nat) (input : List CodePoint) :
    skipGap (Text.codePoints (lineBreak indent) ++ input) = skipGap input := by
  refine List.dropWhile_append_of_pos fun p hp ↦ ?_
  obtain ⟨c, hc, rfl⟩ := List.mem_map.mp hp
  rcases List.mem_cons.mp hc with rfl | hc
  · rfl
  · rw [List.eq_of_mem_replicate hc]
    rfl

/-! ## Numbers -/

/-- Whether something that follows a number is no part of it. -/
def EndsNumber (rest : List CodePoint) : Prop :=
  ∀ p ∈ rest.head?, digit? p = none ∧ p ≠ .char '.' ∧ isExponentMark p = false

theorem endsNumber_nil : EndsNumber [] := by
  rintro p ⟨⟩

theorem endsNumber_cons {p : CodePoint}
    (h : digit? p = none ∧ p ≠ .char '.' ∧ isExponentMark p = false) (rest : List CodePoint) :
    EndsNumber (p :: rest) := by
  rintro _ ⟨⟩
  exact h

private theorem spanDigits_append {digits : Text} (h : ∀ c ∈ digits, c.isDigit = true)
    (hrest : EndsNumber rest) : spanDigits (digits.codePoints ++ rest) = (digits, rest) := by
  induction digits with
  | nil =>
    cases rest with
    | nil => rfl
    | cons p rest =>
      change spanDigits (p :: rest) = _
      rw [spanDigits, (hrest p rfl).1]
  | cons c digits ih =>
    rw [List.forall_mem_cons] at h
    have hdigit : digit? (.char c) = some c := if_pos h.1
    change spanDigits (.char c :: (Text.codePoints digits ++ rest)) = _
    rw [spanDigits, hdigit]
    dsimp only
    rw [ih h.2]

private theorem spanWhole_numeral (n : Nat) (hrest : EndsNumber rest) :
    spanWhole (Text.codePoints (numeral n) ++ rest) = (numeral n, rest) := by
  rcases Nat.eq_zero_or_pos n with rfl | hpos
  · rfl
  · obtain ⟨hdigits, hne, hhead⟩ := Decimal.leading_numeral hpos
    have hspan := spanDigits_append hdigits hrest
    generalize numeral n = digits at *
    cases digits with
    | nil => exact absurd rfl hne
    | cons c digits =>
      change spanWhole (.char c :: (Text.codePoints digits ++ rest)) = _
      rw [spanWhole]
      · exact hspan
      · intro left h
        injection h with h
        injection h with h
        exact hhead (by rw [h]; rfl)

private theorem spanFraction_of_endsNumber (h : EndsNumber rest) :
    spanFraction rest = ([], rest) := by
  cases rest with
  | nil => rfl
  | cons p rest =>
    rw [spanFraction]
    rintro rest' h'
    injection h' with hp
    exact absurd hp (h p rfl).2.1

private theorem spanExponent_of_endsNumber (h : EndsNumber rest) :
    spanExponent rest = (none, rest) := by
  cases rest with
  | nil => rfl
  | cons p rest =>
    rw [spanExponent, if_neg]
    rintro ⟨hmark, -⟩
    cases hmark.symm.trans (h p rfl).2.2

theorem reads_readMagnitude {n : Nat} (hn : (numeral n).length ≤ numeralLimit)
    (hrest : EndsNumber rest) (negative : Bool) :
    Reads (readMagnitude negative (Text.codePoints (numeral n) ++ rest))
      (integer (if negative then -(n : Int) else n)) rest := by
  have hwhole := spanWhole_numeral n hrest
  rw [readMagnitude]
  split
  · rename_i hnil
    rw [hwhole] at hnil
    exact absurd hnil (numeral_ne_nil n)
  · refine reads_bind_iff.mpr ⟨_, ?_, reads_ok_iff.mpr ⟨rfl, ?_⟩⟩
    · rw [hwhole, spanFraction_of_endsNumber hrest, spanExponent_of_endsNumber hrest, ofParts,
        if_pos ⟨rfl, rfl⟩, if_neg (Nat.not_lt.mpr hn), ofNumeral_numeral]
      rfl
    · dsimp only
      rw [hwhole, spanFraction_of_endsNumber hrest, spanExponent_of_endsNumber hrest]

/-! ## Scalars -/

/-- A word begins with two characters that are no digits. -/
private theorem exists_of_mem_words : ∀ row ∈ words, ∃ c d t, row.1 = c :: d :: t ∧
    c.isDigit = false ∧ d.isDigit = false := by
  simp only [words, List.forall_mem_cons]
  refine ⟨⟨'n', 'u', _, rfl, ?_⟩, ⟨'t', 'r', _, rfl, ?_⟩, ⟨'f', 'a', _, rfl, ?_⟩,
    ⟨'N', 'a', _, rfl, ?_⟩, ⟨'I', 'n', _, rfl, ?_⟩, ⟨'-', 'I', _, rfl, ?_⟩, by simp⟩ <;> decide

private theorem findSome?_words_eq_none (h : ∀ row ∈ words, ¬Text.codePoints row.1 <+: input) :
    (words.findSome? fun (word, value) ↦ readWord? word value input) = none :=
  List.findSome?_eq_none_iff.mpr fun row hrow ↦ dif_neg fun hword ↦ h row hrow hword.2

private theorem findSome?_words_of_isDigit {d : Char} (hd : d.isDigit = true) :
    (words.findSome? fun (word, value) ↦ readWord? word value (.char d :: input)) = none := by
  refine findSome?_words_eq_none fun row hrow hprefix ↦ ?_
  obtain ⟨c, e, word, hword, hc, -⟩ := exists_of_mem_words row hrow
  rw [hword] at hprefix
  obtain ⟨hcd, -⟩ := List.cons_prefix_cons.mp hprefix
  injection hcd with hcd
  rw [hcd, hd] at hc
  cases hc

private theorem findSome?_words_of_isDigit_second {d : Char} (hd : d.isDigit = true)
    (c : CodePoint) :
    (words.findSome? fun (word, value) ↦ readWord? word value (c :: .char d :: input)) = none := by
  refine findSome?_words_eq_none fun row hrow hprefix ↦ ?_
  obtain ⟨c', e, word, hword, -, he⟩ := exists_of_mem_words row hrow
  rw [hword] at hprefix
  obtain ⟨-, hprefix⟩ := List.cons_prefix_cons.mp hprefix
  obtain ⟨hed, -⟩ := List.cons_prefix_cons.mp hprefix
  injection hed with hed
  rw [hed, hd] at he
  cases he

private theorem exists_digit_of_numeral (n : Nat) :
    ∃ d t, numeral n = d :: t ∧ d.isDigit = true := by
  obtain ⟨d, t, hnumeral⟩ := List.exists_cons_of_ne_nil (numeral_ne_nil n)
  exact ⟨d, t, hnumeral, Decimal.isDigit_of_mem_numeral (hnumeral ▸ List.mem_cons_self)⟩

private theorem reads_readScalar_numeral {n : Nat} (hn : (numeral n).length ≤ numeralLimit)
    (hrest : EndsNumber rest) :
    Reads (readScalar (Text.codePoints (numeral n) ++ rest)) (integer n) rest := by
  have hvalue := reads_readMagnitude hn hrest false
  rw [if_neg Bool.false_ne_true] at hvalue
  obtain ⟨d, t, hnumeral, hd⟩ := exists_digit_of_numeral n
  rw [hnumeral] at hvalue ⊢
  change Reads (readScalar (.char d :: (Text.codePoints t ++ rest))) _ _
  rw [readScalar, findSome?_words_of_isDigit hd]
  · exact hvalue
  · intro left hminus
    injection hminus with hminus
    injection hminus with hminus
    rw [hminus] at hd
    cases hd

private theorem reads_readScalar_minus {n : Nat} (hn : (numeral n).length ≤ numeralLimit)
    (hrest : EndsNumber rest) :
    Reads (readScalar (.char '-' :: (Text.codePoints (numeral n) ++ rest))) (integer (-n))
      rest := by
  have hvalue := reads_readMagnitude hn hrest true
  rw [if_pos rfl] at hvalue
  obtain ⟨d, t, hnumeral, hd⟩ := exists_digit_of_numeral n
  rw [hnumeral] at hvalue ⊢
  obtain ⟨r, hr, hrv, hrr⟩ := hvalue
  change Reads (readScalar (.char '-' :: .char d :: (Text.codePoints t ++ rest))) _ _
  rw [readScalar, findSome?_words_of_isDigit_second hd]
  dsimp only
  change readMagnitude true (.char d :: (Text.codePoints t ++ rest)) = _ at hr
  rw [hr]
  exact ⟨_, rfl, hrv, hrr⟩

theorem reads_readScalar_integer {i : Int} (hi : hasNumeral i = true) (hrest : EndsNumber rest) :
    Reads (readScalar (Text.codePoints (integerNumeral i) ++ rest)) (integer i) rest := by
  have hlength := length_numeral_of_hasNumeral hi
  rw [integerNumeral]
  by_cases hneg : i < 0
  · have hread := reads_readScalar_minus hlength hrest
    rw [Int.ofNat_natAbs_of_nonpos (Int.le_of_lt hneg), Int.neg_neg] at hread
    rw [if_pos hneg]
    exact hread
  · have hread := reads_readScalar_numeral hlength hrest
    rw [Int.natAbs_of_nonneg (Int.not_lt.mp hneg)] at hread
    rw [if_neg hneg]
    exact hread

/-- A word is read as its value if no word before it in the list is at the beginning of it. -/
theorem reads_readScalar_word (before : List (Text × Json)) {after : List (Text × Json)}
    {word : Text} {value : Json} (hwords : words = before ++ (word, value) :: after)
    (hne : word ≠ [])
    (hbefore : ∀ row ∈ before, ∀ rest, ¬Text.codePoints row.1 <+: word.codePoints ++ rest)
    (rest : List CodePoint) : Reads (readScalar (word.codePoints ++ rest)) value rest := by
  have hfirst : (before.findSome? fun (other, value) ↦
      readWord? other value (word.codePoints ++ rest)) = none :=
    List.findSome?_eq_none_iff.mpr fun row hrow ↦ dif_neg fun h ↦ hbefore row hrow rest h.2
  have hprefix : word ≠ [] ∧ word.codePoints <+: word.codePoints ++ rest :=
    ⟨hne, List.prefix_append _ _⟩
  have hword : readWord? word value (word.codePoints ++ rest) =
      some ⟨value, _, length_drop_word_lt hprefix⟩ := dif_pos hprefix
  rw [readScalar.eq_def, hwords, List.findSome?_append, hfirst, Option.none_or, List.findSome?_cons]
  dsimp only
  rw [hword]
  refine reads_ok_iff.mpr ⟨rfl, ?_⟩
  have hlength : word.length = word.codePoints.length := (List.length_map _).symm
  change List.drop word.length (word.codePoints ++ rest) = rest
  rw [hlength, List.drop_left]

theorem reads_readScalar_null (rest : List CodePoint) :
    Reads (readScalar (Text.codePoints "null".toList ++ rest)) null rest :=
  reads_readScalar_word [] rfl (by decide) (by simp) rest

theorem reads_readScalar_bool (b : Bool) (rest : List CodePoint) :
    Reads (readScalar (Text.codePoints ((bool b).written 0) ++ rest)) (bool b) rest := by
  have hne : ∀ {s t : Text} {c d : Char}, c ≠ d → ∀ rest,
      ¬Text.codePoints (c :: s) <+: Text.codePoints (d :: t) ++ rest := by
    intro s t c d hcd rest hprefix
    obtain ⟨hsame, -⟩ := List.cons_prefix_cons.mp hprefix
    injection hsame with hsame
    exact hcd hsame
  cases b with
  | true =>
    refine reads_readScalar_word [("null".toList, null)] rfl (by decide) ?_ rest
    rw [List.forall_mem_singleton]
    exact hne (by decide)
  | false =>
    refine reads_readScalar_word [("null".toList, null), ("true".toList, bool true)] rfl
      (by decide) ?_ rest
    rw [List.forall_mem_cons, List.forall_mem_singleton]
    exact ⟨hne (by decide), hne (by decide)⟩

end

end Json

end TermEmbedding
