import TermEmbedding.Proofs.Expression.Grammar
import TermEmbedding.Proofs.Model.Unmarked
import TermEmbedding.Proofs.Text.Integers
import TermEmbedding.Snapshot.Reader
import TermEmbedding.Snapshot.Writer

/-!
# Terms as text and back

A term is put away as its text and taken up by reading it. Types and running numbers come back as
they were. A vector comes back as it was if its entries are finite, and otherwise not at all: a
vector with an infinite entry can be written and the reader refuses it.

A vector loses the mark of where it came up. A finite one has none to lose.
-/

namespace TermEmbedding

/-! ## Lists between brackets -/

namespace Text

/-- Joined pieces come apart again where no piece has a comma or a blank. -/
private theorem map_strip_pieces_join {ps : List Text} (hne : ps ≠ [])
    (h : ∀ p ∈ ps, ∀ c ∈ p, c ≠ ',' ∧ isBlank c = false) :
    (pieces ',' (join [',', ' '] ps)).map strip = ps ∧
      (pieces ',' (' ' :: join [',', ' '] ps)).map strip = ps := by
  have hlead : ∀ t : Text, (pieces ',' (' ' :: t)).map strip = (pieces ',' t).map strip := by
    intro t
    rw [pieces, if_neg (by decide)]
    obtain ⟨piece, others, hp⟩ := List.exists_cons_of_ne_nil (pieces_ne_nil ',' t)
    rw [hp, List.map_cons, List.map_cons, strip_cons_blank (by decide)]
  -- the blank behind each comma goes when the pieces are stripped
  rw [hlead, and_self]
  induction ps with
  | nil => exact absurd rfl hne
  | cons p rest ih =>
    have hcomma : ',' ∉ p := fun hc ↦ (h p List.mem_cons_self _ hc).1 rfl
    have hstrip : strip p = p := strip_of_forall fun c hc ↦ (h p List.mem_cons_self c hc).2
    cases rest with
    | nil => rw [join, pieces_of_not_mem hcomma, List.map_singleton, hstrip]
    | cons q rest =>
      have hrest := ih (List.cons_ne_nil _ _) fun p hp ↦ h p (List.mem_cons_of_mem _ hp)
      change (pieces ',' ((p ++ [',', ' ']) ++ join [',', ' '] (q :: rest))).map strip = _
      rw [List.append_assoc, List.cons_append, pieces_append hcomma, List.map_cons, hstrip]
      change _ :: (pieces ',' (' ' :: join [',', ' '] (q :: rest))).map strip = _
      rw [hlead, hrest]

@[simp] theorem ofCodePoints_codePoints (t : Text) : ofCodePoints (codePoints t) = t := by
  induction t with
  | nil => rfl
  | cons c t ih => exact congrArg (c :: ·) ih

end Text

/-! ## Numbers -/

private theorem isNumeral_numeral {i : Int} (h : hasNumeral i = true) :
    IsNumeral (numeral i.natAbs) i.natAbs where
  isDigit _ := Decimal.isDigit_of_mem_numeral
  nonempty := numeral_ne_nil _
  short := length_numeral_of_hasNumeral h
  value := (ofNumeral_numeral _).symm

theorem isIndex_text {index : TermIndex}
    (h : (match index with
      | .primitive n => hasNumeral n
      | .nonprimitive n => hasNumeral n) = true) : IsIndex index.text [] index := by
  cases index with
  | primitive n => exact .primitive (isNumeral_numeral h) (by rintro _ ⟨⟩)
  | nonprimitive n => exact .nonprimitive (isNumeral_numeral h) (by rintro _ ⟨⟩)

/-! ## Vectors -/

theorem read?_write_eq_some_iff {x y : Float} :
    Decimal.read? (Decimal.write x) = some y ↔ x.isFinite = true ∧ y = x := by
  cases hx : x.isFinite with
  | true => rw [Decimal.read?_write_of_isFinite hx, Option.some.injEq, eq_comm]; simp
  | false => rw [Decimal.read?_write_of_not_isFinite hx]; simp

private theorem of_mem_write {x : Float} {c : Char} (h : c ∈ Decimal.write x) :
    c ≠ ']' ∧ c ≠ ',' ∧ isBlank c = false := by
  -- both alphabets are small enough to look at
  cases hx : x.isFinite with
  | true =>
    have hall : Decimal.numberCharacters.all
        (fun c ↦ c ≠ ']' ∧ c ≠ ',' ∧ isBlank c = false) = true := by
      decide +kernel
    exact of_decide_eq_true
      (List.all_eq_true.mp hall c (Decimal.mem_numberCharacters_of_mem_write hx h))
  | false =>
    have hall : [['n', 'a', 'n'], ['i', 'n', 'f'], ['-', 'i', 'n', 'f']].all (fun t ↦ t.all
        (fun c ↦ c ≠ ']' ∧ c ≠ ',' ∧ isBlank c = false)) = true := by
      decide +kernel
    have hword := List.all_eq_true.mp hall _ (Decimal.write_of_not_isFinite hx)
    exact of_decide_eq_true (List.all_eq_true.mp hword c h)

private theorem readEntries_write {xs : List Float} (hne : xs ≠ []) (context : Text) :
    AnswersIf (readEntries context (Text.pieces ',' (Text.join [',', ' '] (xs.map Decimal.write))))
      (∀ x ∈ xs, x.isFinite = true) xs := by
  intro ys
  have hwritten : xs.map Decimal.write ≠ [] := by simpa using hne
  have hpieces := (Text.map_strip_pieces_join hwritten
    (fun p hp c hc ↦ by
      obtain ⟨x, -, rfl⟩ := List.mem_map.mp hp
      exact (of_mem_write hc).2)).1
  rw [readEntries_eq_ok_iff, ← List.forall₂_map_left_iff (f := Text.strip) (R := IsEntry),
    hpieces, List.forall₂_map_left_iff]
  simp only [← read?_eq_some_iff, read?_write_eq_some_iff]
  clear hne hwritten hpieces
  induction xs generalizing ys with
  | nil => simp
  | cons x xs ih =>
    rw [List.forall_mem_cons]
    constructor
    · rintro (_ | ⟨⟨hx, rfl⟩, hrest⟩)
      obtain ⟨hall, rfl⟩ := (ih _).mp hrest
      exact ⟨⟨hx, hall⟩, rfl⟩
    · rintro ⟨⟨hx, hall⟩, rfl⟩
      exact .cons ⟨hx, rfl⟩ ((ih _).mpr ⟨hall, rfl⟩)

private theorem reads_readVector_vectorText_iff {xs ys : List Float} (hne : xs ≠ []) {rest : Text} :
    Reads (readVector (vectorText xs)) ys rest ↔
      (∀ x ∈ xs, x.isFinite = true) ∧ ys = xs ∧ rest = [] := by
  have hinside : ∀ c ∈ Text.join [',', ' '] (xs.map Decimal.write), decide (c ≠ ']') = true := by
    intro c hc
    rcases Text.mem_join hc with hc | ⟨p, hp, hc⟩
    · apply decide_eq_true
      rintro rfl
      simp at hc
    · obtain ⟨x, -, rfl⟩ := List.mem_map.mp hp
      exact decide_eq_true (of_mem_write hc).1
  have hends : Text.EndsRun (· ≠ ']') [']'] := by
    rintro c ⟨⟩
    decide
  obtain ⟨htake, hdrop⟩ := Text.takeWhile_dropWhile_iff.mpr ⟨rfl, hinside, hends⟩
  rw [vectorText, List.cons_append, readVector]
  split
  · rename_i hnil
    rw [hdrop] at hnil
    cases hnil
  · rename_i close left hclose
    rw [hdrop] at hclose
    cases hclose
    rw [htake, reads_bind_iff]
    constructor
    · rintro ⟨zs, hzs, hread⟩
      obtain ⟨rfl, rfl⟩ := reads_ok_iff.mp hread
      obtain ⟨hfinite, rfl⟩ := (readEntries_write hne _ zs).mp hzs
      exact ⟨hfinite, rfl, rfl⟩
    · rintro ⟨hfinite, rfl, rfl⟩
      exact ⟨_, (readEntries_write hne _).eq_ok hfinite, reads_ok_iff.mpr ⟨rfl, rfl⟩⟩

/-! ## References -/

section

variable {K : Type}

/-- Whether all entries of a reference are finite numbers. -/
def TermReference.IsFinite : TermReference Float → Prop
  | function _ => True
  | vector _ xs _ => ∀ x ∈ xs, x.isFinite = true

/-- Whether a reference can stand in a text: types have no sign and vectors an entry. -/
def TermReference.Readable : TermReference K → Prop
  | function p => 0 ≤ p.typeId
  | vector t xs _ => 0 ≤ t ∧ xs ≠ []

end

private theorem reads_readReference_pointer {p : TermPointer} (htext : p.hasText = true)
    (hsign : 0 ≤ p.typeId) : Reads (readReference p.text) (.function p) [] := by
  obtain ⟨htype, hindex⟩ := Bool.and_eq_true_iff.mp htext
  have hp : (⟨(p.typeId.natAbs : TypeId), p.index⟩ : TermPointer) = p := by
    obtain ⟨t, index⟩ := p
    exact congrArg (TermPointer.mk · index) (Int.natAbs_of_nonneg hsign)
  rw [TermPointer.text, integerNumeral_of_nonneg hsign]
  refine reads_readReference_iff.mpr ⟨_, (List.append_nil _).symm, ?_⟩
  exact hp ▸ .function (isNumeral_numeral htype) (isIndex_text hindex)

private theorem reads_readReference_vectorText_iff {t : TypeId} {xs : List Float}
    (htext : hasNumeral t = true) (hsign : 0 ≤ t) (hne : xs ≠ [])
    {r : TermReference Float} {rest : Text} :
    Reads (readReference ('#' :: (numeral t.natAbs ++ vectorText xs))) r rest ↔
      (∀ x ∈ xs, x.isFinite = true) ∧ r = .vector t xs .anywhere ∧ rest = [] := by
  have htype := isNumeral_numeral htext
  have ht : (t.natAbs : TypeId) = t := Int.natAbs_of_nonneg hsign
  have hvector := @reads_readVector_vectorText_iff xs
  rw [vectorText, List.cons_append] at hvector ⊢
  rw [reads_readReference_digits_iff htype.isDigit (by decide)]
  constructor
  · rintro ⟨n, hn, h⟩
    rw [if_pos rfl] at h
    obtain ⟨ys, hys, rfl⟩ := h
    obtain ⟨hfinite, rfl, rfl⟩ := (hvector hne).mp hys
    rw [hn.value, ← htype.value, ht]
    exact ⟨hfinite, rfl, rfl⟩
  · rintro ⟨hfinite, rfl, rfl⟩
    refine ⟨_, htype, ?_⟩
    rw [if_pos rfl, ht]
    exact ⟨xs, (hvector hne).mpr ⟨hfinite, rfl, rfl⟩, rfl⟩

/-- **A reference is read back from its text if it is finite, and otherwise not at all.** -/
theorem reads_readReference_text_iff {r r' : TermReference Float} (htext : r.hasText = true)
    (hr : r.Readable) {rest : Text} :
    Reads (readReference r.text) r' rest ↔ r.IsFinite ∧ r' = r.unmarked ∧ rest = [] := by
  cases r with
  | function p =>
    have hread := reads_readReference_pointer htext hr
    constructor
    · intro h
      obtain ⟨rfl, rfl⟩ := h.unique hread
      exact ⟨trivial, rfl, rfl⟩
    · rintro ⟨-, rfl, rfl⟩
      exact hread
  | vector t xs o =>
    rw [TermReference.text, integerNumeral_of_nonneg hr.1]
    exact reads_readReference_vectorText_iff htext hr.1 hr.2

end TermEmbedding
