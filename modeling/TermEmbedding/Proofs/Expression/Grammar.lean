import TermEmbedding.Expression.Reader
import TermEmbedding.Proofs.Decimal.Digits
import TermEmbedding.Proofs.Reading
import TermEmbedding.Proofs.Text.Pieces

/-!
# The language of expressions

The grammar is given here apart from the reader, as relations between a text and what it stands for.
Blanks separate nothing by themselves: atoms may stand side by side. What keeps the grammar
unambiguous is that a run of digits and an identifier go as far as they can. Whether they do is a
matter of what follows, so the relations for such texts have the rest of the input as an argument.

The reader accepts the texts of the grammar and no others. It has one answer, so a text begins with
one atom at most, and the atom stands for one expression.
-/

namespace TermEmbedding

/-! ## References -/

/-- A run of digits that is not too long, and its number. -/
structure IsNumeral (digits : Text) (n : Nat) : Prop where
  isDigit : ∀ c ∈ digits, c.isDigit = true
  nonempty : digits ≠ []
  short : digits.length ≤ numeralLimit
  value : n = ofNumeral digits

/-- A finite decimal number, without underscores. -/
structure IsEntry (t : Text) (x : Float) : Prop where
  value : Decimal.number? t = some x
  finite : x.isFinite = true
  plain : '_' ∉ t

/-- Numbers between brackets: at each comma one ends, and blanks around it do not matter. -/
inductive IsVector : Text → List Float → Prop
  | intro {entries : List Text} {xs : List Float} (hne : entries ≠ [])
      (hplain : ∀ t ∈ entries, ',' ∉ t ∧ ']' ∉ t)
      (hentries : List.Forall₂ (fun t x ↦ IsEntry (Text.strip t) x) entries xs) :
      IsVector ('[' :: (Text.join [','] entries ++ [']'])) xs

/-- A letter and the running number of a term. All digits that follow the letter belong to it. -/
inductive IsIndex : Text → Text → TermIndex → Prop
  | primitive {digits rest : Text} {n : Nat} (hdigits : IsNumeral digits n)
      (hrest : Text.EndsRun Char.isDigit rest) : IsIndex ('p' :: digits) rest (.primitive n)
  | nonprimitive {digits rest : Text} {n : Nat} (hdigits : IsNumeral digits n)
      (hrest : Text.EndsRun Char.isDigit rest) : IsIndex ('n' :: digits) rest (.nonprimitive n)

/-- A type with a vector of it or with the index of a term of it. -/
inductive IsReference : Text → Text → TermReference Float → Prop
  | vector {digits v rest : Text} {t : Nat} {xs : List Float} (htype : IsNumeral digits t)
      (hvector : IsVector v xs) :
      IsReference ('#' :: (digits ++ v)) rest (.vector t xs .anywhere)
  | function {digits i rest : Text} {t : Nat} {index : TermIndex} (htype : IsNumeral digits t)
      (hindex : IsIndex i rest index) :
      IsReference ('#' :: (digits ++ i)) rest (.function ⟨t, index⟩)

/-- A bound name. All characters up to a blank or a closing parenthesis belong to it. -/
structure IsIdentifier (bindings : Bindings Float) (name rest : Text) (r : TermReference Float) :
    Prop where
  characters : ∀ c ∈ name, (!endsIdentifier c) = true
  nonempty : name ≠ []
  ends : Text.EndsRun (!endsIdentifier ·) rest
  bound : bindings.get? name = some r

/-! ## Atoms and applications -/

/-- What is applied, as an expression of its own. -/
def Callee.expression {K : Type} : Callee K → Expression K
  | term p => .reference (.function p)
  | application f x => .application f x

mutual

/-- One atom of a text, with the rest of the text behind it. An identifier may have parentheses and
pound signs in it, but it does not begin with one. -/
inductive IsAtom (bindings : Bindings Float) : Text → Text → Expression Float → Prop
  | application {c rest : Text} {e : Expression Float} (h : IsApplication bindings c rest e) :
      IsAtom bindings c rest e
  | reference {c rest : Text} {r : TermReference Float} (h : IsReference c rest r) :
      IsAtom bindings c rest (.reference r)
  | identifier {c rest : Text} {r : TermReference Float}
      (hstart : ∀ a ∈ c.head?, a ≠ '(' ∧ a ≠ '#') (h : IsIdentifier bindings c rest r) :
      IsAtom bindings c rest (.reference r)

/-- At least two atoms in parentheses. The first one is no vector and is applied to the others one
after the other. -/
inductive IsApplication (bindings : Bindings Float) : Text → Text → Expression Float → Prop
  | intro {inner rest : Text} {f : Callee Float} {x : Expression Float}
      {others : List (Expression Float)}
      (h : AreParts bindings inner rest (f.expression :: x :: others)) :
      IsApplication bindings ('(' :: inner) rest (f.applyAll x others)

/-- Atoms up to a closing parenthesis and with it. Blanks may stand before each of them. -/
inductive AreParts (bindings : Bindings Float) : Text → Text → List (Expression Float) → Prop
  | close {blanks rest : Text} (hblanks : ∀ c ∈ blanks, isBlank c = true) :
      AreParts bindings (blanks ++ [')']) rest []
  | atom {blanks c tail rest : Text} {e : Expression Float} {others : List (Expression Float)}
      (hblanks : ∀ c ∈ blanks, isBlank c = true) (hatom : IsAtom bindings c (tail ++ rest) e)
      (hothers : AreParts bindings tail rest others) :
      AreParts bindings (blanks ++ (c ++ tail)) rest (e :: others)

end

/-! ## Reading references -/

theorem readNumeral_eq_ok_iff {digits context : Text} {n : Nat}
    (hdigits : ∀ c ∈ digits, c.isDigit = true) :
    readNumeral digits context = .ok n ↔ IsNumeral digits n := by
  rw [readNumeral]
  by_cases hempty : digits = []
  · rw [if_pos hempty]
    exact iff_of_false (by rintro ⟨⟩) fun h ↦ h.nonempty hempty
  · rw [if_neg hempty]
    by_cases hlong : numeralLimit < digits.length
    · rw [if_pos hlong]
      exact iff_of_false (by rintro ⟨⟩) fun h ↦ Nat.not_lt.mpr h.short hlong
    · rw [if_neg hlong]
      constructor
      · rintro ⟨⟩
        exact ⟨hdigits, hempty, Nat.not_lt.mp hlong, rfl⟩
      · intro h
        rw [h.value]
        rfl

theorem read?_eq_some_iff {t : Text} {x : Float} : Decimal.read? t = some x ↔ IsEntry t x := by
  rw [Decimal.read?]
  by_cases hplain : '_' ∈ t
  · rw [if_pos hplain]
    exact iff_of_false (by rintro ⟨⟩) fun h ↦ h.plain hplain
  · rw [if_neg hplain, Option.filter_eq_some_iff]
    exact ⟨fun h ↦ ⟨h.1, h.2, hplain⟩, fun h ↦ ⟨h.value, h.finite⟩⟩

theorem reads_digits_iff {kind : Nat → TermIndex} {letter : Char} {inner rest : Text}
    {index : TermIndex}
    (h : (inner.dropWhile Char.isDigit).length < (letter :: inner).length) :
    Reads (do
      let n ← readNumeral (inner.takeWhile Char.isDigit) (letter :: inner)
      return (⟨kind n, inner.dropWhile Char.isDigit, h⟩ : Reading TermIndex (letter :: inner)))
        index rest ↔
      ∃ digits n, inner = digits ++ rest ∧ IsNumeral digits n ∧
        Text.EndsRun Char.isDigit rest ∧ index = kind n := by
  rw [reads_bind_iff]
  constructor
  · rintro ⟨n, hn, hread⟩
    obtain ⟨rfl, rfl⟩ := reads_ok_iff.mp hread
    obtain ⟨hsplit, hdigits, hends⟩ := (@Text.takeWhile_dropWhile_iff Char.isDigit inner _ _).mp
      ⟨rfl, rfl⟩
    exact ⟨_, n, hsplit, (readNumeral_eq_ok_iff hdigits).mp hn, hends, rfl⟩
  · rintro ⟨digits, n, rfl, hdigits, hends, rfl⟩
    obtain ⟨htake, hdrop⟩ := Text.takeWhile_dropWhile_iff.mpr ⟨rfl, hdigits.isDigit, hends⟩
    refine ⟨n, ?_, reads_ok_iff.mpr ⟨rfl, hdrop⟩⟩
    rw [htake]
    exact (readNumeral_eq_ok_iff hdigits.isDigit).mpr hdigits

theorem reads_readIndex_iff {text rest : Text} {index : TermIndex} :
    Reads (readIndex text) index rest ↔ ∃ c, text = c ++ rest ∧ IsIndex c rest index := by
  constructor
  · intro h
    rw [readIndex.eq_def] at h
    split at h
    · obtain ⟨digits, n, rfl, hdigits, hends, rfl⟩ := (reads_digits_iff _).mp h
      exact ⟨_, rfl, .primitive hdigits hends⟩
    · obtain ⟨digits, n, rfl, hdigits, hends, rfl⟩ := (reads_digits_iff _).mp h
      exact ⟨_, rfl, .nonprimitive hdigits hends⟩
    · exact absurd h not_reads_error
  · rintro ⟨c, rfl, hindex⟩
    cases hindex with
    | primitive hdigits hends =>
      exact (reads_digits_iff _).mpr ⟨_, _, rfl, hdigits, hends, rfl⟩
    | nonprimitive hdigits hends =>
      exact (reads_digits_iff _).mpr ⟨_, _, rfl, hdigits, hends, rfl⟩

theorem readEntries_eq_ok_iff {context : Text} {ps : List Text} {xs : List Float} :
    readEntries context ps = .ok xs ↔
      List.Forall₂ (fun p x ↦ IsEntry (Text.strip p) x) ps xs := by
  simp only [← read?_eq_some_iff]
  induction ps generalizing xs with
  | nil =>
    rw [readEntries, List.forall₂_nil_left_iff]
    constructor
    · rintro ⟨⟩
      rfl
    · rintro rfl
      rfl
  | cons p ps ih =>
    rw [readEntries]
    constructor
    · intro h
      cases hread : Decimal.read? (Text.strip p) with
      | none =>
        simp only [hread] at h
        cases h
      | some x =>
        simp only [hread] at h
        obtain ⟨rest, hrest, h⟩ := exists_of_bind_eq_ok h
        cases h
        exact .cons hread (ih.mp hrest)
    · rintro (_ | ⟨hread, hrest⟩)
      simp only [hread]
      rw [bind_ok (ih.mpr hrest)]
      rfl

private theorem Text.mem_join_of_mem {separator piece : Text} {pieces : List Text}
    (h : piece ∈ pieces) {c : Char} (hc : c ∈ piece) : c ∈ join separator pieces := by
  fun_induction join separator pieces with
  | case1 => cases h
  | case2 p =>
    rw [List.mem_singleton] at h
    exact h ▸ hc
  | case3 p q rest ih =>
    rw [List.append_assoc, List.mem_append, List.mem_append]
    rcases List.mem_cons.mp h with rfl | h
    · exact .inl hc
    · exact .inr (.inr (ih h))

private theorem exists_isVector_of_reads {text rest : Text} {xs : List Float}
    (h : Reads (readVector text) xs rest) : ∃ c, text = c ++ rest ∧ IsVector c xs := by
  rw [readVector.eq_def] at h
  split at h
  · rename_i inner
    obtain ⟨hsplit, hinside, hends⟩ := Text.takeWhile_dropWhile_iff.mp
      (⟨rfl, rfl⟩ : inner.takeWhile (· ≠ ']') = _ ∧ inner.dropWhile (· ≠ ']') = _)
    obtain ⟨hne, hcomma, hjoin⟩ := Text.pieces_eq_iff.mp
      (rfl : Text.pieces ',' (inner.takeWhile (· ≠ ']')) = _)
    split at h
    · exact absurd h not_reads_error
    · rename_i close tail hdrop
      obtain ⟨ys, hys, h⟩ := reads_bind_iff.mp h
      obtain ⟨rfl, rfl⟩ := reads_ok_iff.mp h
      rw [hdrop] at hsplit hends
      -- what stops the run is the bracket
      obtain rfl : close = ']' := by simpa using hends close rfl
      refine ⟨_, ?_, .intro hne ?_ (readEntries_eq_ok_iff.mp hys)⟩
      · rw [← hjoin, List.cons_append, List.append_assoc, List.singleton_append]
        exact congrArg ('[' :: ·) hsplit
      · intro t ht
        refine ⟨hcomma t ht, fun hbracket ↦ ?_⟩
        have hmem := @Text.mem_join_of_mem [','] t _ ht _ hbracket
        rw [← hjoin] at hmem
        simpa using hinside _ hmem
  · exact absurd h not_reads_error

theorem IsVector.reads {c : Text} {xs : List Float} (h : IsVector c xs) (rest : Text) :
    Reads (readVector (c ++ rest)) xs rest := by
  obtain ⟨hne, hplain, hentries⟩ := h
  rename_i entries
  have hinside : ∀ c ∈ Text.join [','] entries, decide (c ≠ ']') = true := by
    intro c hc
    rcases Text.mem_join hc with hc | ⟨t, ht, hc⟩
    · rw [List.mem_singleton.mp hc]
      decide
    · exact decide_eq_true fun hbracket ↦ (hplain t ht).2 (hbracket ▸ hc)
  have hends : Text.EndsRun (· ≠ ']') (']' :: rest) := by
    rintro c ⟨⟩
    decide
  obtain ⟨htake, hdrop⟩ := Text.takeWhile_dropWhile_iff.mpr ⟨rfl, hinside, hends⟩
  rw [List.cons_append, List.append_assoc, List.singleton_append, readVector]
  split
  · rename_i hnil
    rw [hdrop] at hnil
    cases hnil
  · rename_i close tail hcons
    rw [hdrop] at hcons
    cases hcons
    refine reads_bind_iff.mpr ⟨xs, ?_, reads_ok_iff.mpr ⟨rfl, rfl⟩⟩
    rw [htake, Text.pieces_eq_iff.mpr ⟨hne, fun t ht ↦ (hplain t ht).1, rfl⟩]
    exact readEntries_eq_ok_iff.mpr hentries

theorem reads_readVector_iff {text rest : Text} {xs : List Float} :
    Reads (readVector text) xs rest ↔ ∃ c, text = c ++ rest ∧ IsVector c xs := by
  constructor
  · exact exists_isVector_of_reads
  · rintro ⟨c, rfl, h⟩
    exact h.reads rest

/-- A reference whose type has been read. What comes next decides whether it is a vector. -/
theorem readReference_eq {digits : Text} (hdigits : ∀ c ∈ digits, c.isDigit = true) {c : Char}
    (hc : c.isDigit = false) (tail : Text) :
    readReference ('#' :: (digits ++ c :: tail)) = (do
      let t : TypeId ← readNumeral digits ('#' :: (digits ++ c :: tail))
      if c = '[' then
        let r ← readVector (c :: tail)
        return ⟨.vector t r.value .anywhere, r.rest, by
          have := r.shorter; simp only [List.length_cons, List.length_append] at *; omega⟩
      else
        let r ← readIndex (c :: tail)
        return ⟨.function ⟨t, r.value⟩, r.rest, by
          have := r.shorter; simp only [List.length_cons, List.length_append] at *; omega⟩) := by
  have hdrop := Decimal.dropWhile_digits hdigits hc tail
  rw [readReference]
  split
  · rename_i hnil
    rw [hdrop] at hnil
    cases hnil
  · rename_i c' tail' hcons
    rw [hdrop] at hcons
    cases hcons
    rw [Decimal.takeWhile_digits hdigits hc]

theorem reads_readReference_digits_iff {digits : Text} (hdigits : ∀ c ∈ digits, c.isDigit = true)
    {c : Char} (hc : c.isDigit = false) {tail rest : Text} {r : TermReference Float} :
    Reads (readReference ('#' :: (digits ++ c :: tail))) r rest ↔
      ∃ t, IsNumeral digits t ∧
        if c = '[' then ∃ xs, Reads (readVector (c :: tail)) xs rest ∧ r = .vector t xs .anywhere
        else ∃ index, Reads (readIndex (c :: tail)) index rest ∧ r = .function ⟨t, index⟩ := by
  rw [readReference_eq hdigits hc]
  constructor
  · intro h
    obtain ⟨i, hi, h⟩ := reads_bind_iff.mp h
    obtain ⟨t, ht, hi⟩ := exists_of_bind_eq_ok hi
    cases hi
    refine ⟨t, (readNumeral_eq_ok_iff hdigits).mp ht, ?_⟩
    split
    · rename_i hbracket
      rw [if_pos hbracket] at h
      obtain ⟨v, hv, h⟩ := reads_bind_iff.mp h
      obtain ⟨rfl, rfl⟩ := reads_ok_iff.mp h
      exact ⟨v.value, ⟨v, hv, rfl, rfl⟩, rfl⟩
    · rename_i hletter
      rw [if_neg hletter] at h
      obtain ⟨i, hi, h⟩ := reads_bind_iff.mp h
      obtain ⟨rfl, rfl⟩ := reads_ok_iff.mp h
      exact ⟨i.value, ⟨i, hi, rfl, rfl⟩, rfl⟩
  · rintro ⟨t, ht, h⟩
    refine reads_bind_iff.mpr ⟨t, ?_, ?_⟩
    · rw [(readNumeral_eq_ok_iff hdigits).mpr ht]
      rfl
    · split at h
      · rename_i hbracket
        obtain ⟨xs, ⟨v, hv, rfl, rfl⟩, rfl⟩ := h
        rw [if_pos hbracket]
        exact reads_bind_iff.mpr ⟨v, hv, reads_ok_iff.mpr ⟨rfl, rfl⟩⟩
      · rename_i hletter
        obtain ⟨index, ⟨i, hi, rfl, rfl⟩, rfl⟩ := h
        rw [if_neg hletter]
        exact reads_bind_iff.mpr ⟨i, hi, reads_ok_iff.mpr ⟨rfl, rfl⟩⟩

theorem IsVector.exists_cons {v : Text} {xs : List Float} (h : IsVector v xs) :
    ∃ inner, v = '[' :: inner := by
  cases h
  exact ⟨_, rfl⟩

theorem IsIndex.exists_cons {i rest : Text} {index : TermIndex} (h : IsIndex i rest index) :
    ∃ letter digits, i = letter :: digits ∧ letter.isDigit = false ∧ letter ≠ '[' := by
  cases h with
  | primitive => exact ⟨'p', _, rfl, by decide, by decide⟩
  | nonprimitive => exact ⟨'n', _, rfl, by decide, by decide⟩

theorem IsReference.exists_cons {c rest : Text} {r : TermReference Float}
    (h : IsReference c rest r) : ∃ inner, c = '#' :: inner := by
  cases h with
  | vector => exact ⟨_, rfl⟩
  | function => exact ⟨_, rfl⟩

theorem readReference_of_ne {c : Char} (hc : c ≠ '#') (rest : Text) :
    readReference (c :: rest) = .error (.noPound (c :: rest)) := by
  rw [readReference]
  · rfl
  · exact fun _ h ↦ hc (List.cons.inj h).1

theorem readReference_of_ends {inner : Text} (h : inner.dropWhile Char.isDigit = []) :
    readReference ('#' :: inner) = .error (.referenceEnds ('#' :: inner)) := by
  rw [readReference]
  split
  · rfl
  · rename_i hcons
    rw [h] at hcons
    cases hcons

private theorem exists_isReference_of_reads {text rest : Text} {r : TermReference Float}
    (h : Reads (readReference text) r rest) : ∃ c, text = c ++ rest ∧ IsReference c rest r := by
  rcases text with _ | ⟨c, inner⟩
  · exact absurd h not_reads_error
  by_cases hc : c = '#'
  · subst hc
    obtain ⟨hsplit, hdigits, hends⟩ := Text.takeWhile_dropWhile_iff.mp
      (⟨rfl, rfl⟩ : inner.takeWhile Char.isDigit = _ ∧ inner.dropWhile Char.isDigit = _)
    rcases hdrop : inner.dropWhile Char.isDigit with _ | ⟨c, tail⟩
    · rw [readReference_of_ends hdrop] at h
      exact absurd h not_reads_error
    · rw [hdrop] at hsplit hends
      rw [hsplit, reads_readReference_digits_iff hdigits (hends c rfl)] at h
      obtain ⟨t, ht, h⟩ := h
      rw [hsplit]
      split at h
      · obtain ⟨xs, hread, rfl⟩ := h
        obtain ⟨v, hv, hvector⟩ := reads_readVector_iff.mp hread
        exact ⟨_, by rw [hv]; simp, .vector ht hvector⟩
      · obtain ⟨index, hread, rfl⟩ := h
        obtain ⟨i, hi, hindex⟩ := reads_readIndex_iff.mp hread
        exact ⟨_, by rw [hi]; simp, .function ht hindex⟩
  · rw [readReference_of_ne hc] at h
    exact absurd h not_reads_error

theorem IsReference.reads {c rest : Text} {r : TermReference Float} (h : IsReference c rest r) :
    Reads (readReference (c ++ rest)) r rest := by
  cases h with
  | vector ht hvector =>
    obtain ⟨inner, rfl⟩ := hvector.exists_cons
    rw [List.cons_append, List.append_assoc]
    refine (reads_readReference_digits_iff ht.isDigit (by decide)).mpr ⟨_, ht, ?_⟩
    rw [if_pos rfl]
    exact ⟨_, hvector.reads rest, rfl⟩
  | function ht hindex =>
    obtain ⟨letter, digits, rfl, hletter, hbracket⟩ := hindex.exists_cons
    rw [List.cons_append, List.append_assoc]
    refine (reads_readReference_digits_iff ht.isDigit hletter).mpr ⟨_, ht, ?_⟩
    rw [if_neg hbracket]
    exact ⟨_, reads_readIndex_iff.mpr ⟨_, rfl, hindex⟩, rfl⟩

theorem reads_readReference_iff {text rest : Text} {r : TermReference Float} :
    Reads (readReference text) r rest ↔ ∃ c, text = c ++ rest ∧ IsReference c rest r := by
  constructor
  · exact exists_isReference_of_reads
  · rintro ⟨c, rfl, h⟩
    exact h.reads

/-! ## Reading atoms -/

variable {bindings : Bindings Float}

theorem lookup_eq_ok_iff {name : Text} {r : TermReference Float} :
    bindings.lookup name = .ok r ↔ bindings.get? name = some r := by
  rw [Bindings.lookup]
  cases bindings.get? name with
  | none => exact iff_of_false (by rintro ⟨⟩) (by rintro ⟨⟩)
  | some r' =>
    exact ⟨fun h ↦ congrArg some (Except.ok.inj h), fun h ↦ congrArg _ (Option.some.inj h)⟩

theorem reads_readIdentifier_iff {text rest : Text} {r : TermReference Float} :
    Reads (readIdentifier bindings text) r rest ↔
      ∃ c, text = c ++ rest ∧ IsIdentifier bindings c rest r := by
  constructor
  · intro h
    rw [readIdentifier.eq_def] at h
    split at h
    · exact absurd h not_reads_error
    · rename_i c tail
      split at h
      · exact absurd h not_reads_error
      · rename_i hc
        obtain ⟨s, hs, h⟩ := reads_bind_iff.mp h
        obtain ⟨rfl, rfl⟩ := reads_ok_iff.mp h
        obtain ⟨hsplit, hcharacters, hends⟩ := Text.takeWhile_dropWhile_iff.mp
          (⟨rfl, rfl⟩ : tail.takeWhile (!endsIdentifier ·) = _ ∧
            tail.dropWhile (!endsIdentifier ·) = _)
        refine ⟨_, congrArg (c :: ·) hsplit, ?_, List.cons_ne_nil _ _, hends,
          lookup_eq_ok_iff.mp hs⟩
        exact List.forall_mem_cons.mpr ⟨by simpa using hc, hcharacters⟩
  · rintro ⟨name, rfl, h⟩
    obtain ⟨c, tail, rfl⟩ := List.exists_cons_of_ne_nil h.nonempty
    obtain ⟨hc, hcharacters⟩ := List.forall_mem_cons.mp h.characters
    obtain ⟨htake, hdrop⟩ := Text.takeWhile_dropWhile_iff.mpr ⟨rfl, hcharacters, h.ends⟩
    rw [List.cons_append, readIdentifier, if_neg (by simpa using hc)]
    refine reads_bind_iff.mpr ⟨r, ?_, reads_ok_iff.mpr ⟨rfl, hdrop⟩⟩
    rw [htake]
    exact lookup_eq_ok_iff.mpr h.bound

theorem callee?_eq_some_iff {K : Type} {e : Expression K} {f : Callee K} :
    e.callee? = some f ↔ e = f.expression := by
  constructor
  · intro h
    rcases e with (p | ⟨t, xs, o⟩) | ⟨g, x⟩
    · cases h
      rfl
    · cases h
    · cases h
      rfl
  · rintro rfl
    cases f <;> rfl

theorem ofParts_eq_ok_iff {K : Type} {parts : List (Expression K)} {e : Expression K} :
    Expression.ofParts parts = .ok e ↔
      ∃ (f : Callee K) (x : Expression K) (others : List (Expression K)),
        parts = f.expression :: x :: others ∧ e = f.applyAll x others := by
  constructor
  · intro h
    rcases parts with _ | ⟨head, _ | ⟨x, others⟩⟩
    · cases h
    · cases h
    · rw [Expression.ofParts] at h
      cases hcallee : head.callee? with
      | none =>
        rw [hcallee] at h
        cases h
      | some f =>
        rw [hcallee] at h
        cases h
        exact ⟨f, x, others, by rw [callee?_eq_some_iff.mp hcallee], rfl⟩
  · rintro ⟨f, x, others, rfl, rfl⟩
    rw [Expression.ofParts, callee?_eq_some_iff.mpr rfl]
    rfl

private theorem AreParts.append_blanks {blanks c rest : Text} {parts : List (Expression Float)}
    (hblanks : ∀ a ∈ blanks, isBlank a = true) (h : AreParts bindings c rest parts) :
    AreParts bindings (blanks ++ c) rest parts := by
  cases h with
  | close h =>
    rw [← List.append_assoc]
    exact .close (List.forall_mem_append.mpr ⟨hblanks, h⟩)
  | atom h hatom hothers =>
    rw [← List.append_assoc]
    exact .atom (List.forall_mem_append.mpr ⟨hblanks, h⟩) hatom hothers

private theorem exists_blanks_of_stripStart {text c rest : Text} {parts : List (Expression Float)}
    (hc : Text.stripStart text = c ++ rest) (h : AreParts bindings c rest parts) :
    ∃ c, text = c ++ rest ∧ AreParts bindings c rest parts := by
  obtain ⟨hsplit, hblanks, -⟩ := Text.takeWhile_dropWhile_iff.mp
    (⟨rfl, hc⟩ : text.takeWhile isBlank = _ ∧ text.dropWhile isBlank = _)
  exact ⟨text.takeWhile isBlank ++ c, by rw [List.append_assoc]; exact hsplit,
    h.append_blanks hblanks⟩

section

variable {text : Text}
  (hparts : ∀ (whole t : Text), t.length < text.length → ∀ {parts rest},
    Reads (readParts bindings whole t) parts rest →
    ∃ c, t = c ++ rest ∧ AreParts bindings c rest parts)

include hparts

private theorem exists_isApplication_of_reads {inner rest : Text} {e : Expression Float}
    (htext : text = '(' :: inner) (h : Reads (readAtom bindings text) e rest) :
    ∃ c, text = c ++ rest ∧ IsApplication bindings c rest e := by
  subst htext
  rw [readAtom.eq_def] at h
  obtain ⟨parts, hread, h⟩ := reads_bind_iff.mp h
  obtain ⟨e', he, h⟩ := reads_bind_iff.mp h
  obtain ⟨rfl, rfl⟩ := reads_ok_iff.mp h
  obtain ⟨f, x, others, hvalue, rfl⟩ := ofParts_eq_ok_iff.mp he
  have hshorter := Nat.lt_succ_of_le (Text.length_stripStart_le inner)
  obtain ⟨c, hc, hareparts⟩ := hparts _ _ hshorter ⟨parts, hread, rfl, rfl⟩
  obtain ⟨c, hc, hareparts⟩ := exists_blanks_of_stripStart hc hareparts
  exact ⟨'(' :: c, congrArg ('(' :: ·) hc, .intro (hvalue ▸ hareparts)⟩

private theorem exists_isAtom_of_reads {rest : Text} {e : Expression Float}
    (h : Reads (readAtom bindings text) e rest) :
    ∃ c, text = c ++ rest ∧ IsAtom bindings c rest e := by
  rw [readAtom.eq_def] at h
  split at h
  · exact absurd h not_reads_error
  · obtain ⟨c, hc, happlication⟩ :=
      exists_isApplication_of_reads hparts rfl (by rw [readAtom.eq_def]; exact h)
    exact ⟨c, hc, .application happlication⟩
  · obtain ⟨r, hr, h⟩ := reads_bind_iff.mp h
    obtain ⟨rfl, rfl⟩ := reads_ok_iff.mp h
    obtain ⟨c, hc, href⟩ := reads_readReference_iff.mp ⟨r, hr, rfl, rfl⟩
    exact ⟨c, hc, .reference href⟩
  · rename_i a inner hparen hpound
    obtain ⟨r, hr, h⟩ := reads_bind_iff.mp h
    obtain ⟨rfl, rfl⟩ := reads_ok_iff.mp h
    obtain ⟨c, hc, hname⟩ := reads_readIdentifier_iff.mp ⟨r, hr, rfl, rfl⟩
    refine ⟨c, hc, .identifier ?_ hname⟩
    obtain ⟨b, tail, rfl⟩ := List.exists_cons_of_ne_nil hname.nonempty
    obtain ⟨rfl, -⟩ := List.cons.inj hc
    rintro _ ⟨⟩
    exact ⟨hparen, hpound⟩

end

/-- An atom and the rest of an application are read by turns, each from a shorter text. -/
private theorem exists_areParts_of_reads (whole text : Text) {parts : List (Expression Float)}
    {rest : Text} (h : Reads (readParts bindings whole text) parts rest) :
    ∃ c, text = c ++ rest ∧ AreParts bindings c rest parts := by
  induction hlength : text.length using Nat.strongRecOn generalizing whole text parts rest with
  | ind length ih =>
    subst hlength
    rw [readParts.eq_def] at h
    split at h
    · exact absurd h not_reads_error
    · obtain ⟨rfl, rfl⟩ := reads_ok_iff.mp h
      exact ⟨[')'], rfl, .close (List.forall_mem_nil _)⟩
    · obtain ⟨first, hfirst, h⟩ := reads_bind_iff.mp h
      obtain ⟨others, hothers, h⟩ := reads_bind_iff.mp h
      obtain ⟨rfl, rfl⟩ := reads_ok_iff.mp h
      obtain ⟨c, hc, hatom⟩ := exists_isAtom_of_reads
        (fun whole t ht parts rest h ↦ ih t.length ht whole t h rfl) ⟨first, hfirst, rfl, rfl⟩
      have hshorter := Nat.lt_of_le_of_lt (Text.length_stripStart_le first.rest) first.shorter
      obtain ⟨tail, htail, hareparts⟩ := ih _ hshorter whole _ ⟨others, hothers, rfl, rfl⟩ rfl
      obtain ⟨tail, htail, hareparts⟩ := exists_blanks_of_stripStart htail hareparts
      rw [htail] at hatom
      refine ⟨[] ++ (c ++ tail), ?_, .atom (List.forall_mem_nil _) hatom hareparts⟩
      rw [List.nil_append, List.append_assoc, ← htail]
      exact hc

/-! ## What the reader has to accept -/

/-- An atom does not begin with a blank or a closing parenthesis. -/
theorem IsAtom.exists_cons {c rest : Text} {e : Expression Float}
    (h : IsAtom bindings c rest e) :
    ∃ a tail, c = a :: tail ∧ isBlank a = false ∧ a ≠ ')' := by
  cases h with
  | application h =>
    cases h
    exact ⟨'(', _, rfl, by decide, by decide⟩
  | reference h =>
    obtain ⟨inner, rfl⟩ := h.exists_cons
    exact ⟨'#', inner, rfl, by decide, by decide⟩
  | identifier hstart h =>
    obtain ⟨a, tail, rfl⟩ := List.exists_cons_of_ne_nil h.nonempty
    have ha := h.characters a List.mem_cons_self
    rw [endsIdentifier, Bool.not_or, Bool.and_eq_true] at ha
    exact ⟨a, tail, rfl, by simpa using ha.1, by simpa using ha.2⟩

private theorem reads_readParts_cons {whole t c rest : Text} {a : Char} (ha : a ≠ ')')
    {e : Expression Float} {others : List (Expression Float)}
    (hatom : Reads (readAtom bindings (a :: t)) e c)
    (hothers : Reads (readParts bindings whole (Text.stripStart c)) others rest) :
    Reads (readParts bindings whole (a :: t)) (e :: others) rest := by
  obtain ⟨first, hfirst, rfl, rfl⟩ := hatom
  obtain ⟨parts, hparts, rfl, rfl⟩ := hothers
  rw [readParts]
  · exact reads_bind_iff.mpr ⟨first, hfirst, reads_bind_iff.mpr ⟨parts, hparts,
      reads_ok_iff.mpr ⟨rfl, rfl⟩⟩⟩
  · exact ha

mutual

theorem IsAtom.reads {c rest : Text} {e : Expression Float} :
    IsAtom bindings c rest e → Reads (readAtom bindings (c ++ rest)) e rest
  | .application h => h.reads
  | .reference h => by
    obtain ⟨r, hr, hvalue, hrest⟩ := reads_readReference_iff.mpr ⟨_, rfl, h⟩
    obtain ⟨inner, rfl⟩ := h.exists_cons
    rw [List.cons_append, readAtom]
    exact reads_bind_iff.mpr ⟨r, hr, reads_ok_iff.mpr ⟨congrArg Expression.reference hvalue, hrest⟩⟩
  | .identifier hstart h => by
    obtain ⟨r, hr, hvalue, hrest⟩ := reads_readIdentifier_iff.mpr ⟨_, rfl, h⟩
    obtain ⟨a, tail, rfl⟩ := List.exists_cons_of_ne_nil h.nonempty
    obtain ⟨hparen, hpound⟩ := hstart a rfl
    rw [List.cons_append, readAtom]
    · exact reads_bind_iff.mpr
        ⟨r, hr, reads_ok_iff.mpr ⟨congrArg Expression.reference hvalue, hrest⟩⟩
    · exact hparen
    · exact hpound

theorem IsApplication.reads {c rest : Text} {e : Expression Float} :
    IsApplication bindings c rest e → Reads (readAtom bindings (c ++ rest)) e rest
  | .intro h => by
    obtain ⟨parts, hread, hvalue, hrest⟩ := h.reads _
    rw [List.cons_append, readAtom]
    refine reads_bind_iff.mpr ⟨parts, hread, reads_bind_iff.mpr ⟨_, ?_,
      reads_ok_iff.mpr ⟨rfl, hrest⟩⟩⟩
    exact ofParts_eq_ok_iff.mpr ⟨_, _, _, hvalue, rfl⟩

theorem AreParts.reads {c rest : Text} {parts : List (Expression Float)} :
    AreParts bindings c rest parts → ∀ whole,
      Reads (readParts bindings whole (Text.stripStart (c ++ rest))) parts rest
  | .close hblanks => by
    intro whole
    rw [List.append_assoc, Text.stripStart_append hblanks, List.singleton_append, Text.stripStart,
      List.dropWhile_cons_of_neg (by decide), readParts]
    exact reads_ok_iff.mpr ⟨rfl, rfl⟩
  | .atom hblanks hatom hothers => by
    intro whole
    have hfirst := hatom.reads
    have hrest := hothers.reads whole
    obtain ⟨a, tail, hcons, hblank, hclose⟩ := hatom.exists_cons
    rw [List.append_assoc, Text.stripStart_append hblanks, List.append_assoc]
    rw [hcons, List.cons_append] at hfirst ⊢
    rw [Text.stripStart, List.dropWhile_cons_of_neg (by simp [hblank])]
    exact reads_readParts_cons hclose hfirst hrest

end

/-! ## The language of the reader -/

theorem reads_readAtom_iff {text rest : Text} {e : Expression Float} :
    Reads (readAtom bindings text) e rest ↔ ∃ c, text = c ++ rest ∧ IsAtom bindings c rest e := by
  constructor
  · exact exists_isAtom_of_reads fun whole t _ _ _ ↦ exists_areParts_of_reads whole t
  · rintro ⟨c, rfl, h⟩
    exact h.reads

theorem reads_readApplication_iff {text rest : Text} {e : Expression Float} :
    Reads (readApplication bindings text) e rest ↔
      ∃ c, text = c ++ rest ∧ IsApplication bindings c rest e := by
  constructor
  · intro h
    rw [readApplication.eq_def] at h
    split at h
    · exact exists_isApplication_of_reads (fun whole t _ _ _ ↦ exists_areParts_of_reads whole t)
        rfl h
    · exact absurd h not_reads_error
  · rintro ⟨c, rfl, h⟩
    have hread := h.reads
    cases h
    exact hread

theorem complete_eq_ok_iff {text : Text}
    {reader : Except ReadError (Reading (Expression Float) (Text.strip text))}
    (hrest : ∀ {e rest}, Reads reader e rest → ∃ c, Text.strip text = c ++ rest)
    {e : Expression Float} : (reader >>= complete) = .ok e ↔ Reads reader e [] := by
  constructor
  · intro h
    obtain ⟨r, hr, h⟩ := exists_of_bind_eq_ok h
    rw [complete] at h
    split at h
    · rename_i hblank
      cases h
      -- the text does not end with a blank, so a rest that is made of blanks is empty
      obtain ⟨c, hc⟩ := hrest ⟨r, hr, rfl, rfl⟩
      exact ⟨r, hr, rfl, Text.eq_nil_of_strip_eq_append hc hblank⟩
    · cases h
  · rintro ⟨r, hr, rfl, hempty⟩
    rw [bind_ok hr, complete, hempty]
    rfl

/-- **The reader accepts the language of the grammar, and the grammar is unambiguous.** An atom is
read from the beginning of a text if the text begins with one, and it is the only one. A whole text
is read if it is one atom, or one application, but for the blanks around it. -/
theorem reads_iff_isAtom (bindings : Bindings Float) (text : Text) :
    (∀ e rest, Reads (readAtom bindings text) e rest ↔
      ∃ c, text = c ++ rest ∧ IsAtom bindings c rest e) ∧
    (∀ c c' rest rest' e e', text = c ++ rest → IsAtom bindings c rest e →
      text = c' ++ rest' → IsAtom bindings c' rest' e' → c = c' ∧ e = e') ∧
    (∀ e, Expression.read bindings text = .ok e ↔ IsAtom bindings (Text.strip text) [] e) ∧
    ∀ e, Expression.readApplied bindings text = .ok e ↔
      IsApplication bindings (Text.strip text) [] e := by
  have hwhole : ∀ P : Text → Prop, (∃ c, Text.strip text = c ++ [] ∧ P c) ↔ P (Text.strip text) :=
    fun P ↦ by simp
  refine ⟨fun e rest ↦ reads_readAtom_iff, ?_, fun e ↦ ?_, fun e ↦ ?_⟩
  · intro c c' rest rest' e e' hc h hc' h'
    obtain ⟨rfl, rfl⟩ := (reads_readAtom_iff.mpr ⟨c, hc, h⟩).unique
      (reads_readAtom_iff.mpr ⟨c', hc', h'⟩)
    exact ⟨List.append_cancel_right (hc.symm.trans hc'), rfl⟩
  · rw [Expression.read, complete_eq_ok_iff, reads_readAtom_iff, hwhole]
    intro e rest h
    obtain ⟨c, hc, -⟩ := reads_readAtom_iff.mp h
    exact ⟨c, hc⟩
  · rw [Expression.readApplied, complete_eq_ok_iff, reads_readApplication_iff, hwhole]
    intro e rest h
    obtain ⟨c, hc, -⟩ := reads_readApplication_iff.mp h
    exact ⟨c, hc⟩

/-- Two atoms that nothing separates, and an identifier behind the parenthesis: the application is
read, and nothing else is an atom at the beginning of the text. -/
theorem reads_iff_isAtom_adjacent :
    Reads (readAtom [] "(#1p0#0[1.0] )x".toList)
      (.application (.term ⟨1, .primitive 0⟩) (.reference (.vector 0 [1.0] .anywhere))) ['x'] ∧
    ∀ c rest e, "(#1p0#0[1.0] )x".toList = c ++ rest → IsAtom [] c rest e →
      c = "(#1p0#0[1.0] )".toList := by
  have hnumeral : ∀ c ∈ ['0', '1'], IsNumeral [c] (c.toNat - '0'.toNat) := by
    intro c hc
    rcases List.mem_pair.mp hc with rfl | rfl
    · exact ⟨List.forall_mem_singleton.mpr rfl, by decide, by decide, by decide⟩
    · exact ⟨List.forall_mem_singleton.mpr rfl, by decide, by decide, by decide⟩
  have hentry : IsEntry "1.0".toList 1.0 := ⟨by decide +kernel, by decide +kernel, by decide⟩
  have hvector : IsVector "[1.0]".toList [1.0] :=
    @IsVector.intro ["1.0".toList] [1.0] (by decide) (by decide) (.cons hentry .nil)
  have hfunction : IsReference "#1p0".toList "#0[1.0] )x".toList (.function ⟨1, .primitive 0⟩) :=
    @IsReference.function ['1'] "p0".toList _ 1 _ (hnumeral '1' (by decide))
      (.primitive (hnumeral '0' (by decide)) (by rintro c ⟨⟩; decide))
  have hargument : IsReference "#0[1.0]".toList " )x".toList (.vector 0 [1.0] .anywhere) :=
    @IsReference.vector ['0'] "[1.0]".toList _ 0 _ (hnumeral '0' (by decide)) hvector
  have hparts : AreParts [] "#1p0#0[1.0] )".toList ['x']
      [(Callee.term ⟨1, .primitive 0⟩).expression, .reference (.vector 0 [1.0] .anywhere)] :=
    @AreParts.atom _ [] "#1p0".toList "#0[1.0] )".toList _ _ _ (List.forall_mem_nil _)
      (.reference hfunction)
      (@AreParts.atom _ [] "#0[1.0]".toList " )".toList _ _ _ (List.forall_mem_nil _)
        (.reference hargument) (@AreParts.close _ [' '] _ (List.forall_mem_singleton.mpr rfl)))
  have hatom : IsAtom [] "(#1p0#0[1.0] )".toList ['x'] _ := .application (.intro hparts)
  obtain ⟨hread, hunique, -⟩ := reads_iff_isAtom [] "(#1p0#0[1.0] )x".toList
  refine ⟨(hread _ _).mpr ⟨_, rfl, hatom⟩, fun c rest e hc h ↦ ?_⟩
  exact (hunique _ _ _ _ _ _ hc h rfl hatom).1

end TermEmbedding
