import TermEmbedding.Proofs.Decimal.RoundTrip

/-!
# Numbers that count as equal

Equality of floating-point numbers is not equality of the numbers: the two zeros count as equal, and
what is no number does not count as equal to itself. Apart from that, the two are the same.

Numbers of one text are one number, except that there are several that are no number, and all of
them are written alike. No number that is no integer has the text of an integer.
-/

open Float.Model Float.Model.UnpackedFloat

namespace TermEmbedding

namespace Decimal

def IsZero (x : Float) : Prop := x = 0.0 ∨ x = -0.0

private theorem isZero_of_unpack {x : Float} {s : Sign} (hx : x.toModel.unpack = .zero s) :
    IsZero x := by
  rw [IsZero, Binary.eq_of_unpack hx]
  cases s with
  | positive => exact .inl rfl
  | negative => exact .inr rfl

theorem beq_self_of_isFinite {x : Float} (hx : x.isFinite = true) : (x == x) = true := by
  change (x.toModel.unpack.compare x.toModel.unpack == some .eq) = true
  rcases unpack_of_isFinite hx with ⟨s, hux⟩ | ⟨s, n, q, hn, hux⟩
  · rw [hux]
    cases s <;> rfl
  · rw [hux]
    cases s with
    | positive => simp [UnpackedFloat.compare]
    | negative => simp [UnpackedFloat.compare]

theorem beq_self_of_not_isNaN {x : Float} (hx : x.isNaN = false) : (x == x) = true := by
  by_cases hfinite : x.isFinite = true
  · exact beq_self_of_isFinite hfinite
  · have hclass := isNaN_or_infinity_of_not_isFinite (Bool.eq_false_iff.mpr hfinite)
    obtain ⟨s, hu⟩ := hclass.resolve_left (by rw [hx]; exact Bool.false_ne_true)
    change (x.toModel.unpack.compare x.toModel.unpack == some .eq) = true
    rw [hu]
    cases s with
    | positive => rfl
    | negative => rfl

private theorem eq_of_compare_finite {s s' : Sign} {n n' : Nat} {q q' : Int} {hn : 0 < n}
    {hn' : 0 < n'} (h : (UnpackedFloat.finite s n q hn).compare (.finite s' n' q' hn') = some .eq) :
    s = s' ∧ n = n' ∧ q = q' := by
  cases s with
  | positive =>
    cases s' with
    | positive =>
      have := Option.some.inj h
      rw [Ordering.then_eq_eq] at this
      exact ⟨rfl, Nat.compare_eq_eq.mp this.2, Int.compare_eq_eq.mp this.1⟩
    | negative => cases h
  | negative =>
    cases s' with
    | positive => cases h
    | negative =>
      have := Option.some.inj h
      rw [Ordering.swap_eq_eq, Ordering.then_eq_eq] at this
      exact ⟨rfl, Nat.compare_eq_eq.mp this.2, Int.compare_eq_eq.mp this.1⟩

/-- **Finite numbers that count as equal are one number, or zeros.** -/
theorem eq_or_isZero_of_beq {x y : Float} (hx : x.isFinite = true) (hy : y.isFinite = true)
    (h : (x == y) = true) : x = y ∨ (IsZero x ∧ IsZero y) := by
  have hcompare : x.toModel.unpack.compare y.toModel.unpack = some .eq := by
    change (x.toModel.unpack.compare y.toModel.unpack == some .eq) = true at h
    exact eq_of_beq h
  rcases unpack_of_isFinite hx with ⟨s, hux⟩ | ⟨s, n, q, hn, hux⟩
  · rcases unpack_of_isFinite hy with ⟨s', huy⟩ | ⟨s', n', q', hn', huy⟩
    · exact .inr ⟨isZero_of_unpack hux, isZero_of_unpack huy⟩
    · rw [hux, huy] at hcompare
      cases s' <;> cases hcompare
  · rcases unpack_of_isFinite hy with ⟨s', huy⟩ | ⟨s', n', q', hn', huy⟩
    · rw [hux, huy] at hcompare
      cases s <;> cases hcompare
    · left
      rw [hux, huy] at hcompare
      obtain ⟨rfl, rfl, rfl⟩ := eq_of_compare_finite hcompare
      rw [Binary.eq_of_unpack hux, Binary.eq_of_unpack huy]

/-! ## Numbers that have one text -/

private theorem write_of_isNaN {x : Float} (hx : x.isNaN = true) :
    write x = ['n', 'a', 'n'] := if_pos hx

private def infinityText : Sign → Text
  | .positive => ['i', 'n', 'f']
  | .negative => ['-', 'i', 'n', 'f']

private theorem infinityText_injective : Function.Injective infinityText := by
  rintro (_ | _) (_ | _) h
  · rfl
  · cases h
  · cases h
  · rfl

private theorem write_of_infinity {x : Float} {s : Sign} (hx : x.toModel.unpack = .infinity s) :
    write x = infinityText s := by
  have hpositive : write (.ofModel (.pack (.infinity .positive))) = ['i', 'n', 'f'] := by
    decide +kernel
  have hnegative : write (.ofModel (.pack (.infinity .negative))) = ['-', 'i', 'n', 'f'] := by
    decide +kernel
  have heq := Binary.eq_of_unpack hx
  cases s with
  | positive => exact (congrArg write heq).trans hpositive
  | negative => exact (congrArg write heq).trans hnegative

private theorem exists_mark_layout (digits : Text) (point : Int) :
    ∃ c ∈ layout digits point, c = '.' ∨ c = 'e' := by
  have hexponent : ∀ (before : Text) (e : Int), ∃ c ∈ before ++ exponentText e, c = '.' ∨ c = 'e' :=
    fun before e ↦ ⟨'e', List.mem_append_right _ List.mem_cons_self, .inr rfl⟩
  rw [layout.eq_def]
  split_ifs
  · exact ⟨'.', by simp, .inl rfl⟩
  · exact ⟨'.', by simp, .inl rfl⟩
  · exact ⟨'.', by simp, .inl rfl⟩
  · split
    · exact ⟨'.', by simp, .inl rfl⟩
    · exact hexponent _ _

/-- The text of a number is no numeral of an integer. -/
theorem exists_mark_write (x : Float) : ∃ c ∈ write x, c ≠ '-' ∧ c.isDigit = false := by
  by_cases hx : x.isFinite = true
  · have hmark : ∃ c ∈ magnitudeText x, c = '.' ∨ c = 'e' := by
      simp only [magnitudeText]
      split_ifs
      · exact ⟨'.', by simp, .inl rfl⟩
      · exact exists_mark_layout _ _
    obtain ⟨c, hc, hmark⟩ := hmark
    refine ⟨c, ?_, ?_⟩
    · rw [write_eq hx]
      cases Binary.signOf x with
      | positive => exact hc
      | negative => exact List.mem_cons_of_mem _ hc
    · rcases hmark with rfl | rfl
      · decide
      · decide
  · have hwords : ∀ t ∈ [['n', 'a', 'n'], ['i', 'n', 'f'], ['-', 'i', 'n', 'f']],
        ∃ c ∈ t, c ≠ '-' ∧ c.isDigit = false := by simp
    exact hwords _ (write_of_not_isFinite (Bool.eq_false_iff.mpr hx))

theorem isUpper_head_write {x : Float} {c : Char} (hc : c ∈ (write x).head?) :
    c.isUpper = false := by
  by_cases hx : x.isFinite = true
  · have hcharacters : ∀ c ∈ numberCharacters, c.isUpper = false := by simp [numberCharacters]
    exact hcharacters c (mem_numberCharacters_of_mem_write hx (List.mem_of_mem_head? hc))
  · have hwords : ∀ t ∈ [['n', 'a', 'n'], ['i', 'n', 'f'], ['-', 'i', 'n', 'f']],
        ∀ c ∈ t.head?, c.isUpper = false := by simp
    exact hwords _ (write_of_not_isFinite (Bool.eq_false_iff.mpr hx)) c hc

/-- **Numbers with one text are one number, or neither of them is a number.** -/
theorem eq_or_isNaN_of_write_eq {x y : Float} (h : write x = write y) :
    x = y ∨ (x.isNaN = true ∧ y.isNaN = true) := by
  have hread : read? (write x) = read? (write y) := congrArg read? h
  have hnan : ∀ s, ['n', 'a', 'n'] ≠ infinityText s := by
    rintro (_ | _) ⟨⟩
  by_cases hx : x.isFinite = true
  · rw [read?_write_of_isFinite hx] at hread
    by_cases hy : y.isFinite = true
    · rw [read?_write_of_isFinite hy] at hread
      exact .inl (Option.some.inj hread)
    · rw [read?_write_of_not_isFinite (Bool.eq_false_iff.mpr hy)] at hread
      cases hread
  · rw [read?_write_of_not_isFinite (Bool.eq_false_iff.mpr hx)] at hread
    have hy : ¬y.isFinite = true := fun hy ↦ by
      rw [read?_write_of_isFinite hy] at hread
      cases hread
    rcases isNaN_or_infinity_of_not_isFinite (Bool.eq_false_iff.mpr hx) with hxn | ⟨s, hus⟩
    · rcases isNaN_or_infinity_of_not_isFinite (Bool.eq_false_iff.mpr hy) with hyn | ⟨s, hus⟩
      · exact .inr ⟨hxn, hyn⟩
      · rw [write_of_isNaN hxn, write_of_infinity hus] at h
        exact absurd h (hnan s)
    · rcases isNaN_or_infinity_of_not_isFinite (Bool.eq_false_iff.mpr hy) with hyn | ⟨s', hus'⟩
      · rw [write_of_infinity hus, write_of_isNaN hyn] at h
        exact absurd h.symm (hnan s)
      · rw [write_of_infinity hus, write_of_infinity hus'] at h
        rw [Binary.eq_of_unpack hus, Binary.eq_of_unpack hus', infinityText_injective h]
        exact .inl rfl

end Decimal

end TermEmbedding
