import TermEmbedding.Json.Conversion
import TermEmbedding.Proofs.Decimal.Equality
import TermEmbedding.Proofs.Text.Integers
import TermEmbedding.Proofs.Text.Pairs

/-!
# Values by what is shown for them

Nothing, truth values, integers and other numbers are shown by words and numerals. What is shown
tells which kind of value it is, and the values of one kind that are shown alike count as equal.
Strings stand apart: any text can be that of a string, so what is shown for another value can be
one. So a list without equal values has distinct names if and only if no string in it is what is
shown for another value of the list.
-/

namespace TermEmbedding

namespace Json

/-! ## Kinds of values -/

/-- Whether a value is shown by a word or a numeral. -/
def IsScalar : Json → Prop
  | null | bool _ | integer _ | number _ => True
  | string _ | array _ | object _ => False

/-- The kind of a scalar, told by what is shown for it. -/
private def kindOfShown (t : Text) : Text :=
  if t = "None".toList then "NoneType".toList
  else if t ∈ ["True".toList, "False".toList] then "bool".toList
  else if ∀ c ∈ t, c = '-' ∨ c.isDigit = true then "int".toList
  else "float".toList

private theorem kindOfShown_integerNumeral (i : Int) :
    kindOfShown (integerNumeral i) = "int".toList := by
  have hall : ∀ c ∈ integerNumeral i, c = '-' ∨ c.isDigit = true := fun _ ↦ mem_integerNumeral
  have hword : ∀ {c : Char} {t : Text}, c ≠ '-' ∧ c.isDigit = false →
      integerNumeral i ≠ c :: t := fun hc h ↦ by
    rcases hall _ (h ▸ List.mem_cons_self) with hminus | hdigit
    · exact hc.1 hminus
    · rw [hc.2] at hdigit
      cases hdigit
  rw [kindOfShown, if_neg, if_neg, if_pos hall]
  · simp only [List.mem_cons, List.not_mem_nil, or_false, not_or]
    exact ⟨hword (by decide), hword (by decide)⟩
  · exact hword (by decide)

/-- A number that is no integer has a mark in it, and it begins with no capital. -/
private theorem kindOfShown_write (x : Float) : kindOfShown (Decimal.write x) = "float".toList := by
  have hword : ∀ {c : Char} {t : Text}, c.isUpper = true → Decimal.write x ≠ c :: t :=
    fun hc h ↦ by
      have hhead := Decimal.isUpper_head_write (congrArg List.head? h)
      rw [hc] at hhead
      cases hhead
  have hmark : ¬∀ c ∈ Decimal.write x, c = '-' ∨ c.isDigit = true := fun hall ↦ by
    obtain ⟨c, hc, hminus, hdigit⟩ := Decimal.exists_mark_write x
    rcases hall c hc with h | h
    · exact hminus h
    · rw [hdigit] at h
      cases h
  rw [kindOfShown, if_neg, if_neg, if_neg hmark]
  · simp only [List.mem_cons, List.not_mem_nil, or_false, not_or]
    exact ⟨hword (by decide), hword (by decide)⟩
  · exact hword (by decide)

private theorem kindOfShown_shown {v : Json} (hv : v.IsScalar) :
    kindOfShown v.shown = v.kindText := by
  cases v with
  | null => rfl
  | bool b =>
    cases b with
    | true => rfl
    | false => rfl
  | integer i => exact kindOfShown_integerNumeral i
  | number x => exact kindOfShown_write x
  | string s => exact hv.elim
  | array items => exact hv.elim
  | object members => exact hv.elim

private theorem sameScalar_number {x y : Float} (h : Decimal.write x = Decimal.write y) :
    sameScalar (number x) (number y) = true := by
  refine (Bool.or_eq_true _ _).mpr ?_
  rcases Decimal.eq_or_isNaN_of_write_eq h with rfl | hnan
  · by_cases hx : x.isNaN = true
    · exact .inr ((Bool.and_eq_true _ _).mpr ⟨hx, hx⟩)
    · exact .inl (Decimal.beq_self_of_not_isNaN (Bool.eq_false_iff.mpr hx))
  · exact .inr ((Bool.and_eq_true _ _).mpr hnan)

/-- **Scalars that are shown alike count as equal.** -/
theorem sameScalar_of_shown_eq {v w : Json} (hv : v.IsScalar) (hw : w.IsScalar)
    (h : v.shown = w.shown) : sameScalar v w = true := by
  have hkind : v.kindText = w.kindText := by
    rw [← kindOfShown_shown hv, h, kindOfShown_shown hw]
  cases v with
  | null =>
    cases w with
    | null => rfl
    | _ => cases hkind
  | bool b =>
    cases w with
    | bool b' =>
      rcases b with _ | _
      · rcases b' with _ | _
        · rfl
        · cases h
      · rcases b' with _ | _
        · cases h
        · rfl
    | _ => cases hkind
  | integer i =>
    cases w with
    | integer j =>
      obtain rfl : i = j := integerNumeral_injective h
      simp [sameScalar, sameScalar.asInteger?]
    | _ => cases hkind
  | number x =>
    cases w with
    | number y => exact sameScalar_number h
    | _ => cases hkind
  | string s => exact hv.elim
  | array items => exact hv.elim
  | object members => exact hv.elim

/-! ## Names -/

private theorem IsScalar.asName_eq {v : Json} (hv : v.IsScalar) :
    v.asName = v.shown.codePoints := by
  cases v with
  | string s => exact hv.elim
  | _ => rfl

private theorem isScalar_or_string {v : Json} (hv : hasRepetition.isContainer v = false) :
    v.IsScalar ∨ ∃ s, v = string s := by
  cases v with
  | string s => exact .inr ⟨s, rfl⟩
  | array items => cases hv
  | object members => cases hv
  | _ => exact .inl trivial

private theorem go_eq_false_iff {items : List Json} :
    hasRepetition.go items = false ↔ items.Pairwise fun v w ↦ sameScalar v w = false := by
  induction items with
  | nil => simp [hasRepetition.go]
  | cons item items ih =>
    rw [hasRepetition.go, Bool.or_eq_false_iff, ih, List.pairwise_cons, List.any_eq_false]
    simp only [Bool.not_eq_true]

/-- A list without repetitions is one without containers and without equal values. -/
theorem hasRepetition_eq_ok_false_iff {items : List Json} :
    hasRepetition items = .ok false ↔
      (∀ item ∈ items, hasRepetition.isContainer item = false) ∧
        items.Pairwise fun v w ↦ sameScalar v w = false := by
  rw [hasRepetition, ← go_eq_false_iff]
  by_cases hany : items.any hasRepetition.isContainer = true
  · rw [if_pos hany]
    refine iff_of_false nofun fun h ↦ ?_
    obtain ⟨item, hitem, hcontainer⟩ := List.any_eq_true.mp hany
    rw [h.1 item hitem] at hcontainer
    cases hcontainer
  · rw [if_neg hany]
    rw [Bool.not_eq_true, List.any_eq_false] at hany
    simp only [Bool.not_eq_true] at hany
    exact ⟨fun h ↦ ⟨hany, Except.ok.inj h⟩, fun h ↦ congrArg _ h.2⟩

/-- **Values without repetitions have distinct names if and only if none of the strings among them
is what is shown for another of them.** -/
theorem nodup_map_asName_iff {values : List Json} (h : hasRepetition values = .ok false) :
    (values.map asName).Nodup ↔
      ∀ value ∈ values, string value.asName ∈ values → value = string value.asName := by
  obtain ⟨hcontainers, hdistinct⟩ := hasRepetition_eq_ok_false_iff.mp h
  constructor
  · intro hnodup value hvalue hstring
    exact List.inj_on_of_nodup_map hnodup hvalue hstring rfl
  · intro hstrings
    rw [List.Nodup, List.pairwise_map]
    refine hdistinct.imp_of_mem fun {v w} hv hw hdiffer heq ↦ ?_
    rcases isScalar_or_string (hcontainers v hv) with hv' | ⟨s, rfl⟩
    · rcases isScalar_or_string (hcontainers w hw) with hw' | ⟨s, rfl⟩
      · rw [hv'.asName_eq, hw'.asName_eq] at heq
        rw [sameScalar_of_shown_eq hv' hw' (Text.codePoints_injective heq)] at hdiffer
        cases hdiffer
      · obtain rfl : v.asName = s := heq
        rw [hstrings v hv hw] at hv'
        exact hv'
    · obtain rfl : s = w.asName := heq
      rw [hstrings w hw hv] at hdiffer
      simp [sameScalar, asName] at hdiffer

end Json

end TermEmbedding
