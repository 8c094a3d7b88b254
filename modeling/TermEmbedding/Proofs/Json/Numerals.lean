import TermEmbedding.Json.Conversion
import TermEmbedding.Proofs.Reading
import TermEmbedding.Proofs.Table
import TermEmbedding.Proofs.Text.Integers

/-!
# Integers that are taken from data

The reader refuses integers with too many digits, whether they are spelled as integers or in
strings, and a number with a fraction is too small to have too many digits. So every integer that is
taken from a data file can be written again.
-/

namespace TermEmbedding

/-! ## Numbers -/

private theorem fst_binaryForm_lt (x : Float) : (binaryForm x).1 < 2 ^ 53 := by
  have hfraction : x.toBits.toNat % leadingBit < 2 ^ 52 := Nat.mod_lt _ (by decide)
  have hleading : leadingBit = 2 ^ 52 := rfl
  rw [binaryForm]
  split_ifs
  · exact hfraction.trans (by decide)
  · rw [hleading] at *
    omega

private theorem snd_binaryForm_le (x : Float) : (binaryForm x).2 ≤ 972 := by
  have hbiased : x.toBits.toNat / leadingBit % 2048 < 2048 := Nat.mod_lt _ (by decide)
  rw [binaryForm]
  split_ifs
  · change (-1074 : Int) ≤ 972
    decide
  · change (_ : Int) - 1075 ≤ 972
    omega

/-- The integer part of a magnitude with a short significand is short if its exponent is. -/
private theorem shifted_lt {significand : Nat} {q : Int} (hsignificand : significand < 2 ^ 53)
    {bound : Nat} (hq : q ≤ bound) :
    (if 0 ≤ q then significand <<< q.toNat else significand >>> (-q).toNat) <
      2 ^ (53 + bound) := by
  split_ifs
  · calc significand <<< q.toNat = significand * 2 ^ q.toNat := Nat.shiftLeft_eq _ _
      _ < 2 ^ 53 * 2 ^ bound := Nat.mul_lt_mul_of_lt_of_le hsignificand
        (Nat.pow_le_pow_right Nat.two_pos (by omega)) (Nat.two_pow_pos bound)
      _ = 2 ^ (53 + bound) := (Nat.pow_add 2 53 bound).symm
  · calc significand >>> (-q).toNat ≤ significand := Nat.shiftRight_le _ _
      _ < 2 ^ 53 := hsignificand
      _ ≤ 2 ^ (53 + bound) := Nat.pow_le_pow_right Nat.two_pos (Nat.le_add_right _ _)

private theorem natAbs_truncate_lt (x : Float) {bound : Nat} (hbound : bound = 972) :
    (truncate x).natAbs < 2 ^ (53 + bound) := by
  have hfst := fst_binaryForm_lt x
  have hsnd : (binaryForm x).2 ≤ bound := by
    rw [hbound]
    exact snd_binaryForm_le x
  rw [truncate]
  generalize binaryForm x = form at hfst hsnd
  obtain ⟨significand, q⟩ := form
  have hlt := shifted_lt hfst hsnd
  dsimp only at hlt ⊢
  generalize (if 0 ≤ q then significand <<< q.toNat else significand >>> (-q).toNat) = magnitude
    at hlt ⊢
  by_cases hx : x < 0
  · rwa [if_pos hx, Int.natAbs_neg, Int.natAbs_natCast]
  · rwa [if_neg hx, Int.natAbs_natCast]

theorem hasNumeral_truncate (x : Float) : hasNumeral (truncate x) = true := by
  obtain ⟨bound, hbound⟩ : ∃ bound, bound = 972 := ⟨_, rfl⟩
  rw [hasNumeral_iff]
  calc (truncate x).natAbs < 2 ^ (53 + bound) := natAbs_truncate_lt x hbound
    _ ≤ 10 ^ (53 + bound) := Nat.pow_le_pow_left (by decide) _
    _ ≤ 10 ^ numeralLimit := Nat.pow_le_pow_right (by decide) (by rw [hbound]; decide)

namespace Json

/-! ## Values -/

/-- Values with integers that have a numeral. -/
inductive HasNumerals : Json → Prop
  | null : HasNumerals null
  | bool (b : Bool) : HasNumerals (bool b)
  | integer {i : Int} (h : hasNumeral i = true) : HasNumerals (integer i)
  | number (x : Float) : HasNumerals (number x)
  | string (s : List CodePoint) : HasNumerals (string s)
  | array {items : List Json} (h : ∀ item ∈ items, HasNumerals item) : HasNumerals (array items)
  | object {members : List (List CodePoint × Json)} (h : ∀ member ∈ members, HasNumerals member.2) :
    HasNumerals (object members)

variable {v : Json}

theorem toInteger_integerNumeral {i : Int} (h : hasNumeral i = true) :
    (string (integerNumeral i).codePoints).toInteger = .ok i := by
  rw [toInteger, Text.ofCodePoints?_codePoints, Option.bind_some, integer?_integerNumeral h]
  rfl

theorem HasNumerals.of_toInteger (h : v.HasNumerals) {i : Int} (hi : v.toInteger = .ok i) :
    hasNumeral i = true := by
  cases h with
  | null => cases hi
  | bool b =>
    cases hi
    cases b <;> rfl
  | integer h =>
    cases hi
    exact h
  | number x =>
    rw [toInteger] at hi
    split_ifs at hi
    cases hi
    exact hasNumeral_truncate x
  | string s =>
    rw [toInteger] at hi
    split at hi
    · rename_i i' hi'
      cases hi
      obtain ⟨t, -, ht⟩ := Option.bind_eq_some_iff.mp hi'
      exact hasNumeral_of_integer? ht
    · cases hi
  | array => cases hi
  | object => cases hi

theorem HasNumerals.of_toItems (h : v.HasNumerals) {items : List Json}
    (hitems : v.toItems = .ok items) : ∀ item ∈ items, item.HasNumerals := by
  cases h with
  | null | bool | integer | number => cases hitems
  | string s =>
    cases hitems
    rw [List.forall_mem_map]
    exact fun p _ ↦ .string _
  | array h =>
    cases hitems
    exact h
  | object =>
    cases hitems
    rw [List.forall_mem_map]
    exact fun member _ ↦ .string _

theorem HasNumerals.of_find? {members : Members} (h : (Json.object members).HasNumerals)
    {name : String} (hv : Members.find? members name = some v) : v.HasNumerals := by
  cases h with
  | object h => exact h _ (Table.mem_of_get? hv)

/-! ## What the reader gives -/

section

variable {ε α β σ : Type} {input : List σ} {P : α → Prop}

/-- Whether all values that a reader can give have a property. -/
def Gives (P : α → Prop) (reader : Except ε (Reading α input)) : Prop :=
  ∀ r, reader = .ok r → P r.value

private theorem gives_ok {r : Reading α input} (h : P r.value) : Gives P (.ok r : Except ε _) := by
  rintro _ ⟨⟩
  exact h

private theorem gives_error (e : ε) : Gives P (.error e : Except ε (Reading α input)) := by
  rintro _ ⟨⟩

private theorem gives_bind {x : Except ε β} {f : β → Except ε (Reading α input)}
    (h : ∀ b, x = .ok b → Gives P (f b)) : Gives P (x >>= f) := by
  intro r hr
  obtain ⟨b, hb, hr⟩ := exists_of_bind_eq_ok hr
  exact h b hb r hr

end

private theorem isDigit_of_mem_spanDigits {input : List CodePoint} {c : Char}
    (h : c ∈ (spanDigits input).1) : c.isDigit = true := by
  induction input with
  | nil => cases h
  | cons p rest ih =>
    rw [spanDigits] at h
    split at h
    · rename_i d hd
      rcases List.mem_cons.mp h with rfl | h
      · rw [digit?.eq_def] at hd
        split at hd
        · rename_i c
          by_cases hdigit : c.isDigit
          · rw [if_pos hdigit] at hd
            cases hd
            exact hdigit
          · rw [if_neg hdigit] at hd
            cases hd
        · cases hd
      · exact ih h
    · cases h

private theorem isDigit_of_mem_spanWhole {input : List CodePoint} {c : Char}
    (h : c ∈ (spanWhole input).1) : c.isDigit = true := by
  rw [spanWhole.eq_def] at h
  split at h
  · obtain rfl := List.mem_singleton.mp h
    rfl
  · exact isDigit_of_mem_spanDigits h

/-- The only bound on integers is the one on their digits. -/
private theorem hasNumerals_of_ofParts {negative : Bool} {whole fraction : Text}
    {exponent : Option Int} (hwhole : ∀ c ∈ whole, c.isDigit = true)
    (h : ofParts negative whole fraction exponent = .ok v) :
    v.HasNumerals := by
  rw [ofParts] at h
  by_cases hinteger : fraction = [] ∧ exponent = none
  · rw [if_pos hinteger] at h
    by_cases hlong : numeralLimit < whole.length
    · rw [if_pos hlong] at h
      cases h
    · rw [if_neg hlong] at h
      cases h
      apply HasNumerals.integer
      have hlt := (Decimal.ofNumeral_lt hwhole).trans_le
        (Nat.pow_le_pow_right (by decide) (Nat.not_lt.mp hlong))
      rw [hasNumeral_iff]
      cases negative with
      | true => rwa [if_pos rfl, Int.natAbs_neg, Int.natAbs_natCast]
      | false => rwa [if_neg Bool.false_ne_true, Int.natAbs_natCast]
  · rw [if_neg hinteger] at h
    cases h
    exact .number _

private theorem gives_readMagnitude (negative : Bool) (input : List CodePoint) :
    Gives HasNumerals (readMagnitude negative input) := by
  rw [readMagnitude]
  by_cases hnil : (spanWhole input).1 = []
  · rw [dif_pos hnil]
    exact gives_error _
  · rw [dif_neg hnil]
    exact gives_bind fun value hvalue ↦
      gives_ok (hasNumerals_of_ofParts (fun _ ↦ isDigit_of_mem_spanWhole) hvalue)

private theorem hasNumerals_of_mem_words {row : Text × Json} (h : row ∈ words) :
    row.2.HasNumerals := by
  simp only [words, List.mem_cons, List.not_mem_nil, or_false] at h
  rcases h with rfl | rfl | rfl | rfl | rfl | rfl
  · exact .null
  · exact .bool _
  · exact .bool _
  · exact .number _
  · exact .number _
  · exact .number _

private theorem gives_readScalar (input : List CodePoint) :
    Gives HasNumerals (readScalar input) := by
  rw [readScalar.eq_def]
  split
  · rename_i r hr
    obtain ⟨row, hrow, hword⟩ := List.exists_of_findSome?_eq_some hr
    change readWord? row.1 row.2 input = some r at hword
    rw [readWord?] at hword
    split_ifs at hword
    cases hword
    exact gives_ok (hasNumerals_of_mem_words hrow)
  · split
    · exact gives_bind fun r hr ↦ gives_ok (gives_readMagnitude _ _ r hr)
    · exact gives_readMagnitude _ _

/-- What the three readers give on inputs of a length. -/
structure GivesNumerals (n : Nat) : Prop where
  value : ∀ input : List CodePoint, input.length = n → Gives HasNumerals (readValue input)
  items : ∀ input : List CodePoint, input.length = n →
    Gives (fun items ↦ ∀ item ∈ items, HasNumerals item) (readItems input)
  members : ∀ input : List CodePoint, input.length = n →
    Gives (fun members ↦ ∀ member ∈ members, HasNumerals member.2) (readMembers input)

private theorem hasNumerals_ofRows {rows : List (List CodePoint × Json)}
    (h : ∀ row ∈ rows, HasNumerals row.2) : ∀ row ∈ Table.ofRows rows, HasNumerals row.2 := by
  rw [Table.ofRows]
  refine List.foldlRecOn (motive := fun table : List (List CodePoint × Json) ↦
    ∀ row ∈ table, HasNumerals row.2) rows _ (by simp) ?_
  intro table htable row hrow other hother
  rcases Table.mem_insert hother with rfl | hother
  · exact h row hrow
  · exact htable other hother

section

variable {n : Nat} (h : ∀ m < n, GivesNumerals m) (input : List CodePoint)
include h

theorem gives_readValue (hinput : input.length = n) : Gives HasNumerals (readValue input) := by
  have hrest : ∀ {rest : List CodePoint}, rest.length < input.length →
      GivesNumerals (skipGap rest).length := fun hlt ↦
    h _ ((length_skipGap_le _).trans_lt (hlt.trans_eq hinput))
  rw [readValue.eq_def]
  split
  · exact gives_bind fun s _ ↦ gives_ok (.string s.value)
  · rename_i rest
    split
    · exact gives_ok (HasNumerals.array (by simp))
    · exact gives_bind fun items hitems ↦ gives_ok
        (.array ((hrest (Nat.lt_succ_self _)).items _ rfl items hitems))
  · rename_i rest
    split
    · exact gives_ok (HasNumerals.object (by simp))
    · exact gives_bind fun members hmembers ↦ gives_ok (.object
        (hasNumerals_ofRows ((hrest (Nat.lt_succ_self _)).members _ rfl members hmembers)))
  · exact gives_readScalar _

private theorem gives_readItems (hinput : input.length = n) :
    Gives (fun items ↦ ∀ item ∈ items, HasNumerals item) (readItems input) := by
  rw [readItems]
  refine gives_bind fun first hfirst ↦ ?_
  have hvalue := gives_readValue h input hinput first hfirst
  split
  · exact gives_ok (List.forall_mem_singleton.mpr hvalue)
  · rename_i left hleft
    have hlt : (skipGap left).length < n := (length_skipGap_le left).trans_lt
      ((length_lt_of_skipGap hleft).trans (first.shorter.trans_eq hinput))
    exact gives_bind fun others hothers ↦ gives_ok
      (List.forall_mem_cons.mpr ⟨hvalue, (h _ hlt).items _ rfl others hothers⟩)
  · exact gives_error _

private theorem gives_readMembers (hinput : input.length = n) :
    Gives (fun members ↦ ∀ member ∈ members, HasNumerals member.2) (readMembers input) := by
  rw [readMembers.eq_def]
  split
  · refine gives_bind fun name _ ↦ ?_
    split
    · rename_i right hright
      have hlt : (skipGap right).length < n := (length_skipGap_le right).trans_lt
        ((length_lt_of_skipGap hright).trans
          (name.shorter.trans ((Nat.lt_succ_self _).trans_eq hinput)))
      refine gives_bind fun value hvalue ↦ ?_
      have hfirst := (h _ hlt).value _ rfl value hvalue
      split
      · exact gives_ok (List.forall_mem_singleton.mpr hfirst)
      · rename_i left hleft
        have hlt : (skipGap left).length < n := (length_skipGap_le left).trans_lt
          ((length_lt_of_skipGap hleft).trans (value.shorter.trans hlt))
        exact gives_bind fun others hothers ↦ gives_ok
          (List.forall_mem_cons.mpr ⟨hfirst, (h _ hlt).members _ rfl others hothers⟩)
      · exact gives_error _
    · exact gives_error _
  · exact gives_error _

end

/-- Values are read from shorter inputs, down to numbers and words. -/
theorem givesNumerals (n : Nat) : GivesNumerals n := by
  induction n using Nat.strongRecOn with
  | ind n ih => exact ⟨gives_readValue ih, gives_readItems ih, gives_readMembers ih⟩

/-- **The integers of a data file have numerals.** -/
theorem HasNumerals.of_ofBytes {bytes : Bytes} (h : ofBytes bytes = .ok v) : v.HasNumerals := by
  rw [ofBytes] at h
  split at h
  · cases h
  · split at h
    · rename_i value hvalue
      cases h
      obtain ⟨r, hr, hvalue⟩ := exists_of_bind_eq_ok hvalue
      split at hvalue
      · cases hvalue
        exact (givesNumerals _).value _ rfl r hr
      · cases hvalue
    · cases h
    · cases h

end Json

end TermEmbedding
