import TermEmbedding.Proofs.Decimal.Digits
import TermEmbedding.Proofs.Decimal.Numeral

/-!
# Finite numbers come back from their text

The text of a finite number is read as that number, with the sign of zero. The text of anything else
is a word that the reader of vectors refuses, so what can be read back from its text is exactly what
is finite.
-/

open Float.Model Float.Model.UnpackedFloat

namespace TermEmbedding

namespace Decimal

open Binary

/-! ## The characters of finite numbers -/

/-- The characters that finite numbers are written with. -/
def numberCharacters : Text :=
  ['0', '1', '2', '3', '4', '5', '6', '7', '8', '9', '.', 'e', '+', '-']

theorem mem_numberCharacters_of_isDigit {c : Char} (h : c.isDigit = true) :
    c ∈ numberCharacters := by
  obtain ⟨hlow, hhigh⟩ := Char.isDigit_iff_toNat.mp h
  have hlow' : 48 ≤ c.toNat := hlow
  have hhigh' : c.toNat ≤ 57 := hhigh
  rw [← Char.ofNat_toNat c]
  generalize c.toNat = n at hlow' hhigh'
  interval_cases n <;> decide

private theorem mem_numberCharacters_of_mem_exponentText {e : Int} {c : Char}
    (h : c ∈ exponentText e) : c ∈ numberCharacters := by
  rw [exponentText, List.mem_cons, List.mem_cons, List.leftpad, List.mem_append] at h
  rcases h with rfl | rfl | h | h
  · decide
  · split <;> decide
  · rw [List.eq_of_mem_replicate h]
    decide
  · exact mem_numberCharacters_of_isDigit (isDigit_of_mem_numeral h)

private theorem mem_numberCharacters_of_mem_layout {digits : Text} (h : Leading digits)
    {point : Int} {c : Char} (hc : c ∈ layout digits point) : c ∈ numberCharacters := by
  have hdigits : ∀ c ∈ digits, c ∈ numberCharacters :=
    fun c hc ↦ mem_numberCharacters_of_isDigit (h.digits c hc)
  have hzeros : ∀ k, ∀ c ∈ List.replicate k '0', c ∈ numberCharacters :=
    fun _ _ hc ↦ mem_numberCharacters_of_isDigit (isDigit_of_mem_replicate hc)
  have hexponent : ∀ e, ∀ c ∈ exponentText e, c ∈ numberCharacters :=
    fun _ _ hc ↦ mem_numberCharacters_of_mem_exponentText hc
  have hpoint : '.' ∈ numberCharacters := by decide
  have hzero : '0' ∈ numberCharacters := by decide
  revert c
  unfold layout
  -- one case for each of the five forms
  split
  · split
    · simp only [List.forall_mem_append, List.forall_mem_cons]
      exact ⟨hzero, hpoint, hzeros _, hdigits⟩
    · split
      · simp only [List.forall_mem_append, List.forall_mem_cons]
        exact ⟨⟨hdigits, hzeros _⟩, hpoint, hzero, by simp⟩
      · simp only [List.forall_mem_append, List.forall_mem_cons]
        exact ⟨fun c hc ↦ hdigits c (List.mem_of_mem_take hc), hpoint,
          fun c hc ↦ hdigits c (List.mem_of_mem_drop hc)⟩
  · split
    · simp only [List.forall_mem_append, List.forall_mem_cons] at hdigits ⊢
      exact ⟨⟨hdigits.1, hpoint, hdigits.2⟩, hexponent _⟩
    · simp only [List.forall_mem_append]
      exact ⟨hdigits, hexponent _⟩

private theorem exists_cons_layout {digits : Text} (h : Leading digits) (point : Int) :
    ∃ c rest, layout digits point = c :: rest ∧ c.isDigit = true := by
  obtain ⟨c, rest, rfl⟩ := List.exists_cons_of_ne_nil h.ne_nil
  have hc : c.isDigit = true := h.digits c List.mem_cons_self
  unfold layout
  split
  · split
    · exact ⟨'0', _, rfl, by decide⟩
    · split
      · exact ⟨c, _, rfl, hc⟩
      · rename_i hpoint _
        obtain ⟨k, hk⟩ : ∃ k, point.toNat = k + 1 := ⟨point.toNat - 1, by omega⟩
        rw [hk, List.take_succ_cons]
        exact ⟨c, _, rfl, hc⟩
  · cases rest with
    | nil => exact ⟨c, _, rfl, hc⟩
    | cons next rest => exact ⟨c, _, rfl, hc⟩

/-! ## Reading such characters -/

section

variable {t : Text}

theorem stripNumber_eq (h : ∀ c ∈ t, c ∈ numberCharacters) : stripNumber t = t := by
  have hblank : numberCharacters.all (!isNumberBlank ·) = true := by decide
  have hdrop : ∀ s : Text, (∀ c ∈ s, c ∈ numberCharacters) → s.dropWhile isNumberBlank = s := by
    intro s hs
    cases s with
    | nil => rfl
    | cons c s =>
      have hc := List.all_eq_true.mp hblank c (hs c List.mem_cons_self)
      rw [List.dropWhile_cons_of_neg (by simpa using hc)]
  rw [stripNumber, hdrop t h, hdrop t.reverse fun c hc ↦ h c (List.mem_reverse.mp hc),
    List.reverse_reverse]

private theorem plainDigits_eq (h : ∀ c ∈ t, c ∈ numberCharacters) : plainDigits t = t := by
  have hplain : (numberCharacters.all fun c ↦ plainDigits [c] = [c]) = true := by decide +kernel
  rw [plainDigits]
  conv_rhs => rw [← List.map_id t]
  exact List.map_congr_left fun c hc ↦
    List.singleton_inj.mp (of_decide_eq_true (List.all_eq_true.mp hplain c (h c hc)))

private theorem joinDigits?_eq (h : '_' ∉ t) : joinDigits? t = some t := by
  fun_induction joinDigits? t with
  | case1 => rfl
  | case2 => simp at h
  | case3 c d rest hdigits ih => simp at h
  | case4 c d rest hdigits => simp at h
  | case5 c rest hne hnext ih =>
    rw [ih fun hc ↦ h (List.mem_cons_of_mem _ hc)]
    rfl

private theorem underscore_not_mem (h : ∀ c ∈ t, c ∈ numberCharacters) : '_' ∉ t :=
  fun hc ↦ absurd (h '_' hc) (by decide)

private theorem wordOrMagnitude?_eq {c : Char} (hc : c.isDigit = true) (rest : Text) :
    wordOrMagnitude? (c :: rest) = magnitude? (c :: rest) := by
  have hword : numberCharacters.all (fun d ↦ d.toLower ≠ 'i' ∧ d.toLower ≠ 'n') = true := by decide
  obtain ⟨hi, hn⟩ := of_decide_eq_true
    (List.all_eq_true.mp hword c (mem_numberCharacters_of_isDigit hc))
  rw [wordOrMagnitude?]
  simp [hi, hn]

private theorem number?_eq_magnitude? (h : ∀ c ∈ t, c ∈ numberCharacters)
    (hhead : ∃ c rest, t = c :: rest ∧ c.isDigit = true) : number? t = magnitude? t := by
  obtain ⟨c, rest, rfl, hc⟩ := hhead
  rw [number?, stripNumber_eq h, plainDigits_eq h, joinDigits?_eq (underscore_not_mem h),
    ← wordOrMagnitude?_eq hc]
  simp only [Option.bind_eq_bind, Option.bind_some]
  split
  · rename_i heq
    cases heq
    exact absurd hc (by decide)
  · rename_i heq
    cases heq
    exact absurd hc (by decide)
  · rfl

private theorem number?_eq_neg (h : ∀ c ∈ t, c ∈ numberCharacters)
    (hhead : ∃ c rest, t = c :: rest ∧ c.isDigit = true) :
    number? ('-' :: t) = (magnitude? t).map (- ·) := by
  obtain ⟨c, rest, rfl, hc⟩ := hhead
  have h' : ∀ d ∈ '-' :: c :: rest, d ∈ numberCharacters := by
    intro d hd
    rcases List.mem_cons.mp hd with rfl | hd
    · decide
    · exact h d hd
  rw [number?, stripNumber_eq h', plainDigits_eq h', joinDigits?_eq (underscore_not_mem h'),
    ← wordOrMagnitude?_eq hc]
  rfl

end

/-! ## Values -/

theorem ofNumeral_lt {digits : Text} (h : ∀ c ∈ digits, c.isDigit = true) :
    ofNumeral digits < 10 ^ digits.length := by
  induction digits with
  | nil => decide
  | cons c s ih =>
    have hs := ih fun d hd ↦ h d (List.mem_cons_of_mem _ hd)
    have hdigit := (Char.isDigit_iff_toNat.mp (h c List.mem_cons_self)).2
    have hc : c.toNat - '0'.toNat ≤ 9 := by
      have : c.toNat ≤ 57 := hdigit
      have : '0'.toNat = 48 := rfl
      omega
    rw [ofNumeral] at hs ⊢
    rw [Nat.ofDigitChars_cons, Nat.ofDigitChars_eq_ofDigitChars_zero, Nat.mul_zero, Nat.zero_add,
      List.length_cons, pow_succ]
    have := Nat.mul_le_mul_left (10 ^ s.length) hc
    omega

/-- A numeral in the span of a number is read as it: the size of the number keeps the reader from
calling it infinite or zero. -/
private theorem scaled_eq {n : ℕ} {q : ℤ} (hn : Canonical n q) {c size : ℕ} {e : ℤ}
    (hv : InSpan n q (c * 10 ^ e)) (hlow : 10 ^ (size - 1) ≤ c) (hhigh : c < 10 ^ size) :
    scaled c size e = .ofModel (.pack (.finite .positive n q hn.pos)) := by
  obtain ⟨htiny, hhuge⟩ := hv.bounds hn
  have hten : (1 : ℚ) < 10 := by norm_num
  have hpow : (0 : ℚ) < 10 ^ e := zpow_pos (by norm_num) e
  have hsize : size ≠ 0 := by
    rintro rfl
    rw [Nat.zero_sub] at hlow
    omega
  have hc : 0 < c := by
    have : 0 < 10 ^ (size - 1) := by positivity
    omega
  have hupper : size + e ≤ 309 := by
    have hle : (10 : ℚ) ^ ((size - 1 : ℕ) + e) ≤ c * 10 ^ e := by
      rw [zpow_add₀ (by norm_num), zpow_natCast]
      exact mul_le_mul_of_nonneg_right (by exact_mod_cast hlow) hpow.le
    have := (zpow_lt_zpow_iff_right₀ hten (n := 309)).mp (hle.trans_lt hhuge)
    omega
  have hlower : -324 < size + e := by
    have hlt : (c : ℚ) * 10 ^ e < 10 ^ (size + e) := by
      rw [zpow_add₀ (by norm_num), zpow_natCast]
      exact mul_lt_mul_of_pos_right (by exact_mod_cast hhigh) hpow
    exact (zpow_lt_zpow_iff_right₀ hten).mp (htiny.trans hlt)
  have hlog : size - 1 ≤ c.log2 := by
    refine (Nat.le_log2 hc.ne').mpr (le_trans ?_ hlow)
    exact Nat.pow_le_pow_left (by decide) _
  -- neither of the two short cuts is taken
  rw [scaled, if_neg hc.ne', if_neg (by omega), if_neg (by omega)]
  exact ofScientific_eq hn hv hc (by omega) (by omega)

variable {x : Float}

section

variable {s : Sign} {n : ℕ} {q : ℤ} {h : 0 < n}

private theorem exists_digits (hx : x.toModel.unpack = .finite s n q h) :
    ∃ digits point, Leading digits ∧ magnitudeText x = layout digits point ∧
      InSpan n q (ofNumeral digits * 10 ^ (point - digits.length)) := by
  have hform := binaryForm_of_unpack_finite hx
  have hcontains := inSpan_of_contains (q := q) h
    (Span.contains_shortest (low_lt_value h _) (value_lt_high _))
  have hvalue : (Span.ofFloat x).value ≠ 0 := by
    rw [Span.ofFloat, hform]
    have := low_lt_value (q := q) h (n = leadingBit && q ≠ -1074)
    exact Nat.ne_of_gt (Nat.zero_lt_of_lt this)
  have hspan : Span.ofFloat x = Span.around n q (n = leadingBit && q ≠ -1074) := by
    rw [Span.ofFloat, hform]
  rw [magnitudeText, if_neg hvalue, hspan]
  generalize hd : (Span.around n q (n = leadingBit && q ≠ -1074)).shortest = d at hcontains ⊢
  have hpos : 0 < d := by
    obtain ⟨htiny, -⟩ := hcontains.bounds (canonical_of_unpack hx)
    rw [Nat.pos_iff_ne_zero]
    rintro rfl
    rw [Nat.cast_zero, zero_mul] at htiny
    exact absurd (htiny.trans' (zpow_pos (by norm_num) _)) (lt_irrefl _)
  -- zeros at the end of the numeral are moved into the exponent
  obtain ⟨k, hsplit, hleading⟩ := (leading_numeral hpos).exists_zeros
  refine ⟨_, _, hleading, rfl, ?_⟩
  generalize ((numeral d).reverse.dropWhile (· = '0')).reverse = digits at hsplit
  have hnumber : d = ofNumeral digits * 10 ^ k := by
    rw [← ofNumeral_append_zeros, ← hsplit, ofNumeral_numeral]
  have hlength : (numeral d).length = digits.length + k := by
    rw [hsplit, List.length_append, List.length_replicate]
  have hexponent : (Span.around n q (n = leadingBit && q ≠ -1074)).exponent = min (q - 2) 0 := rfl
  have hshift : ((numeral d).length : ℤ) + min (q - 2) 0 - digits.length =
      (k : ℕ) + min (q - 2) 0 := by
    rw [hlength]
    push_cast
    ring
  rw [hexponent, hshift, zpow_add₀ (by norm_num), zpow_natCast, ← mul_assoc]
  rw [hnumber] at hcontains
  exact_mod_cast hcontains

theorem magnitude?_magnitudeText (hx : x.toModel.unpack = .finite s n q h) :
    magnitude? (magnitudeText x) = some (.ofModel (.pack (.finite .positive n q h))) := by
  obtain ⟨digits, point, hleading, htext, hspan⟩ := exists_digits hx
  obtain ⟨k, hread⟩ := magnitude?_layout hleading point
  have hlow := hleading.le_ofNumeral
  have hhigh := ofNumeral_lt hleading.digits
  have hne : digits.length ≠ 0 := by simpa using hleading.ne_nil
  rw [htext, hread, placed]
  congr 1
  refine scaled_eq (canonical_of_unpack hx) ?_ ?_ ?_
  · convert hspan using 1
    have hsplit : point - digits.length = k + (point - (digits.length + k : ℕ)) := by
      push_cast
      ring
    rw [hsplit, zpow_add₀ (by norm_num), zpow_natCast]
    push_cast
    ring
  · have hsum : digits.length + k - 1 = digits.length - 1 + k := by omega
    rw [hsum, pow_add]
    exact Nat.mul_le_mul_right _ hlow
  · rw [pow_add]
    exact Nat.mul_lt_mul_of_pos_right hhigh (by positivity)

end

theorem unpack_of_isFinite (hx : x.isFinite = true) :
    (∃ s, x.toModel.unpack = .zero s) ∨ ∃ s n q h, x.toModel.unpack = .finite s n q h := by
  change x.toModel.unpack.isFinite = true at hx
  cases hu : x.toModel.unpack with
  | infinity s =>
    rw [hu] at hx
    cases hx
  | notANumber =>
    rw [hu] at hx
    cases hx
  | zero s => exact .inl ⟨s, rfl⟩
  | finite s n q h => exact .inr ⟨s, n, q, h, rfl⟩

private theorem magnitudeText_of_zero {s : Sign} (hx : x.toModel.unpack = .zero s) :
    magnitudeText x = ['0', '.', '0'] := by
  have hvalue : (Span.ofFloat x).value = 0 := by
    rw [Span.ofFloat, binaryForm_of_unpack_zero hx]
    exact value_around_zero _ _
  rw [magnitudeText, if_pos hvalue]

/-- The magnitude of a finite number starts with a digit and has none but the characters of
numbers. -/
theorem magnitudeText_characters (hx : x.isFinite = true) :
    (∀ c ∈ magnitudeText x, c ∈ numberCharacters) ∧
      ∃ c rest, magnitudeText x = c :: rest ∧ c.isDigit = true := by
  rcases unpack_of_isFinite hx with ⟨s, hu⟩ | ⟨s, n, q, h, hu⟩
  · rw [magnitudeText_of_zero hu]
    exact ⟨by simp [numberCharacters], '0', _, rfl, by decide⟩
  · obtain ⟨digits, point, hleading, htext, -⟩ := exists_digits hu
    rw [htext]
    exact ⟨fun c hc ↦ mem_numberCharacters_of_mem_layout hleading hc,
      exists_cons_layout hleading point⟩

theorem write_eq (hx : x.isFinite = true) :
    write x = match signOf x with
      | .positive => magnitudeText x
      | .negative => '-' :: magnitudeText x := by
  have hnan : x.isNaN = false := by
    change x.toModel.unpack.isNaN = false
    rcases unpack_of_isFinite hx with ⟨s, hu⟩ | ⟨s, n, q, h, hu⟩ <;> rw [hu] <;> rfl
  have hinf : x.isInf = false := by
    change x.toModel.unpack.isInf = false
    rcases unpack_of_isFinite hx with ⟨s, hu⟩ | ⟨s, n, q, h, hu⟩ <;> rw [hu] <;> rfl
  have hsign := shiftRight_toBits_eq_one_iff x
  rw [write, hnan, hinf]
  simp only [Bool.false_eq_true, ↓reduceIte]
  cases hs : signOf x with
  | positive => rw [if_neg fun hc ↦ by simp [hs] at hsign; exact hsign hc]
  | negative => rw [if_pos (hsign.mpr hs)]

theorem mem_numberCharacters_of_mem_write (hx : x.isFinite = true) {c : Char} (hc : c ∈ write x) :
    c ∈ numberCharacters := by
  have hmag := (magnitudeText_characters hx).1
  rw [write_eq hx] at hc
  cases hs : signOf x with
  | positive =>
    rw [hs] at hc
    exact hmag c hc
  | negative =>
    rw [hs] at hc
    rcases List.mem_cons.mp hc with rfl | hc
    · decide
    · exact hmag c hc

theorem number?_write (hx : x.isFinite = true) : number? (write x) = some x := by
  obtain ⟨hchars, hhead⟩ := magnitudeText_characters hx
  have hmag : magnitude? ['0', '.', '0'] = some 0 := rfl
  rw [write_eq hx]
  rcases unpack_of_isFinite hx with ⟨s, hu⟩ | ⟨s, n, q, h, hu⟩
  · rw [signOf_of_unpack_zero hu]
    cases s with
    | positive =>
      rw [number?_eq_magnitude? hchars hhead, magnitudeText_of_zero hu, hmag, eq_of_unpack hu]
      rfl
    | negative =>
      rw [number?_eq_neg hchars hhead, magnitudeText_of_zero hu, hmag, eq_of_unpack hu]
      rfl
  · rw [signOf_of_unpack_finite hu]
    cases s with
    | positive =>
      rw [number?_eq_magnitude? hchars hhead, magnitude?_magnitudeText hu, ← eq_of_unpack hu]
    | negative =>
      rw [number?_eq_neg hchars hhead, magnitude?_magnitudeText hu, eq_of_unpack hu]
      change some (Float.ofModel (.pack (UnpackedFloat.neg (Float.Model.unpack _)))) = _
      rw [unpack_pack (canonical_of_unpack hu)]
      rfl

/-! ## Reading what was written -/

/-- **A finite number is read back from its text**, zero with its sign. -/
theorem read?_write_of_isFinite (hx : x.isFinite = true) : read? (write x) = some x := by
  have hplain : '_' ∉ write x :=
    underscore_not_mem fun _ hc ↦ mem_numberCharacters_of_mem_write hx hc
  rw [read?, if_neg hplain, number?_write hx, Option.filter_some_pos hx]

theorem isNaN_or_infinity_of_not_isFinite (hx : x.isFinite = false) :
    x.isNaN = true ∨ ∃ s, x.toModel.unpack = .infinity s := by
  change x.toModel.unpack.isFinite = false at hx
  change x.toModel.unpack.isNaN = true ∨ _
  cases hu : x.toModel.unpack with
  | infinity s => exact .inr ⟨s, rfl⟩
  | notANumber => exact .inl rfl
  | zero s =>
    rw [hu] at hx
    cases hx
  | finite s n q h =>
    rw [hu] at hx
    cases hx

theorem write_of_not_isFinite (hx : x.isFinite = false) :
    write x ∈ [['n', 'a', 'n'], ['i', 'n', 'f'], ['-', 'i', 'n', 'f']] := by
  have hclass : x.isNaN = true ∨ x.isInf = true := by
    refine (isNaN_or_infinity_of_not_isFinite hx).imp_right fun ⟨s, hu⟩ ↦ ?_
    change x.toModel.unpack.isInf = true
    rw [hu]
    rfl
  rw [write]
  rcases hclass with h | h
  · rw [if_pos h]
    simp
  · rw [if_pos h]
    split
    · simp
    · split <;> simp

/-- **What is not finite is not read.** -/
theorem read?_write_of_not_isFinite (hx : x.isFinite = false) : read? (write x) = none := by
  have hread : ∀ t ∈ [['n', 'a', 'n'], ['i', 'n', 'f'], ['-', 'i', 'n', 'f']], read? t = none := by
    decide +kernel
  exact hread _ (write_of_not_isFinite hx)

end Decimal

end TermEmbedding
