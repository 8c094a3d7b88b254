import TermEmbedding.Proofs.Decimal.Rounding

/-!
# Decimal numbers to floating-point numbers

A decimal number is a product or a quotient of two naturals. Products and quotients of
floating-point numbers are rounded once, from an integer part that is fine enough and what is left
behind it, so a decimal number in the span of a floating-point number is read as that number. There
is a short way for small decimal numbers, which takes the power of ten from a table; nothing is lost
on it, because both factors are stored without rounding.
-/

open Float.Model Float.Model.UnpackedFloat

namespace TermEmbedding

namespace Binary

/-! ## Products and quotients -/

section

variable {n : ℕ} {q : ℤ} {m₁ m₂ : ℕ} {e₁ e₂ : ℤ}

private theorem represents_exact (m : ℕ) : Represents (.ofMantissaAndAccuracy m .exact) m := by
  refine ⟨le_rfl, lt_add_one _, ?_, ?_⟩
  · simp [ExtendedMantissa.ofMantissaAndAccuracy]
  · simp [ExtendedMantissa.ofMantissaAndAccuracy]

/-- An integer part and a proper fraction, which is known by whether it is nothing and by how it
lies to a half. -/
private theorem represents_fraction {m r b : ℕ} (hr : r < b) {round sticky : Bool}
    (hround : round = true ↔ b ≤ 2 * r) (hsticky : sticky = true ↔ r ≠ 0 ∧ 2 * r ≠ b) :
    Represents ⟨m, round, sticky⟩ (m + r / b) := by
  have hb : (0 : ℚ) < b := by exact_mod_cast r.zero_le.trans_lt hr
  have hlt : (r : ℚ) < b := by exact_mod_cast hr
  have hhalf : (1 / 2 : ℚ) ≤ r / b ↔ b ≤ 2 * r := by
    rw [le_div_iff₀ hb, div_mul_eq_mul_div, one_mul, div_le_iff₀ two_pos, mul_comm]
    exact_mod_cast Iff.rfl
  have hmid : (r / b : ℚ) = 1 / 2 ↔ 2 * r = b := by
    rw [div_eq_div_iff hb.ne' two_ne_zero, one_mul, mul_comm]
    exact_mod_cast Iff.rfl
  have hzero : (r / b : ℚ) = 0 ↔ r = 0 := by
    rw [div_eq_zero_iff, or_iff_left hb.ne', Nat.cast_eq_zero]
  refine ⟨le_add_of_nonneg_right (by positivity), ?_, ?_, ?_⟩
  · rw [add_lt_add_iff_left, div_lt_one hb]
    exact hlt
  · rw [add_le_add_iff_left, hhalf]
    exact hround
  · rw [ne_eq, ne_eq, add_eq_left, add_right_inj, hzero, hmid]
    exact hsticky

private theorem represents_quotient (a : ℕ) {b : ℕ} (hb : 0 < b) :
    Represents (.ofMantissaAndAccuracy (a / b) (accuracyOfFraction (a % b) b)) (a / b : ℚ) := by
  have hb' : (b : ℚ) ≠ 0 := by exact_mod_cast hb.ne'
  have hquot : (a / b : ℚ) = (a / b : ℕ) + (a % b : ℕ) / b := by
    rw [div_eq_iff hb', add_mul, div_mul_cancel₀ _ hb', mul_comm]
    exact_mod_cast (Nat.div_add_mod a b).symm
  have hlt : a % b < b := Nat.mod_lt a hb
  rw [hquot]
  generalize a / b = m, a % b = r at *
  by_cases hr : r = 0
  · rw [accuracyOfFraction, if_pos hr]
    exact represents_fraction hlt (by simp [hr, hb.ne']) (by simp [hr])
  · rw [accuracyOfFraction, if_neg hr]
    rcases lt_trichotomy (2 * r) b with h | h | h
    · rw [Nat.compare_eq_lt.mpr h]
      exact represents_fraction hlt (by simpa using h) (by simp [hr, h.ne])
    · rw [Nat.compare_eq_eq.mpr h]
      exact represents_fraction hlt (by simpa using h.ge) (by simp [h])
    · rw [Nat.compare_eq_gt.mpr h]
      exact represents_fraction hlt (by simpa using h.le) (by simp [hr, h.ne'])

private theorem mul_eq (hn : Canonical n q) (hv : InSpan n q (m₁ * 2 ^ e₁ * (m₂ * 2 ^ e₂)))
    (hfine : 52 ≤ (m₁ * m₂).log2) (h₁ : 0 < m₁) (h₂ : 0 < m₂) :
    UnpackedFloat.mul Format.binary64 (.finite .positive m₁ e₁ h₁) (.finite .positive m₂ e₂ h₂) =
      .finite .positive n q hn.pos := by
  have hprod : (m₁ * 2 ^ e₁ * (m₂ * 2 ^ e₂) : ℚ) / 2 ^ (e₁ + e₂) = (m₁ * m₂ : ℕ) := by
    rw [zpow_add₀ two_ne_zero]
    push_cast
    field_simp
  refine roundWithAccuracy_eq hn hv ?_ (.inl hfine)
  rw [hprod]
  exact represents_exact _

/-- A quotient is carried far enough for its last place, or to the least exponent there is. -/
private theorem divCore_eq (e₁ e₂ : ℤ) (h₁ : 0 < m₁) (h₂ : 0 < m₂) :
    ∃ k : ℕ, divCore Format.binary64 m₁ e₁ m₂ e₂ =
        (m₁ * 2 ^ k / m₂, e₁ - e₂ - k, accuracyOfFraction (m₁ * 2 ^ k % m₂) m₂) ∧
      (52 ≤ (m₁ * 2 ^ k / m₂).log2 ∨ e₁ - e₂ - k ≤ -1074) := by
  have hb : Format.binary64.mantissaBits = 53 := rfl
  have hmin : Format.binary64.minExponent = -1074 := by decide
  simp only [divCore, Format.targetExponent, totalExponent, hb, hmin, Nat.shiftLeft_eq]
  generalize ht : min (e₁ - e₂) (max ((m₁.log2 : ℤ) + 1 + e₁ - (m₂.log2 + 1 + e₂) - (53 : ℕ))
    (-1074)) = t
  obtain ⟨k, rfl⟩ : ∃ k : ℕ, t = e₁ - e₂ - k := ⟨(e₁ - e₂ - t).toNat, by omega⟩
  have hk : (e₁ - e₂ - (e₁ - e₂ - (k : ℤ))).toNat = k := by omega
  rw [hk]
  refine ⟨k, rfl, ?_⟩
  by_cases hsmall : e₁ - e₂ - (k : ℤ) ≤ -1074
  · exact .inr hsmall
  · left
    have hshift : m₂.log2 + 53 ≤ m₁.log2 + k := by omega
    have hpow : 2 ^ 52 * m₂ ≤ m₁ * 2 ^ k := by
      calc 2 ^ 52 * m₂ ≤ 2 ^ 52 * 2 ^ (m₂.log2 + 1) :=
            Nat.mul_le_mul_left _ Nat.lt_log2_self.le
        _ = 2 ^ (m₂.log2 + 53) := by rw [← pow_add, Nat.add_comm 52, Nat.add_assoc]
        _ ≤ 2 ^ (m₁.log2 + k) := Nat.pow_le_pow_right two_pos hshift
        _ = 2 ^ m₁.log2 * 2 ^ k := pow_add _ _ _
        _ ≤ m₁ * 2 ^ k := Nat.mul_le_mul_right _ (Nat.log2_self_le h₁.ne')
    have hquot : 2 ^ 52 ≤ m₁ * 2 ^ k / m₂ := (Nat.le_div_iff_mul_le h₂).mpr hpow
    exact (Nat.le_log2 (by omega)).mpr hquot

private theorem div_eq (hn : Canonical n q) (hv : InSpan n q (m₁ * 2 ^ e₁ / (m₂ * 2 ^ e₂)))
    (h₁ : 0 < m₁) (h₂ : 0 < m₂) :
    UnpackedFloat.div Format.binary64 (.finite .positive m₁ e₁ h₁) (.finite .positive m₂ e₂ h₂) =
      .finite .positive n q hn.pos := by
  obtain ⟨k, hcore, hfine⟩ := divCore_eq e₁ e₂ h₁ h₂
  have hm₂ : (m₂ : ℚ) ≠ 0 := by exact_mod_cast h₂.ne'
  have hquot : (m₁ * 2 ^ e₁ / (m₂ * 2 ^ e₂) : ℚ) / 2 ^ (e₁ - e₂ - k) =
      (m₁ * 2 ^ k : ℕ) / (m₂ : ℚ) := by
    rw [zpow_sub₀ two_ne_zero, zpow_sub₀ two_ne_zero, zpow_natCast]
    push_cast
    field_simp
  rw [UnpackedFloat.div, hcore]
  refine roundWithAccuracy_eq hn hv ?_ hfine
  rw [hquot]
  exact represents_quotient _ h₂

private theorem inSpan_self (n : ℕ) (q : ℤ) : InSpan n q (n * 2 ^ q) := by
  have hpos : (0 : ℚ) < 2 ^ q := zpow_pos two_pos q
  have hbelow : (0 : ℚ) < below n q := by
    rw [below]
    split <;> norm_num
  left
  rw [quarter]
  refine ⟨?_, ?_⟩
  · nlinarith
  · nlinarith

end

/-! ## Naturals and powers of ten without rounding -/

private theorem exists_full {m : ℕ} (hpos : 0 < m) (hlt : m < 2 ^ 53) :
    ∃ k, m.log2 + k = 52 ∧ 2 ^ 52 ≤ m * 2 ^ k ∧ m * 2 ^ k < 2 ^ 53 := by
  have hlog : m.log2 < 53 := (Nat.log2_lt hpos.ne').mpr hlt
  obtain ⟨k, hk⟩ : ∃ k, m.log2 + k = 52 := ⟨52 - m.log2, by omega⟩
  refine ⟨k, hk, ?_, ?_⟩
  · rw [← hk, pow_add]
    exact Nat.mul_le_mul_right _ (Nat.log2_self_le hpos.ne')
  · have hsum : 53 = m.log2 + 1 + k := by omega
    rw [hsum, pow_add]
    exact Nat.mul_lt_mul_of_pos_right Nat.lt_log2_self (by positivity)

private theorem round_natural {m k : ℕ} (hk : m.log2 + k = 52)
    (hc : Canonical (m * 2 ^ k) (-k)) :
    UnpackedFloat.round Format.binary64 .positive m 0 =
      .finite .positive (m * 2 ^ k) (-k) hc.pos := by
  have ht : Format.binary64.targetExponent (totalExponent m 0) = -k := by
    simp only [Format.targetExponent, totalExponent, Format.mantissaBits, Format.minExponent]
    norm_num
    omega
  have hlow : 2 ^ 52 ≤ m * 2 ^ k := hc.full.resolve_right (by omega)
  rw [UnpackedFloat.round, ht, decreaseExponent]
  simp only [zero_sub, neg_neg, Int.toNat_natCast, Nat.shiftLeft_eq]
  refine roundWithAccuracy_eq hc (inSpan_self _ _) ?_
    (.inl ((Nat.le_log2 hc.pos.ne').mpr hlow))
  rw [mul_div_cancel_right₀ _ (zpow_ne_zero _ two_ne_zero)]
  exact represents_exact _

theorem unpack_toFloat {m : ℕ} (hpos : 0 < m) (hlt : m < 2 ^ 53) :
    ∃ n : ℕ, ∃ q, ∃ h : 0 < n, 2 ^ 52 ≤ n ∧ (n : ℚ) * 2 ^ q = m ∧
      m.toUInt64.toFloat.toModel.unpack = .finite .positive n q h := by
  obtain ⟨k, hk, hlow, hhigh⟩ := exists_full hpos hlt
  have hc : Canonical (m * 2 ^ k) (-k) := ⟨by omega, hhigh, by omega, by omega, .inl hlow⟩
  have hvalue : ((m * 2 ^ k : ℕ) : ℚ) * 2 ^ (-k : ℤ) = m := by
    rw [zpow_neg, zpow_natCast]
    push_cast
    field_simp
  have hmodel : m.toUInt64.toFloat.toModel =
      .pack (UnpackedFloat.ofNat Format.binary64 m.toUInt64.toNat) := rfl
  refine ⟨m * 2 ^ k, -k, hc.pos, hlow, hvalue, ?_⟩
  have hnat : m.toUInt64.toNat = m := by
    rw [Nat.toUInt64, UInt64.toNat_ofNat', Nat.mod_eq_of_lt (by omega)]
  rw [hmodel, hnat, UnpackedFloat.ofNat, UnpackedFloat.ofInt, UnpackedFloat.normalize,
    Int.compare_eq_gt.mpr (by omega)]
  simp only [Int.toNat_natCast]
  rw [round_natural hk hc]
  exact unpack_pack hc hc.pos

/-- The power `5 ^ e` with its first bit moved to the front, in front of `2 ^ e`. -/
theorem toModel_powersOfTen : ∀ e : Fin 23, Float.exactlyRepresentablePowersOfTen[e].toModel =
    .pack (.finite .positive (5 ^ e.val * 2 ^ (52 - (5 ^ e.val).log2))
      (e.val + (5 ^ e.val).log2 - 52) (by positivity)) := by
  decide +kernel

theorem unpack_powerOfTen {e : ℕ} (he : e ≤ 22)
    (hi : e < Float.exactlyRepresentablePowersOfTen.size) :
    ∃ n : ℕ, ∃ q, ∃ h : 0 < n, (n : ℚ) * 2 ^ q = 10 ^ e ∧
      Float.exactlyRepresentablePowersOfTen[e].toModel.unpack = .finite .positive n q h := by
  have hfive : 5 ^ e < 2 ^ 53 := (Nat.pow_le_pow_right (by decide) he).trans_lt (by decide)
  obtain ⟨k, hk, hlow, hhigh⟩ := exists_full (m := 5 ^ e) (by positivity) hfive
  have hk' : 52 - (5 ^ e).log2 = k := by omega
  have hexp : (e : ℤ) + (5 ^ e).log2 - 52 = e - k := by omega
  have hc : Canonical (5 ^ e * 2 ^ k) (e - k) :=
    ⟨by omega, hhigh, by omega, by omega, .inl hlow⟩
  have htable := toModel_powersOfTen ⟨e, by omega⟩
  simp only [hk', hexp] at htable
  refine ⟨5 ^ e * 2 ^ k, e - k, hc.pos, ?_, ?_⟩
  · rw [zpow_sub₀ two_ne_zero, zpow_natCast, zpow_natCast]
    push_cast
    rw [show (10 : ℚ) = 5 * 2 by norm_num, mul_pow]
    field_simp
  · rw [← unpack_pack hc hc.pos, ← htable]
    rfl

/-! ## Decimal numbers -/

private theorem ten_zpow_of_nonneg {x : ℤ} (hx : 0 ≤ x) : (10 : ℚ) ^ x = 10 ^ x.natAbs := by
  rw [← zpow_natCast, Int.natAbs_of_nonneg hx]

private theorem ten_zpow_of_neg {x : ℤ} (hx : x < 0) : (10 : ℚ) ^ x = (10 ^ x.natAbs)⁻¹ := by
  rw [← zpow_natCast, ← zpow_neg, Int.ofNat_natAbs_of_nonpos hx.le, neg_neg]

section

variable {n m : ℕ} {q : ℤ}

private theorem toFloat_div_powerOfTen (hn : Canonical n q) {e : ℕ} (hv : InSpan n q (m / 10 ^ e))
    (hm : 0 < m) (hlt : m < 2 ^ 53) (he : e ≤ 22)
    (hi : e < Float.exactlyRepresentablePowersOfTen.size) :
    m.toUInt64.toFloat / Float.exactlyRepresentablePowersOfTen[e] =
      .ofModel (.pack (.finite .positive n q hn.pos)) := by
  obtain ⟨n₁, q₁, h₁, -, hvalue₁, hunpack₁⟩ := unpack_toFloat hm hlt
  obtain ⟨n₂, q₂, h₂, hvalue₂, hunpack₂⟩ := unpack_powerOfTen he hi
  rw [← hvalue₁, ← hvalue₂] at hv
  change Float.ofModel (.pack (UnpackedFloat.div _ _ _)) = _
  rw [hunpack₁, hunpack₂, div_eq hn hv]

private theorem toFloat_mul_powerOfTen (hn : Canonical n q) {e : ℕ} (hv : InSpan n q (m * 10 ^ e))
    (hm : 0 < m) (hlt : m < 2 ^ 53) (he : e ≤ 22)
    (hi : e < Float.exactlyRepresentablePowersOfTen.size) :
    m.toUInt64.toFloat * Float.exactlyRepresentablePowersOfTen[e] =
      .ofModel (.pack (.finite .positive n q hn.pos)) := by
  obtain ⟨n₁, q₁, h₁, hfull, hvalue₁, hunpack₁⟩ := unpack_toFloat hm hlt
  obtain ⟨n₂, q₂, h₂, hvalue₂, hunpack₂⟩ := unpack_powerOfTen he hi
  have hfine : 52 ≤ (n₁ * n₂).log2 :=
    (Nat.le_log2 (by positivity)).mpr (hfull.trans (Nat.le_mul_of_pos_right _ h₂))
  rw [← hvalue₁, ← hvalue₂] at hv
  change Float.ofModel (.pack (UnpackedFloat.mul _ _ _)) = _
  rw [hunpack₁, hunpack₂, mul_eq hn hv hfine]

/-- All other decimal numbers are products or quotients of naturals, rounded once. -/
theorem unpackedOfScientific_eq (hn : Canonical n q) {x : ℤ} (hv : InSpan n q (m * 10 ^ x))
    (hm : 0 < m) (hhigh : x ≤ 2048) (hlow : -(2048 + m.log2) ≤ x) :
    UnpackedFloat.ofScientific Format.binary64 m x = .finite .positive n q hn.pos := by
  have hbits : (2 : ℤ) ^ Format.binary64.exponentBits = 2048 := rfl
  have hmant : Format.binary64.mantissaBits = 53 := rfl
  rw [UnpackedFloat.ofScientific, dif_neg hm.ne', hbits, if_neg (by omega), if_neg (by omega)]
  split
  · rename_i hnonneg
    have hnat : x.toNat = x.natAbs := by omega
    refine mul_eq hn ?_ ?_ _ _
    · convert hv using 1
      rw [hmant, Nat.shiftLeft_eq, hnat, ten_zpow_of_nonneg hnonneg, zpow_neg, zpow_natCast]
      push_cast
      field_simp
      norm_num
    · rw [hmant, Nat.shiftLeft_eq]
      refine (Nat.le_log2 (by positivity)).mpr ?_
      have hpos : 0 < m * 10 ^ x.toNat := by positivity
      calc 2 ^ 52 ≤ 1 * 2 ^ 53 := by decide
        _ ≤ m * 10 ^ x.toNat * 2 ^ 53 := Nat.mul_le_mul_right _ hpos
        _ = m * 2 ^ 53 * 10 ^ x.toNat := by ring
  · rename_i hneg
    have hnat : (-x).toNat = x.natAbs := by omega
    refine div_eq hn ?_ _ _
    convert hv using 1
    rw [hnat, ten_zpow_of_neg (by omega), div_eq_mul_inv]
    push_cast
    simp

/-- **A decimal number in the span of a floating-point number is read as it.** The exponent is
bounded as readers bound it before they compute any power of ten. -/
theorem ofScientific_eq {n : ℕ} {q : ℤ} (hn : Canonical n q) {m : ℕ} {x : ℤ}
    (hv : InSpan n q (m * 10 ^ x)) (hm : 0 < m) (hhigh : x ≤ 2048)
    (hlow : -(2048 + m.log2) ≤ x) :
    Float.ofScientific m (x < 0) x.natAbs =
      .ofModel (.pack (.finite .positive n q hn.pos)) := by
  rw [Float.ofScientific]
  split
  · rename_i hfast
    by_cases hneg : x < 0
    · rw [if_pos (by simpa using hneg)]
      rw [ten_zpow_of_neg hneg, ← div_eq_mul_inv] at hv
      exact toFloat_div_powerOfTen hn hv hm hfast.1 hfast.2 _
    · rw [if_neg (by simpa using hneg)]
      rw [ten_zpow_of_nonneg (not_lt.mp hneg)] at hv
      exact toFloat_mul_powerOfTen hn hv hm hfast.1 hfast.2 _
  · have hx :
        (if decide (x < 0) = true then Int.negOfNat x.natAbs else Int.ofNat x.natAbs) = x := by
      simp only [decide_eq_true_eq, Int.negOfNat_eq, Int.ofNat_eq_natCast]
      omega
    simp only [hx]
    rw [Float.Model.ofScientific, unpackedOfScientific_eq hn hv hm hhigh hlow]

end

end Binary

end TermEmbedding
