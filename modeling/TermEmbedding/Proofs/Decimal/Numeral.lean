import TermEmbedding.Proofs.Decimal.Scientific

/-!
# The numeral of a floating-point number

The numeral that is written is searched for on coarser and coarser grids, and whatever the search
ends with lies in the span: a grid point is taken only after it was looked up, and the value itself
needs no looking up. The span of the search is counted in units of a power of ten and the span of
rounding in quarters of the last place; the two are one span.
-/

namespace TermEmbedding

namespace Span

variable {s : Span}

/-! ## The search -/

theorem contains_value (hlow : s.low < s.value) (hhigh : s.value < s.high) :
    s.contains s.value = true := by
  simp [contains, hlow, hhigh]

theorem contains_of_nearest? {grid d : Nat} (h : s.nearest? grid = some d) :
    s.contains d = true := by
  rw [nearest?] at h
  split at h
  · rename_i hbelow habove
    split at h
    · cases h
      exact hbelow
    · split at h
      · cases h
        exact habove
      · split at h <;> cases h
        · exact hbelow
        · exact habove
  · rename_i hbelow _
    cases h
    exact hbelow
  · rename_i _ habove
    cases h
    exact habove
  · cases h

theorem contains_shortestFrom (h : s.contains s.value = true) (t : Nat) :
    s.contains (s.shortestFrom t) = true := by
  induction t with
  | zero => exact h
  | succ t ih =>
    rw [shortestFrom]
    cases hnear : s.nearest? (10 ^ (t + 1)) with
    | none => exact ih
    | some d => exact contains_of_nearest? hnear

theorem contains_shortest (hlow : s.low < s.value) (hhigh : s.value < s.high) :
    s.contains s.shortest = true :=
  contains_shortestFrom (contains_value hlow hhigh) _

end Span

namespace Binary

/-! ## The two spans -/

private theorem scale_mul_unit (e : ℤ) :
    ((if 0 ≤ e then 2 ^ e.toNat else 5 ^ (-e).toNat : ℕ) : ℚ) * 10 ^ min e 0 = 2 ^ e := by
  split
  · rename_i h
    rw [min_eq_right h, zpow_zero, mul_one, Nat.cast_pow, ← zpow_natCast, Int.toNat_of_nonneg h]
    rfl
  · rename_i h
    obtain ⟨k, rfl⟩ : ∃ k : ℕ, e = -k := ⟨(-e).toNat, by omega⟩
    rw [min_eq_left (by omega), neg_neg, Int.toNat_natCast, zpow_neg, zpow_neg, zpow_natCast,
      zpow_natCast, show (10 : ℚ) = 5 * 2 by norm_num, mul_pow]
    push_cast
    field_simp

section

variable {m : ℕ} {q : ℤ}

private theorem startsBinade_eq :
    (if (decide (m = leadingBit) && decide (q ≠ -1074)) = true then 1 else 2) = below m q := by
  have hbit : leadingBit = 2 ^ 52 := rfl
  rw [below, hbit]
  simp only [Bool.and_eq_true, decide_eq_true_eq]

private theorem scale_pos (e : ℤ) :
    0 < if 0 ≤ e then Nat.pow 2 e.toNat else Nat.pow 5 (-e).toNat := by
  split
  · exact Nat.pow_pos two_pos
  · exact Nat.pow_pos (by decide)

theorem value_around_zero (q : ℤ) (b : Bool) : (Span.around 0 q b).value = 0 := by
  simp only [Span.around, Nat.mul_zero, Nat.zero_mul]

theorem low_lt_value (hm : 0 < m) (b : Bool) :
    (Span.around m q b).low < (Span.around m q b).value := by
  refine Nat.mul_lt_mul_of_pos_right ?_ (scale_pos _)
  split <;> omega

theorem value_lt_high (b : Bool) : (Span.around m q b).value < (Span.around m q b).high := by
  exact Nat.mul_lt_mul_of_pos_right (by omega) (scale_pos _)

/-- A numeral in the span of the search stands for a real in the span of rounding. -/
theorem inSpan_of_contains (hm : 0 < m) {d : ℕ}
    (h : (Span.around m q (m = leadingBit && q ≠ -1074)).contains d = true) :
    InSpan m q (d * 10 ^ min (q - 2) 0) := by
  have hunit : (0 : ℚ) < 10 ^ min (q - 2) 0 := zpow_pos (by norm_num) _
  have hscale := scale_mul_unit (q - 2)
  simp only [Span.contains, Span.around, startsBinade_eq, Nat.pow_eq] at h
  simp only [Bool.or_eq_true, Bool.and_eq_true, decide_eq_true_eq] at h
  -- both spans are compared in units of the grid
  rw [InSpan, ← hscale]
  generalize (if 0 ≤ q - 2 then 2 ^ (q - 2).toNat else 5 ^ (-(q - 2)).toNat) = scale at h ⊢
  generalize (10 : ℚ) ^ min (q - 2) 0 = unit at hunit ⊢
  have hle : below m q ≤ 4 * m := by
    rw [below]
    split <;> omega
  rw [← mul_assoc, ← mul_assoc, mul_lt_mul_iff_left₀ hunit, mul_lt_mul_iff_left₀ hunit,
    mul_left_inj' hunit.ne', mul_left_inj' hunit.ne']
  have hlow : (4 * m - below m q : ℚ) * scale = ((4 * m - below m q) * scale : ℕ) := by
    rw [Nat.cast_mul, Nat.cast_sub hle]
    push_cast
    rfl
  have hhigh : (4 * m + 2 : ℚ) * scale = ((4 * m + 2) * scale : ℕ) := by
    push_cast
    rfl
  rw [hlow, hhigh, Nat.cast_lt, Nat.cast_lt, Nat.cast_inj, Nat.cast_inj]
  exact h

theorem InSpan.bounds (hc : Canonical m q) {v : ℚ} (h : InSpan m q v) :
    (10 : ℚ) ^ (-324 : ℤ) < v ∧ v < 10 ^ 309 := by
  have hpos : (0 : ℚ) < 2 ^ q := zpow_pos two_pos q
  have hbelow := below_le_two m q
  have hm : (1 : ℚ) ≤ m := by exact_mod_cast hc.pos
  have hm' : (m : ℚ) + 1 ≤ 2 ^ 53 := by exact_mod_cast hc.lt
  have hlow : (1 / 2 : ℚ) * 2 ^ q ≤ v := by
    have := h.le_div
    rw [le_div_iff₀ hpos] at this
    exact le_trans (mul_le_mul_of_nonneg_right (by linarith) hpos.le) this
  have hhigh : v ≤ 2 ^ 53 * 2 ^ q := by
    have := h.div_le
    rw [div_le_iff₀ hpos] at this
    exact this.trans (mul_le_mul_of_nonneg_right (by linarith) hpos.le)
  have hsmall : (2 : ℚ) ^ 1075 < 10 ^ 324 := by
    exact_mod_cast (by decide +kernel : 2 ^ 1075 < 10 ^ 324)
  have hlarge : (2 : ℚ) ^ 1024 < 10 ^ 309 := by
    exact_mod_cast (by decide +kernel : 2 ^ 1024 < 10 ^ 309)
  constructor
  · calc (10 : ℚ) ^ (-324 : ℤ) = (10 ^ 324)⁻¹ := by rw [zpow_neg]; rfl
      _ < (2 ^ 1075)⁻¹ := inv_strictAnti₀ (by positivity) hsmall
      _ = 1 / 2 * 2 ^ (-1074 : ℤ) := by
        rw [zpow_neg, pow_succ, mul_inv, mul_comm, one_div]
        rfl
      _ ≤ 1 / 2 * 2 ^ q :=
        mul_le_mul_of_nonneg_left (zpow_le_zpow_right₀ one_le_two hc.least) (by norm_num)
      _ ≤ v := hlow
  · calc v ≤ 2 ^ 53 * 2 ^ q := hhigh
      _ ≤ 2 ^ 53 * 2 ^ (971 : ℤ) :=
        mul_le_mul_of_nonneg_left (zpow_le_zpow_right₀ one_le_two hc.greatest) (by norm_num)
      _ = 2 ^ 1024 := (pow_add 2 53 971).symm
      _ < 10 ^ 309 := hlarge

end

end Binary

end TermEmbedding
