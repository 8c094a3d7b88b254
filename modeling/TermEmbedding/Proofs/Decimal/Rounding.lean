import Mathlib.Algebra.Order.Field.Power
import Mathlib.Algebra.Order.Field.Rat
import Mathlib.Tactic.FieldSimp
import Mathlib.Tactic.Linarith
import Mathlib.Tactic.Positivity
import TermEmbedding.Proofs.Decimal.Binary

/-!
# Rounding to the nearest floating-point number

A positive real is rounded by cutting off its binary expansion and looking at two bits: the first
one that is lost, and whether anything is lost behind it. These two decide on which side of the
halfway point the real lies, so the outcome is the nearest number, the even one of two.

The reals that round to one number form a span around it. The span reaches halfway to both
neighbours, and halfway to the lower neighbour is nearer where a new binade starts. In quarters of
the last place all its ends are integers, which is how it is stated here.
-/

open Float.Model Float.Model.UnpackedFloat

namespace TermEmbedding

namespace Binary

/-! ## Cutting off -/

/-- A real as it is known while it is cut off: its integer part, whether the rest is at least a
half, and whether anything is left besides that half. -/
structure Represents (em : ExtendedMantissa) (w : ℚ) : Prop where
  le : (em.mantissa : ℚ) ≤ w
  lt : w < em.mantissa + 1
  round : em.roundBit = true ↔ (em.mantissa : ℚ) + 1 / 2 ≤ w
  sticky : em.stickyBit = true ↔ w ≠ em.mantissa ∧ w ≠ em.mantissa + 1 / 2

theorem Represents.lost_iff {em : ExtendedMantissa} {w : ℚ} (h : Represents em w) :
    (em.roundBit || em.stickyBit) = true ↔ w ≠ em.mantissa := by
  rw [Bool.or_eq_true, h.round, h.sticky]
  constructor
  · rintro (hhalf | ⟨hne, -⟩)
    · intro hc
      linarith
    · exact hne
  · intro hne
    by_cases hhalf : (em.mantissa : ℚ) + 1 / 2 ≤ w
    · exact .inl hhalf
    · exact .inr ⟨hne, fun hc ↦ hhalf hc.ge⟩

/-- The last bit of the integer part becomes the round bit, and the sticky bit gathers both old
bits. -/
private theorem Represents.shiftRightOne {em : ExtendedMantissa} {w : ℚ} (h : Represents em w) :
    Represents em.shiftRightOne (w / 2) := by
  have hlow := h.le
  have hhigh := h.lt
  have hlost := h.lost_iff
  have hdiv : (em.mantissa : ℚ) = 2 * (em.mantissa / 2 : ℕ) + (em.mantissa % 2 : ℕ) := by
    exact_mod_cast (Nat.div_add_mod em.mantissa 2).symm
  change Represents ⟨em.mantissa / 2, em.mantissa % 2 != 0, em.roundBit || em.stickyBit⟩ (w / 2)
  obtain hlast | hlast := Nat.mod_two_eq_zero_or_one em.mantissa
  · rw [hlast, Nat.cast_zero, add_zero] at hdiv
    rw [hlast]
    have hbelow : w / 2 < (em.mantissa / 2 : ℕ) + 1 / 2 := by linarith
    have hexact : w = em.mantissa ↔ w / 2 = (em.mantissa / 2 : ℕ) :=
      ⟨fun hw ↦ by linarith, fun hw ↦ by linarith⟩
    exact
      { le := by linarith
        lt := by linarith
        round := iff_of_false (by simp) (not_le.mpr hbelow)
        sticky := hlost.trans ((not_congr hexact).trans (iff_self_and.mpr fun _ ↦ hbelow.ne)) }
  · rw [hlast, Nat.cast_one] at hdiv
    rw [hlast]
    have habove : ((em.mantissa / 2 : ℕ) : ℚ) + 1 / 2 ≤ w / 2 := by linarith
    have hexact : w = em.mantissa ↔ w / 2 = (em.mantissa / 2 : ℕ) + 1 / 2 :=
      ⟨fun hw ↦ by linarith, fun hw ↦ by linarith⟩
    have hne : w / 2 ≠ (em.mantissa / 2 : ℕ) := fun hw ↦ by linarith
    exact
      { le := by linarith
        lt := by linarith
        round := iff_of_true rfl habove
        sticky := hlost.trans ((not_congr hexact).trans (iff_and_self.mpr fun _ ↦ hne)) }

private theorem Represents.shiftRight {em : ExtendedMantissa} {w : ℚ} (h : Represents em w)
    (k : ℕ) : Represents (em >>> k) (w / 2 ^ k) := by
  induction k with
  | zero => simpa [HShiftRight.hShiftRight, Nat.repeat] using h
  | succ k ih =>
    have hstep := ih.shiftRightOne
    rw [div_div, ← pow_succ] at hstep
    exact hstep

private theorem Represents.roundedMantissa_of_le_half {em : ExtendedMantissa} {w : ℚ}
    (h : Represents em w) (hle : w ≤ em.mantissa + 1 / 2)
    (heven : w = em.mantissa + 1 / 2 → em.mantissa % 2 = 0) : em.roundedMantissa = em.mantissa := by
  obtain ⟨m, r, s⟩ := em
  obtain ⟨-, -, hround, hsticky⟩ := h
  simp only at hle heven hround hsticky
  cases r with
  | false => cases s <;> rfl
  | true =>
    have hw : w = m + 1 / 2 := le_antisymm hle (hround.mp rfl)
    cases s with
    | true => exact absurd hw (hsticky.mp rfl).2
    | false =>
      change m + m % 2 = m
      rw [heven hw, add_zero]

private theorem Represents.roundedMantissa_of_half_le {em : ExtendedMantissa} {w : ℚ}
    (h : Represents em w) (hge : em.mantissa + 1 / 2 ≤ w)
    (hodd : w = em.mantissa + 1 / 2 → em.mantissa % 2 = 1) :
    em.roundedMantissa = em.mantissa + 1 := by
  obtain ⟨m, r, s⟩ := em
  obtain ⟨-, -, hround, hsticky⟩ := h
  simp only at hge hodd hround hsticky
  obtain rfl : r = true := hround.mpr hge
  cases s with
  | true => rfl
  | false =>
    have hw : w = m + 1 / 2 := by
      by_contra hc
      have hne : w ≠ m := fun hm ↦ by linarith
      exact absurd (hsticky.mpr ⟨hne, hc⟩) (by simp)
    change m + m % 2 = m + 1
    rw [hodd hw]

/-- Rounding what is known of a real gives the nearest integer, the even one of two. -/
theorem Represents.roundedMantissa_eq {em : ExtendedMantissa} {w : ℚ} (h : Represents em w) {n : ℕ}
    (hle : (n : ℚ) - 1 / 2 ≤ w) (hge : w ≤ n + 1 / 2)
    (heven : w = n - 1 / 2 ∨ w = n + 1 / 2 → n % 2 = 0) : em.roundedMantissa = n := by
  have hfloor := h.le
  have hceil := h.lt
  have hlow : em.mantissa < n + 1 := by
    have : (em.mantissa : ℚ) < n + 1 := by linarith
    exact_mod_cast this
  have hhigh : n < em.mantissa + 2 := by
    have : (n : ℚ) < em.mantissa + 2 := by linarith
    exact_mod_cast this
  -- the nearest integer is next to the integer part
  obtain rfl | rfl : n = em.mantissa ∨ n = em.mantissa + 1 := by omega
  · exact h.roundedMantissa_of_le_half hge fun hw ↦ heven (.inr hw)
  · push_cast at hle heven
    refine h.roundedMantissa_of_half_le (by linarith) fun hw ↦ ?_
    have := heven (.inl (by linarith))
    omega

/-! ## The span of a number -/

/-- Where the lower end of the span is, in quarters of the last place below the number. -/
def below (m : ℕ) (e : ℤ) : ℕ := if m = 2 ^ 52 ∧ e ≠ -1074 then 1 else 2

/-- The reals that round to `m * 2 ^ e`, an end of the span only if the significand is even. -/
def InSpan (m : ℕ) (e : ℤ) (v : ℚ) : Prop :=
  (4 * m - below m e : ℚ) * 2 ^ (e - 2) < v ∧ v < (4 * m + 2) * 2 ^ (e - 2) ∨
    m % 2 = 0 ∧ (v = (4 * m - below m e : ℚ) * 2 ^ (e - 2) ∨ v = (4 * m + 2) * 2 ^ (e - 2))

section

variable {m : ℕ} {e : ℤ} {v : ℚ}

theorem quarter (e : ℤ) : (2 : ℚ) ^ (e - 2) = 2 ^ e / 4 := by
  rw [zpow_sub₀ two_ne_zero]
  norm_num

/-- The ends of a span in units of the last place. -/
theorem InSpan.le_div (h : InSpan m e v) : (m : ℚ) - below m e / 4 ≤ v / 2 ^ e := by
  have hpos : (0 : ℚ) < 2 ^ e := zpow_pos two_pos e
  rw [le_div_iff₀ hpos]
  rw [InSpan, quarter] at h
  rcases h with ⟨h, -⟩ | ⟨-, h | h⟩
  · linarith
  · linarith
  · rw [h]
    have : (0 : ℚ) ≤ below m e := Nat.cast_nonneg _
    nlinarith

theorem InSpan.div_le (h : InSpan m e v) : v / 2 ^ e ≤ (m : ℚ) + 1 / 2 := by
  have hpos : (0 : ℚ) < 2 ^ e := zpow_pos two_pos e
  rw [div_le_iff₀ hpos]
  rw [InSpan, quarter] at h
  rcases h with ⟨-, h⟩ | ⟨-, h | h⟩
  · linarith
  · rw [h]
    have : (0 : ℚ) ≤ below m e := Nat.cast_nonneg _
    nlinarith
  · linarith

theorem below_le_two (m : ℕ) (e : ℤ) : (below m e : ℚ) ≤ 2 := by
  rw [below]
  split <;> norm_num

private theorem InSpan.even (h : InSpan m e v)
    (hend : v / 2 ^ e = (m : ℚ) - 1 / 2 ∨ v / 2 ^ e = (m : ℚ) + 1 / 2) : m % 2 = 0 := by
  have hpos : (0 : ℚ) < 2 ^ e := zpow_pos two_pos e
  have hbelow := below_le_two m e
  simp only [div_eq_iff hpos.ne'] at hend
  rw [InSpan, quarter] at h
  rcases h with ⟨hlow, hhigh⟩ | ⟨heven, -⟩
  · rcases hend with hend | hend
    · nlinarith
    · linarith
  · exact heven

end

/-! ## Rounding by cutting off -/

theorem shiftToTargetExponent_eq (m : ℕ) (e : ℤ) (a : Accuracy) {k : ℕ}
    (hk : max (m.log2 + e - 52) (-1074) = e + k) :
    shiftToTargetExponent Format.binary64 m e a =
      (ExtendedMantissa.ofMantissaAndAccuracy m a >>> k, e + k) := by
  have ht : Format.binary64.targetExponent (totalExponent m e) = e + k := by
    rw [← hk]
    simp only [Format.targetExponent, totalExponent, Format.mantissaBits, Format.minExponent]
    norm_num
    omega
  rw [shiftToTargetExponent, ht, shiftToExponent]
  simp

private theorem shiftToTargetExponent_of_lt {m : ℕ} {e : ℤ} (hm : m < 2 ^ 53) (he : -1074 ≤ e) :
    (shiftToTargetExponent Format.binary64 m e .exact).1.mantissa = m ∧
      (shiftToTargetExponent Format.binary64 m e .exact).2 = e := by
  have hlog : m.log2 ≤ 52 := by
    by_cases h : m = 0
    · simp [h]
    · have := (Nat.log2_lt h).mpr hm
      omega
  have ht : (Format.binary64.targetExponent (totalExponent m e) - e).toNat = 0 := by
    simp only [Format.targetExponent, totalExponent, Format.mantissaBits, Format.minExponent]
    norm_num
    omega
  rw [shiftToTargetExponent, shiftToExponent, ht]
  exact ⟨rfl, add_zero e⟩

/-- Rounding may fill all bits and one more, which is then shifted out. -/
private theorem shiftToTargetExponent_carry {e : ℤ} (he : -1074 ≤ e) :
    (shiftToTargetExponent Format.binary64 (2 ^ 53) e .exact).1.mantissa = 2 ^ 52 ∧
      (shiftToTargetExponent Format.binary64 (2 ^ 53) e .exact).2 = e + 1 := by
  have hk : max (((2 ^ 53).log2 : ℤ) + e - 52) (-1074) = e + (1 : ℕ) := by
    rw [Nat.log2_two_pow]
    omega
  rw [shiftToTargetExponent_eq _ _ _ hk]
  exact ⟨rfl, rfl⟩

/-- What rounding does after cutting off: it stores the rounded significand, with the carry moved
into the exponent. -/
private theorem roundWithAccuracy_of_rounded {s : Sign} {m : ℕ} {e : ℤ} {a : Accuracy} {k r : ℕ}
    (hk : max (m.log2 + e - 52) (-1074) = e + k)
    (hr : (ExtendedMantissa.ofMantissaAndAccuracy m a >>> k).roundedMantissa = r) (hpos : 0 < r)
    (hlt : r < 2 ^ 53) : roundWithAccuracy Format.binary64 s m e a = .finite s r (e + k) hpos := by
  obtain ⟨hfirst, hsecond⟩ := shiftToTargetExponent_of_lt (e := e + k) hlt (by omega)
  rw [roundWithAccuracy, shiftToTargetExponent_eq m e a hk]
  simp only [hr, hfirst, hsecond]
  rw [dif_neg hpos.ne']

private theorem roundWithAccuracy_of_carry {s : Sign} {m : ℕ} {e : ℤ} {a : Accuracy} {k : ℕ}
    (hk : max (m.log2 + e - 52) (-1074) = e + k)
    (hr : (ExtendedMantissa.ofMantissaAndAccuracy m a >>> k).roundedMantissa = 2 ^ 53) :
    roundWithAccuracy Format.binary64 s m e a = .finite s (2 ^ 52) (e + k + 1) (by decide) := by
  obtain ⟨hfirst, hsecond⟩ := shiftToTargetExponent_carry (e := e + k) (by omega)
  rw [roundWithAccuracy, shiftToTargetExponent_eq m e a hk]
  simp only [hr, hfirst, hsecond]
  rw [dif_neg (by decide)]

private theorem mantissa_ofMantissaAndAccuracy (m : ℕ) (a : Accuracy) :
    (ExtendedMantissa.ofMantissaAndAccuracy m a).mantissa = m := by
  cases a with
  | exact => rfl
  | inexact o => cases o <;> rfl

section

variable {n m k : ℕ} {q e i : ℤ} {v : ℚ} {a : Accuracy}

private theorem Represents.div_lt (hm : Represents (.ofMantissaAndAccuracy m a) (v / 2 ^ e))
    (hk : max (m.log2 + e - 52) (-1074) = e + k) : v / 2 ^ (e + k) < 2 ^ 53 := by
  have hceil : v / 2 ^ e < m + 1 := by
    simpa only [mantissa_ofMantissaAndAccuracy] using hm.lt
  have hbits : (m : ℚ) + 1 ≤ 2 ^ (53 + k) := by
    have h1 : m + 1 ≤ 2 ^ (m.log2 + 1) := Nat.lt_log2_self
    have h2 : 2 ^ (m.log2 + 1) ≤ 2 ^ (53 + k) := Nat.pow_le_pow_right two_pos (by omega)
    exact_mod_cast h1.trans h2
  rw [zpow_add₀ two_ne_zero, zpow_natCast, ← div_div, div_lt_iff₀ (by positivity), ← pow_add]
  exact hceil.trans_le hbits

theorem Represents.le_div (hm : Represents (.ofMantissaAndAccuracy m a) (v / 2 ^ e))
    (hk : max (m.log2 + e - 52) (-1074) = e + k) (hfine : 52 ≤ m.log2 ∨ e ≤ -1074)
    (hmin : -1074 < e + k) : 2 ^ 52 ≤ v / 2 ^ (e + k) := by
  have hfloor : (m : ℚ) ≤ v / 2 ^ e := by
    simpa only [mantissa_ofMantissaAndAccuracy] using hm.le
  have hlog : m.log2 = 52 + k := by omega
  have hbits : (2 : ℚ) ^ (52 + k) ≤ m := by
    rw [← hlog]
    exact_mod_cast Nat.log2_self_le (by
      rintro rfl
      rw [Nat.log2_zero] at hlog
      omega)
  rw [zpow_add₀ two_ne_zero, zpow_natCast, ← div_div, le_div_iff₀ (by positivity), ← pow_add]
  exact hbits.trans hfloor

private theorem div_zpow_add_one (v : ℚ) (i : ℤ) (j : ℕ) :
    v / 2 ^ (i + 1 + j) * (2 * 2 ^ j) = v / 2 ^ i := by
  rw [zpow_add₀ two_ne_zero, zpow_add₀ two_ne_zero, zpow_natCast, zpow_one]
  field_simp

/-- A real of at most 53 bits in some unit that is finer than the last place lies in the binade
below the number, so the number starts its binade. -/
private theorem InSpan.eq_of_lt (hv : InSpan n q v) (hn : Canonical n q) (hi : i < q)
    (hmin : -1074 ≤ i) (hlt : v / 2 ^ i < 2 ^ 53) : n = 2 ^ 52 ∧ q = i + 1 := by
  have hfull : 2 ^ 52 ≤ n := hn.full.resolve_right (by omega)
  have hnge : (2 : ℚ) ^ 52 ≤ n := by exact_mod_cast hfull
  have hlow := hv.le_div
  have hbelow := below_le_two n q
  obtain ⟨j, rfl⟩ : ∃ j : ℕ, q = i + 1 + j := ⟨(q - (i + 1)).toNat, by omega⟩
  have hscale := div_zpow_add_one v i j
  obtain rfl : j = 0 := by
    by_contra hne
    have hj : (2 : ℚ) ≤ 2 ^ j := by
      calc (2 : ℚ) = 2 ^ 1 := (pow_one 2).symm
        _ ≤ 2 ^ j := pow_le_pow_right₀ one_le_two (by omega)
    nlinarith
  simp only [Nat.cast_zero, add_zero, pow_zero, mul_one] at hscale hlow hbelow
  have hupper : (n : ℚ) < 2 ^ 52 + 1 := by linarith
  have hnat : n < 2 ^ 52 + 1 := by exact_mod_cast hupper
  exact ⟨by omega, by omega⟩

private theorem InSpan.le_of_le_div (hv : InSpan n q v) (hn : Canonical n q)
    (hle : 2 ^ 52 ≤ v / 2 ^ i) : i ≤ q := by
  by_contra hcoarse
  have hhigh := hv.div_le
  have hnlt : (n : ℚ) + 1 ≤ 2 ^ 53 := by exact_mod_cast hn.lt
  obtain ⟨j, rfl⟩ : ∃ j : ℕ, i = q + 1 + j := ⟨(i - (q + 1)).toNat, by omega⟩
  have hscale := div_zpow_add_one v q j
  have hj : (1 : ℚ) ≤ 2 ^ j := one_le_pow₀ one_le_two
  nlinarith

end

/-- **Rounding gives the number whose span the real is in.** The real is known by its integer part
in some unit and by how it lies to that; the unit has to be no coarser than the last place. -/
theorem roundWithAccuracy_eq {s : Sign} {n : ℕ} {q : ℤ} (hn : Canonical n q) {v : ℚ}
    (hv : InSpan n q v) {m : ℕ} {e : ℤ} {a : Accuracy}
    (hm : Represents (ExtendedMantissa.ofMantissaAndAccuracy m a) (v / 2 ^ e))
    (hfine : 52 ≤ m.log2 ∨ e ≤ -1074) :
    roundWithAccuracy Format.binary64 s m e a = .finite s n q hn.pos := by
  obtain ⟨k, hk⟩ : ∃ k : ℕ, max (m.log2 + e - 52) (-1074) = e + k :=
    ⟨(max (m.log2 + e - 52) (-1074) - e).toNat, by omega⟩
  have hrep := hm.shiftRight k
  rw [div_div, ← zpow_natCast, ← zpow_add₀ two_ne_zero] at hrep
  have hlt := hm.div_lt hk
  have hlow := hv.le_div
  have hhigh := hv.div_le
  have hbelow := below_le_two n q
  rcases lt_trichotomy (e + k) q with hfiner | heq | hcoarse
  · -- rounding up fills all bits and carries into the next binade
    obtain ⟨rfl, rfl⟩ := hv.eq_of_lt hn hfiner (by omega) hlt
    have hscale := div_zpow_add_one v (e + k) 0
    rw [Nat.cast_zero, add_zero, pow_zero, mul_one] at hscale
    have hone : below (2 ^ 52) (e + k + 1) = 1 := if_pos ⟨rfl, by omega⟩
    rw [hone] at hlow
    push_cast at hlow
    exact roundWithAccuracy_of_carry hk
      (hrep.roundedMantissa_eq (by push_cast; linarith) (by push_cast; linarith)
        fun _ ↦ by decide)
  · subst heq
    exact roundWithAccuracy_of_rounded hk
      (hrep.roundedMantissa_eq (by linarith) hhigh hv.even) hn.pos hn.lt
  · have hleast := hn.least
    exact absurd (hv.le_of_le_div hn (hm.le_div hk hfine (by omega))) (by omega)

end Binary

end TermEmbedding
