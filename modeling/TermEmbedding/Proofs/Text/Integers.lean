import TermEmbedding.Proofs.Decimal.RoundTrip
import TermEmbedding.Text.Numeral

/-!
# Integers as text and back

An integer is read back from its numeral, if the numeral is short enough to be written. This is so
exactly for the integers below a power of ten, and every integer that is read is one of them.
Numerals of any length tell integers apart.
-/

namespace TermEmbedding

/-! ## Numerals tell numbers apart -/

theorem numeral_injective : Function.Injective numeral := fun m n h ↦ by
  rw [← ofNumeral_numeral m, h, ofNumeral_numeral]

theorem mem_integerNumeral {i : Int} {c : Char} (h : c ∈ integerNumeral i) :
    c = '-' ∨ c.isDigit = true := by
  rw [integerNumeral] at h
  split_ifs at h
  · rcases List.mem_cons.mp h with rfl | h
    · exact .inl rfl
    · exact .inr (Decimal.isDigit_of_mem_numeral h)
  · exact .inr (Decimal.isDigit_of_mem_numeral h)

theorem integerNumeral_injective : Function.Injective integerNumeral := by
  have hsign : ∀ {n : Nat} {t : Text}, numeral n ≠ '-' :: t := fun {n t} h ↦ by
    have hdigit := Decimal.isDigit_of_mem_numeral (n := n) (h ▸ List.mem_cons_self)
    cases hdigit
  intro i j h
  rw [integerNumeral, integerNumeral] at h
  split_ifs at h with hi hj hj
  · have := numeral_injective (List.cons.inj h).2
    omega
  · exact absurd h.symm hsign
  · exact absurd h hsign
  · have := numeral_injective h
    omega

/-! ## Numbers that have a numeral -/

theorem length_numeral_of_hasNumeral {i : Int} (h : hasNumeral i = true) :
    (numeral i.natAbs).length ≤ numeralLimit := of_decide_eq_true h

theorem numeral_ne_nil (n : Nat) : numeral n ≠ [] := Nat.toDigits_ne_nil

theorem integerNumeral_of_nonneg {i : Int} (h : 0 ≤ i) : integerNumeral i = numeral i.natAbs :=
  if_neg (Int.not_lt.mpr h)

/-- Exactly the numbers below a power of ten have a numeral. -/
theorem hasNumeral_iff {i : Int} : hasNumeral i = true ↔ i.natAbs < 10 ^ numeralLimit := by
  rw [hasNumeral, decide_eq_true_iff]
  constructor
  · intro hlength
    have hlt := Decimal.ofNumeral_lt fun c (hc : c ∈ numeral i.natAbs) ↦
      Decimal.isDigit_of_mem_numeral hc
    rw [ofNumeral_numeral] at hlt
    exact hlt.trans_le (Nat.pow_le_pow_right (by decide) hlength)
  · exact Nat.toDigits_length 10 _ _ (by decide)

theorem hasNumeral_of_lt {i n : Nat} (hi : i < n) (hn : n ≤ 10 ^ numeralLimit) :
    hasNumeral (i : Int) = true := hasNumeral_iff.mpr (hi.trans_le hn)

theorem hasNumeral_mono {i j : Nat} (hij : i ≤ j) (h : hasNumeral (j : Int) = true) :
    hasNumeral (i : Int) = true := hasNumeral_iff.mpr (hij.trans_lt (hasNumeral_iff.mp h))

/-! ## Reading integers -/

theorem digitValue?_of_isDigit {c : Char} (h : c.isDigit = true) :
    digitValue? c = some (c.toNat - '0'.toNat) := by
  rw [Char.isDigit_iff_toNat] at h
  change 48 ≤ c.toNat ∧ c.toNat ≤ 57 at h
  rw [digitValue?, digitZeros, List.find?_cons_of_pos, Option.map_some]
  · rfl
  · simp only [Bool.and_eq_true, decide_eq_true_eq]
    omega

private theorem digitRun?_of_digits {t : Text} (h : ∀ c ∈ t, c.isDigit = true) (hne : t ≠ []) :
    digitRun? t = some (t.map fun c ↦ c.toNat - '0'.toNat) := by
  have hplain : ∀ c ∈ t, c ≠ '_' := by
    rintro c hc rfl
    exact absurd (h _ hc) (by decide)
  fun_induction digitRun? t with
  | case1 => exact absurd rfl hne
  | case2 c =>
    rw [digitValue?_of_isDigit (h c List.mem_cons_self)]
    rfl
  | case3 c rest ih => exact absurd rfl (hplain '_' (by simp))
  | case4 c rest hrest hunderscore ih =>
    have hnil : rest ≠ [] := hrest
    rw [digitValue?_of_isDigit (h c List.mem_cons_self),
      ih (fun d hd ↦ h d (List.mem_cons_of_mem _ hd)) hnil
        (fun d hd ↦ hplain d (List.mem_cons_of_mem _ hd))]
    rfl

theorem magnitude?_numeral {n : Nat} (h : (numeral n).length ≤ numeralLimit) :
    magnitude? (numeral n) = some n := by
  rw [magnitude?, digitRun?_of_digits (fun c hc ↦ Decimal.isDigit_of_mem_numeral hc)
    (numeral_ne_nil n), Option.bind_eq_bind, Option.bind_some, List.length_map, if_pos h,
    List.foldl_map]
  exact congrArg some (ofNumeral_numeral n)

/-- **An integer is read back from its numeral.** -/
theorem integer?_integerNumeral {i : Int} (h : hasNumeral i = true) :
    integer? (integerNumeral i) = some i := by
  have hmagnitude := magnitude?_numeral (length_numeral_of_hasNumeral h)
  have hcharacters : ∀ c ∈ numeral i.natAbs, c ∈ Decimal.numberCharacters := fun c hc ↦
    Decimal.mem_numberCharacters_of_isDigit (Decimal.isDigit_of_mem_numeral hc)
  rw [integer?, integerNumeral]
  split_ifs with hsign
  · have hminus : ∀ c ∈ '-' :: numeral i.natAbs, c ∈ Decimal.numberCharacters :=
      List.forall_mem_cons.mpr ⟨by decide, hcharacters⟩
    rw [Decimal.stripNumber_eq hminus]
    change ((magnitude? (numeral i.natAbs)) >>= fun n ↦ pure (n : Int)).map (- ·) = some i
    rw [hmagnitude]
    change some (-(i.natAbs : Int)) = some i
    congr 1
    omega
  · have hdigit : ∀ c ∈ numeral i.natAbs, c.isDigit = true := fun c ↦
      Decimal.isDigit_of_mem_numeral
    rw [Decimal.stripNumber_eq hcharacters]
    split
    · rename_i hcons
      exact absurd (hdigit '-' (by rw [hcons]; exact List.mem_cons_self)) (by decide)
    · rename_i hcons
      exact absurd (hdigit '+' (by rw [hcons]; exact List.mem_cons_self)) (by decide)
    · rw [hmagnitude, Option.map_some]
      congr 1
      change (i.natAbs : Int) = i
      omega

private theorem forall_lt_of_digitRun? {t : Text} {ds : List Nat} (h : digitRun? t = some ds) :
    ∀ d ∈ ds, d < 10 := by
  have hcons : ∀ {c : Char} {rest : Text} {ds : List Nat}, (∀ {ds : List Nat},
      digitRun? rest = some ds → ∀ d ∈ ds, d < 10) → (digitValue? c >>= fun d ↦
        digitRun? rest >>= fun ds ↦ some (d :: ds)) = some ds → ∀ d ∈ ds, d < 10 := by
    intro c rest ds ih hds
    obtain ⟨d, hd, hds⟩ := Option.bind_eq_some_iff.mp hds
    obtain ⟨others, hothers, hds⟩ := Option.bind_eq_some_iff.mp hds
    cases hds
    exact List.forall_mem_cons.mpr ⟨digitValue?_lt_ten hd, ih hothers⟩
  fun_induction digitRun? t generalizing ds with
  | case1 => cases h
  | case2 c =>
    obtain ⟨d, hd, rfl⟩ := Option.map_eq_some_iff.mp h
    exact List.forall_mem_singleton.mpr (digitValue?_lt_ten hd)
  | case3 c rest ih => exact hcons ih h
  | case4 c rest hrest hunderscore ih => exact hcons ih h

private theorem foldl_digits_lt {ds : List Nat} (h : ∀ d ∈ ds, d < 10) (n : Nat) :
    ds.foldl (fun n d ↦ 10 * n + d) n < (n + 1) * 10 ^ ds.length := by
  induction ds generalizing n with
  | nil => simp
  | cons d ds ih =>
    rw [List.forall_mem_cons] at h
    calc (d :: ds).foldl (fun n d ↦ 10 * n + d) n
        < (10 * n + d + 1) * 10 ^ ds.length := ih h.2 _
      _ ≤ (10 * (n + 1)) * 10 ^ ds.length := Nat.mul_le_mul_right _ (by omega)
      _ = (n + 1) * 10 ^ (d :: ds).length := by rw [List.length_cons, Nat.pow_succ]; ring

/-- **An integer that is read has a numeral.** -/
theorem hasNumeral_of_integer? {t : Text} {i : Int} (h : integer? t = some i) :
    hasNumeral i = true := by
  have hmagnitude : ∀ {digits : Text} {n : Nat}, magnitude? digits = some n →
      n < 10 ^ numeralLimit := by
    intro digits n hn
    obtain ⟨ds, hds, hn⟩ := Option.bind_eq_some_iff.mp hn
    split_ifs at hn with hlength
    cases hn
    have hlt := foldl_digits_lt (forall_lt_of_digitRun? hds) 0
    rw [Nat.zero_add, Nat.one_mul] at hlt
    exact hlt.trans_le (Nat.pow_le_pow_right (by decide) hlength)
  rw [hasNumeral_iff]
  rw [integer?] at h
  split at h
  · obtain ⟨n, hn, rfl⟩ := Option.map_eq_some_iff.mp h
    obtain ⟨k, hk, hn⟩ := Option.bind_eq_some_iff.mp hn
    cases hn
    rw [Int.natAbs_neg]
    exact hmagnitude hk
  · obtain ⟨n, hn, rfl⟩ := Option.map_eq_some_iff.mp h
    exact hmagnitude hn
  · obtain ⟨n, hn, rfl⟩ := Option.map_eq_some_iff.mp h
    exact hmagnitude hn

end TermEmbedding
