import Mathlib.Data.List.TakeWhile
import Mathlib.Tactic.IntervalCases
import Mathlib.Tactic.Ring
import TermEmbedding.Decimal.Layout
import TermEmbedding.Decimal.Literal

/-!
# Laying out digits and reading them back

Whatever the layout, the digits that are written are read with the same value and with the first one
at the same place. Zeros are added behind the digits in one of the layouts and in front of them in
another; the reader drops those in front, and those behind move the exponent.
-/

namespace TermEmbedding

namespace Decimal

/-! ## Runs of digits -/

theorem isDigit_of_mem_numeral {n : Nat} {c : Char} (h : c ∈ numeral n) : c.isDigit = true :=
  Nat.isDigit_of_mem_toDigits (by decide) (by decide) h

theorem isDigit_of_mem_replicate {k : Nat} {c : Char} (hc : c ∈ List.replicate k '0') :
    c.isDigit = true := by
  rw [List.eq_of_mem_replicate hc]
  rfl

theorem ofNumeral_append (s t : Text) :
    ofNumeral (s ++ t) = 10 ^ t.length * ofNumeral s + ofNumeral t := by
  rw [ofNumeral, Nat.ofDigitChars_append, Nat.ofDigitChars_eq_ofDigitChars_zero]
  rfl

theorem ofNumeral_replicate_zero (n : Nat) : ofNumeral (List.replicate n '0') = 0 := by
  rw [ofNumeral, Nat.ofDigitChars_replicate_zero, Nat.mul_zero]

theorem ofNumeral_append_zeros (s : Text) (n : Nat) :
    ofNumeral (s ++ List.replicate n '0') = ofNumeral s * 10 ^ n := by
  rw [ofNumeral_append, ofNumeral_replicate_zero, List.length_replicate, Nat.add_zero,
    Nat.mul_comm]

private theorem head?_numeral {n : Nat} (h : 0 < n) : (numeral n).head? ≠ some '0' := by
  rw [numeral]
  induction n using Nat.strongRecOn with
  | ind n ih =>
    by_cases hn : n < 10
    · rw [Nat.toDigits_of_lt_base hn]
      interval_cases n <;> decide
    · obtain ⟨c, s, hcons⟩ :=
        List.exists_cons_of_ne_nil (Nat.toDigits_ne_nil (n := n / 10) (b := 10))
      have hhead := ih (n / 10) (by omega) (by omega)
      rw [Nat.toDigits_of_base_le (by decide) (by omega)]
      rw [hcons] at hhead ⊢
      exact hhead

/-- Digits of which the first is not zero. -/
structure Leading (t : Text) : Prop where
  digits : ∀ c ∈ t, c.isDigit = true
  ne_nil : t ≠ []
  head : t.head? ≠ some '0'

theorem leading_numeral {n : Nat} (h : 0 < n) : Leading (numeral n) :=
  ⟨fun _ ↦ isDigit_of_mem_numeral, Nat.toDigits_ne_nil, head?_numeral h⟩

variable {digits : Text}

/-- Digits without the zeros at their end, and the number of these. -/
theorem Leading.exists_zeros (h : Leading digits) :
    ∃ k, digits = (digits.reverse.dropWhile (· = '0')).reverse ++ List.replicate k '0' ∧
      Leading (digits.reverse.dropWhile (· = '0')).reverse := by
  have hzeros : digits.reverse.takeWhile (· = '0') =
      List.replicate (digits.reverse.takeWhile (· = '0')).length '0' :=
    List.eq_replicate_of_mem fun c hc ↦ by simpa using List.mem_takeWhile_imp hc
  have hsplit : digits = (digits.reverse.dropWhile (· = '0')).reverse ++
      List.replicate (digits.reverse.takeWhile (· = '0')).length '0' := by
    conv_lhs => rw [← List.reverse_reverse digits,
      ← List.takeWhile_append_dropWhile (p := (· = '0')) (l := digits.reverse), hzeros,
      List.reverse_append, List.reverse_replicate]
  refine ⟨_, hsplit, ?_⟩
  generalize (digits.reverse.dropWhile (· = '0')).reverse = short at hsplit ⊢
  generalize (digits.reverse.takeWhile (· = '0')).length = k at hsplit
  obtain ⟨hdigits, hne, hhead⟩ := h
  rw [hsplit] at hdigits hne hhead
  cases short with
  | nil =>
    cases k with
    | zero => exact absurd rfl hne
    | succ k => exact absurd rfl hhead
  | cons c rest =>
    exact ⟨fun d hd ↦ hdigits d (List.mem_append_left _ hd), List.cons_ne_nil _ _, hhead⟩

private theorem Leading.exists_cons (h : Leading digits) :
    ∃ c rest, digits = c :: rest ∧ c.isDigit = true ∧ c ≠ '0' := by
  obtain ⟨hdigits, hne, hhead⟩ := h
  obtain ⟨c, rest, rfl⟩ := List.exists_cons_of_ne_nil hne
  exact ⟨c, rest, rfl, hdigits c List.mem_cons_self, fun hc ↦ hhead (by rw [hc]; rfl)⟩

theorem Leading.dropWhile (h : Leading digits) (k : Nat) (rest : Text) :
    (List.replicate k '0' ++ (digits ++ rest)).dropWhile (· = '0') = digits ++ rest := by
  obtain ⟨c, s, rfl, -, hc⟩ := h.exists_cons
  rw [List.dropWhile_append_of_pos (by simp), List.cons_append,
    List.dropWhile_cons_of_neg (by simpa using hc)]

theorem Leading.le_ofNumeral (h : Leading digits) :
    10 ^ (digits.length - 1) ≤ ofNumeral digits := by
  obtain ⟨c, s, rfl, hdigit, hc⟩ := h.exists_cons
  have hbounds := Char.isDigit_iff_toNat.mp hdigit
  have hvalue : 1 ≤ c.toNat - '0'.toNat := by
    have : c.toNat ≠ '0'.toNat := fun hn ↦ hc (Char.toNat_inj.mp hn)
    omega
  rw [ofNumeral, Nat.ofDigitChars_cons, Nat.ofDigitChars_eq_ofDigitChars_zero]
  calc 10 ^ ((c :: s).length - 1) = 10 ^ s.length * 1 := (Nat.mul_one _).symm
    _ ≤ 10 ^ s.length * (10 * 0 + (c.toNat - '0'.toNat)) := Nat.mul_le_mul_left _ (by omega)
    _ ≤ _ := Nat.le_add_right _ _

/-! ## Reading what was laid out -/

theorem exponent?_exponentText (e : Int) :
    exponent? ((if e < 0 then '-' else '+') :: (numeral e.natAbs).leftpad 2 '0') = some e := by
  have hdigits : ∀ c ∈ (numeral e.natAbs).leftpad 2 '0', c.isDigit = true := by
    intro c hc
    exact (List.mem_append.mp hc).elim isDigit_of_mem_replicate isDigit_of_mem_numeral
  have hne : (numeral e.natAbs).leftpad 2 '0' ≠ [] :=
    List.append_ne_nil_of_right_ne_nil _ Nat.toDigits_ne_nil
  have hvalue : ofNumeral ((numeral e.natAbs).leftpad 2 '0') = e.natAbs := by
    rw [List.leftpad, ofNumeral_append, ofNumeral_replicate_zero, ofNumeral_numeral]
    omega
  have hall : (((numeral e.natAbs).leftpad 2 '0') ≠ [] ∧
      ((numeral e.natAbs).leftpad 2 '0').all Char.isDigit = true) :=
    ⟨hne, List.all_eq_true.mpr hdigits⟩
  by_cases he : e < 0
  · rw [if_pos he]
    simp only [exponent?]
    rw [if_pos hall, hvalue]
    change some (-(e.natAbs : Int)) = some e
    congr 1
    omega
  · rw [if_neg he]
    simp only [exponent?]
    rw [if_pos hall, hvalue]
    change some (e.natAbs : Int) = some e
    congr 1
    omega

section

variable {whole fraction : Text}

theorem takeWhile_digits (h : ∀ c ∈ whole, c.isDigit = true) {c : Char} (hc : c.isDigit = false)
    (rest : Text) : (whole ++ c :: rest).takeWhile Char.isDigit = whole := by
  rw [List.takeWhile_append_of_pos h, List.takeWhile_cons_of_neg (by simp [hc]), List.append_nil]

theorem dropWhile_digits (h : ∀ c ∈ whole, c.isDigit = true) {c : Char} (hc : c.isDigit = false)
    (rest : Text) : (whole ++ c :: rest).dropWhile Char.isDigit = c :: rest := by
  rw [List.dropWhile_append_of_pos h, List.dropWhile_cons_of_neg (by simp [hc])]

private theorem magnitude?_positional (whole fraction : Text) (hw : ∀ c ∈ whole, c.isDigit = true)
    (hf : ∀ c ∈ fraction, c.isDigit = true) (hne : whole ≠ []) :
    magnitude? (whole ++ '.' :: fraction) = some (assemble whole fraction 0) := by
  have htake : fraction.takeWhile Char.isDigit = fraction := List.takeWhile_eq_self_iff.mpr hf
  have hdrop : fraction.dropWhile Char.isDigit = [] := List.dropWhile_eq_nil_iff.mpr hf
  rw [magnitude?, takeWhile_digits hw (by decide), dropWhile_digits hw (by decide)]
  simp [htake, hdrop, hne]

private theorem magnitude?_pointed (whole fraction : Text) (hw : ∀ c ∈ whole, c.isDigit = true)
    (hf : ∀ c ∈ fraction, c.isDigit = true) (hne : whole ≠ []) (e : Int) :
    magnitude? (whole ++ '.' :: (fraction ++ exponentText e)) =
      some (assemble whole fraction e) := by
  rw [magnitude?, takeWhile_digits hw (by decide), dropWhile_digits hw (by decide), exponentText]
  simp only [takeWhile_digits hf (by decide : 'e'.isDigit = false),
    dropWhile_digits hf (by decide : 'e'.isDigit = false)]
  rw [if_neg (by simp [hne]), if_pos (by simp), exponent?_exponentText, Option.map_some]

private theorem magnitude?_exponential (whole : Text) (hw : ∀ c ∈ whole, c.isDigit = true)
    (hne : whole ≠ []) (e : Int) :
    magnitude? (whole ++ exponentText e) = some (assemble whole [] e) := by
  rw [exponentText, magnitude?, takeWhile_digits hw (by decide), dropWhile_digits hw (by decide)]
  change (if whole ++ [] = [] then none
    else if 'e' = 'e' ∨ 'e' = 'E' then (exponent? _).map (assemble whole []) else none) = _
  rw [List.append_nil, if_neg hne, if_pos (.inl rfl), exponent?_exponentText, Option.map_some]

end

variable {point : Int} {first next : Char} {rest : Text}

/-- The number that is read of digits with `k` zeros behind them, given the place of the point. -/
def placed (digits : Text) (point : Int) (k : Nat) : Float :=
  scaled (ofNumeral digits * 10 ^ k) (digits.length + k) (point - (digits.length + k : Nat))

/-- Of digits among zeros the reader keeps the digits and the zeros behind them. -/
private theorem Leading.assemble_eq (h : Leading digits) {whole fraction : Text} {i k : Nat}
    {e : Int} (hall : whole ++ fraction = List.replicate i '0' ++ (digits ++ List.replicate k '0'))
    (he : e - fraction.length = point - (digits.length + k : Nat)) :
    assemble whole fraction e = placed digits point k := by
  rw [assemble, hall, h.dropWhile, ofNumeral_append_zeros, List.length_append,
    List.length_replicate, he, placed]

/-! One lemma for each place of the point. -/

private theorem Leading.magnitude?_behind (h : Leading digits) (hpoint : point ≤ 0) :
    magnitude? ('0' :: '.' :: (List.replicate (-point).toNat '0' ++ digits)) =
      some (placed digits point 0) := by
  have hall : ['0'] ++ (List.replicate (-point).toNat '0' ++ digits) =
      List.replicate ((-point).toNat + 1) '0' ++ (digits ++ List.replicate 0 '0') := by
    simp [List.replicate_succ]
  refine (magnitude?_positional ['0'] _ (by simp) (fun c hc ↦ ?_) (by simp)).trans ?_
  · exact (List.mem_append.mp hc).elim isDigit_of_mem_replicate (h.digits c)
  · rw [h.assemble_eq hall]
    rw [List.length_append, List.length_replicate]
    omega

private theorem Leading.magnitude?_before (h : Leading digits) {j : Nat}
    (hj : point = (digits.length + j : Nat)) :
    magnitude? (digits ++ List.replicate j '0' ++ ['.', '0']) =
      some (placed digits point (j + 1)) := by
  have hall : digits ++ List.replicate j '0' ++ ['0'] =
      List.replicate 0 '0' ++ (digits ++ List.replicate (j + 1) '0') := by
    simp [List.replicate_succ']
  refine (magnitude?_positional _ ['0'] (fun c hc ↦ ?_) (by simp)
    (List.append_ne_nil_of_left_ne_nil h.ne_nil _)).trans ?_
  · exact (List.mem_append.mp hc).elim (h.digits c) isDigit_of_mem_replicate
  · rw [h.assemble_eq hall]
    rw [List.length_singleton]
    omega

private theorem Leading.magnitude?_between (h : Leading digits) {i : Nat} (hi : 0 < i)
    (hlt : i < digits.length) :
    magnitude? (digits.take i ++ '.' :: digits.drop i) = some (placed digits i 0) := by
  have hall : digits.take i ++ digits.drop i =
      List.replicate 0 '0' ++ (digits ++ List.replicate 0 '0') := by simp
  have hne : digits.take i ≠ [] := by
    rw [ne_eq, List.take_eq_nil_iff, not_or]
    exact ⟨hi.ne', h.ne_nil⟩
  rw [magnitude?_positional _ _ (fun c hc ↦ h.digits c (List.mem_of_mem_take hc))
    (fun c hc ↦ h.digits c (List.mem_of_mem_drop hc)) hne, h.assemble_eq hall]
  rw [List.length_drop]
  omega

private theorem Leading.magnitude?_first (h : Leading [first]) :
    magnitude? ([first] ++ exponentText (point - 1)) = some (placed [first] point 0) := by
  have hall : [first] ++ [] = List.replicate 0 '0' ++ ([first] ++ List.replicate 0 '0') := rfl
  rw [magnitude?_exponential [first] h.digits h.ne_nil, h.assemble_eq hall]
  simp

private theorem Leading.magnitude?_others (h : Leading (first :: next :: rest)) :
    magnitude? (first :: '.' :: next :: rest ++ exponentText (point - 1)) =
      some (placed (first :: next :: rest) point 0) := by
  have hall : [first] ++ next :: rest =
      List.replicate 0 '0' ++ (first :: next :: rest ++ List.replicate 0 '0') := by simp
  refine (magnitude?_pointed [first] (next :: rest) (fun c hc ↦ ?_)
    (fun c hc ↦ h.digits c (List.mem_cons_of_mem _ hc)) (by simp) (point - 1)).trans ?_
  · exact h.digits c (List.mem_cons.mpr (.inl (List.mem_singleton.mp hc)))
  · rw [h.assemble_eq hall]
    simp only [List.length_cons]
    omega

/-- **Digits that are laid out are read with their value and place.** They may come back with zeros
behind them, which is why a number is given here by its digits and the place of the point. -/
theorem magnitude?_layout (h : Leading digits) (point : Int) :
    ∃ k, magnitude? (layout digits point) = some (placed digits point k) := by
  unfold layout
  split
  · split
    · exact ⟨0, h.magnitude?_behind ‹_›⟩
    · split
      · exact ⟨point.toNat - digits.length + 1, h.magnitude?_before (by omega)⟩
      · obtain ⟨i, rfl⟩ : ∃ i : Nat, point = i := ⟨point.toNat, by omega⟩
        rw [Int.toNat_natCast] at *
        exact ⟨0, h.magnitude?_between (by omega) (by omega)⟩
  · rcases digits with _ | ⟨first, _ | ⟨next, rest⟩⟩
    · exact absurd rfl h.ne_nil
    · exact ⟨0, h.magnitude?_first⟩
    · exact ⟨0, h.magnitude?_others⟩

end Decimal

end TermEmbedding
