import Mathlib.Data.List.Basic
import Mathlib.Tactic.SplitIfs
import TermEmbedding.Proofs.Text.Encoding

/-!
# Surrogate pairs

A character beyond the basic plane has two 16-bit units, the halves of a pair. A half is a code
point as well, so two halves that stand side by side have the units of one character. Whatever goes
through 16-bit units comes back with such halves put together, and is otherwise what it was.

So two strings come back alike if they have the same units, and a string of characters comes back as
it is.
-/

namespace TermEmbedding

theorem Text.codePoints_append (s t : Text) : codePoints (s ++ t) = codePoints s ++ codePoints t :=
  List.map_append

theorem Text.codePoints_injective : Function.Injective codePoints :=
  List.map_injective_iff.mpr fun _ _ h ↦ CodePoint.char.inj h

namespace CodePoint

/-! ## Units -/

private theorem toNat_lt (c : Char) : c.toNat < 0x110000 := by
  rcases (c.valid : c.toNat.isValidChar) with hsmall | ⟨-, hlarge⟩
  · exact Nat.lt_trans hsmall (by decide)
  · exact hlarge

theorem not_isHalf (c : Char) : ¬(0xD800 ≤ c.toNat ∧ c.toNat < 0xE000) := by
  rcases (c.valid : c.toNat.isValidChar) with hsmall | ⟨hlarge, -⟩
  · exact fun h ↦ absurd hsmall (Nat.not_lt.mpr h.1)
  · exact fun h ↦ absurd hlarge (Nat.not_lt.mpr (Nat.le_of_lt_succ h.2))

private theorem value_lt (p : CodePoint) : p.value < 0x110000 := by
  cases p with
  | char c => exact toNat_lt c
  | surrogate k =>
    have hk := k.isLt
    rw [value]
    omega

theorem ofNat?_value (p : CodePoint) : ofNat? p.value = some p := by
  cases p with
  | char c => exact ofNat?_toNat c
  | surrogate k =>
    have hk := k.isLt
    have hvalid : ¬(0xD800 + k.val).isValidChar := by
      rintro (h | ⟨h, -⟩)
      · omega
      · omega
    rw [value, ofNat?, dif_neg hvalid, dif_pos ⟨by omega, by omega⟩]
    simp

private theorem exists_ofNat?_eq_some {n : Nat} (h : n < 0x110000) :
    ∃ p, ofNat? n = some p ∧ p.value = n := by
  rw [ofNat?]
  by_cases hvalid : n.isValidChar
  · rw [dif_pos hvalid]
    exact ⟨_, rfl, rfl⟩
  · have hhalf : 0xD800 ≤ n ∧ n < 0xE000 := by
      rw [Nat.isValidChar] at hvalid
      omega
    rw [dif_neg hvalid, dif_pos hhalf]
    refine ⟨_, rfl, ?_⟩
    rw [value]
    exact Nat.add_sub_cancel' hhalf.1

/-- The units of a code point: its number, or the two halves of the pair that stands for it. -/
theorem units_cases (p : CodePoint) :
    (p.value < 0x10000 ∧ p.units = [p.value]) ∨
      ∃ high low, high < 0x10000 ∧ low < 0x10000 ∧ p.units = [high, low] ∧
        ofPair? high low = some p := by
  have hlt := value_lt p
  rw [units]
  by_cases hsmall : p.value < 0x10000
  · exact .inl ⟨hsmall, if_pos hsmall⟩
  · refine .inr ⟨_, _, ?_, ?_, if_neg hsmall, ?_⟩
    · omega
    · omega
    · have hvalue : 0x10000 + (0xD800 + (p.value - 0x10000) / 0x400 - 0xD800) * 0x400 +
          (0xDC00 + (p.value - 0x10000) % 0x400 - 0xDC00) = p.value := by
        omega
      rw [ofPair?, if_pos (by omega), hvalue, ofNat?_value]

theorem lt_of_mem_units {p : CodePoint} {n : Nat} (h : n ∈ p.units) : n < 0x10000 := by
  rcases units_cases p with ⟨hlt, hunits⟩ | ⟨high, low, hhigh, hlow, hunits, -⟩
  · rw [hunits] at h
    rwa [List.mem_singleton.mp h]
  · rw [hunits] at h
    rcases List.mem_pair.mp h with rfl | rfl
    · exact hhigh
    · exact hlow

theorem units_ne_nil (p : CodePoint) : p.units ≠ [] := by
  rw [units]
  split_ifs
  · exact List.cons_ne_nil _ _
  · exact List.cons_ne_nil _ _

theorem units_surrogate (k : Fin 0x800) : units (.surrogate k) = [0xD800 + k.val] := by
  have hk := k.isLt
  rw [units, value, if_pos (by omega)]

/-! ## Pairs -/

section

variable {high low : Nat}

private theorem ofPair?_of_not_high (h : ¬(0xD800 ≤ high ∧ high < 0xDC00)) :
    ofPair? high low = none := by
  rw [ofPair?, if_neg]
  exact fun hboth ↦ h ⟨hboth.1, hboth.2.1⟩

theorem ofPair?_head_units {c : Char} (h : low ∈ (units (.char c)).head?) :
    ofPair? high low = none := by
  have hlow : ¬(0xDC00 ≤ low ∧ low < 0xE000) := by
    have hlt := toNat_lt c
    have hhalf := not_isHalf c
    rw [units, value] at h
    split_ifs at h with hsmall
    · obtain rfl : c.toNat = low := by simpa using h
      omega
    · obtain rfl : 0xD800 + (c.toNat - 0x10000) / 0x400 = low := by simpa using h
      omega
  rw [ofPair?, if_neg]
  exact fun hboth ↦ hlow hboth.2.2

private theorem units_of_ofPair? {p : CodePoint} (h : ofPair? high low = some p) :
    p.units = [high, low] := by
  rw [ofPair?] at h
  split_ifs at h with hboth
  obtain ⟨q, hq, hvalue⟩ := exists_ofNat?_eq_some
    (n := 0x10000 + (high - 0xD800) * 0x400 + (low - 0xDC00)) (by omega)
  rw [hq] at h
  cases h
  have hhigh : 0xD800 + (p.value - 0x10000) / 0x400 = high := by omega
  have hlow : 0xDC00 + (p.value - 0x10000) % 0x400 = low := by omega
  rw [units, if_neg (by omega), hhigh, hlow]

end

/-! ## What comes back from units -/

/-- Code points where two halves of a pair that stand side by side are one character. -/
def paired (s : List CodePoint) : List CodePoint := Encoding.ofUnits16 (s.flatMap units)

private theorem ofUnits16_cons {n : Nat} {us : List Nat} {p : CodePoint} (hp : ofNat? n = some p)
    (h : ∀ low ∈ us.head?, ofPair? n low = none) :
    Encoding.ofUnits16 (n :: us) = p :: Encoding.ofUnits16 us := by
  cases us with
  | nil =>
    change (ofNat? n).toList = [p]
    rw [hp]
    rfl
  | cons low us =>
    rw [Encoding.ofUnits16, h low rfl, hp]
    rfl

private theorem ofUnits16_pair {high low : Nat} {us : List Nat} {p : CodePoint}
    (h : ofPair? high low = some p) :
    Encoding.ofUnits16 (high :: low :: us) = p :: Encoding.ofUnits16 us := by
  rw [Encoding.ofUnits16, h]

theorem paired_char (c : Char) (s : List CodePoint) :
    paired (.char c :: s) = .char c :: paired s := by
  have hhalf := not_isHalf c
  rcases units_cases (.char c) with ⟨-, hunits⟩ | ⟨high, low, -, -, hunits, hpair⟩
  · rw [paired, List.flatMap_cons, hunits, List.singleton_append]
    exact ofUnits16_cons (ofNat?_toNat c) fun low _ ↦
      ofPair?_of_not_high (fun h ↦ hhalf ⟨h.1, Nat.lt_trans h.2 (by decide)⟩)
  · rw [paired, List.flatMap_cons, hunits]
    exact ofUnits16_pair hpair

/-- A surrogate stays by itself if it does not begin a pair. -/
theorem paired_surrogate {k : Fin 0x800} {s : List CodePoint}
    (h : ∀ l s', s = .surrogate l :: s' → ofPair? (0xD800 + k) (0xD800 + l) = none) :
    paired (.surrogate k :: s) = .surrogate k :: paired s := by
  rw [paired, List.flatMap_cons, units_surrogate, List.singleton_append]
  refine ofUnits16_cons (ofNat?_value (.surrogate k)) fun low hlow ↦ ?_
  rcases s with _ | ⟨c | l, s⟩
  · cases hlow
  · rw [List.flatMap_cons, List.head?_append_of_ne_nil _ (units_ne_nil _)] at hlow
    exact ofPair?_head_units hlow
  · rw [List.flatMap_cons, units_surrogate] at hlow
    cases hlow
    exact h l s rfl

theorem paired_pair {k l : Fin 0x800} {s : List CodePoint} {p : CodePoint}
    (h : ofPair? (0xD800 + k) (0xD800 + l) = some p) :
    paired (.surrogate k :: .surrogate l :: s) = p :: paired s := by
  rw [paired, List.flatMap_cons, List.flatMap_cons, units_surrogate, units_surrogate]
  exact ofUnits16_pair h

@[simp] theorem paired_codePoints (t : Text) : paired t.codePoints = t.codePoints := by
  induction t with
  | nil => rfl
  | cons c t ih => exact (paired_char c (Text.codePoints t)).trans (congrArg _ ih)

/-- What comes back has the units that it came from. -/
theorem units_ofUnits16 {us : List Nat} (h : ∀ n ∈ us, n < 0x10000) :
    (Encoding.ofUnits16 us).flatMap units = us := by
  have hsingle : ∀ n < 0x10000, (ofNat? n).toList.flatMap units = [n] := by
    intro n hn
    obtain ⟨p, hp, hvalue⟩ := exists_ofNat?_eq_some (Nat.lt_trans hn (by decide))
    rw [hp, Option.toList_some, List.flatMap_singleton, units, hvalue, if_pos hn]
  induction us using Encoding.ofUnits16.induct with
  | case1 => rfl
  | case2 n => exact hsingle n (h n List.mem_cons_self)
  | case3 high low rest p hpair ih =>
    rw [List.forall_mem_cons, List.forall_mem_cons] at h
    rw [ofUnits16_pair hpair, List.flatMap_cons, units_of_ofPair? hpair, ih h.2.2]
    rfl
  | case4 high low rest hpair ih =>
    rw [List.forall_mem_cons] at h
    rw [Encoding.ofUnits16, hpair, List.flatMap_append, hsingle high h.1, ih h.2]
    rfl

/-- **Two strings come back alike if they have the same units.** -/
theorem paired_eq_iff {s s' : List CodePoint} :
    paired s = paired s' ↔ s.flatMap units = s'.flatMap units := by
  have hunits : ∀ s : List CodePoint, (paired s).flatMap units = s.flatMap units := fun s ↦ by
    refine units_ofUnits16 fun n hn ↦ ?_
    obtain ⟨p, -, hp⟩ := List.mem_flatMap.mp hn
    exact lt_of_mem_units hp
  constructor
  · intro h
    rw [← hunits s, h, hunits s']
  · intro h
    rw [paired, h, paired]

end CodePoint

end TermEmbedding
