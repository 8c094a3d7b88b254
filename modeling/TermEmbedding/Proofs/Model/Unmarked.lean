import TermEmbedding.Proofs.Model.Consistent

/-!
# Models without marks

The mark of where a vector came up tells vectors apart that have an entry that is no number. It is
not written when a model is put away. Without their marks vectors may count as equal that did not
before, but not the other way round, and a model without marks is as consistent as it was with them:
vectors with a part that is no number are not even equal to themselves.
-/

namespace TermEmbedding

variable {K : Type}

/-- A reference without the mark of where it came up. -/
def TermReference.unmarked : TermReference K → TermReference K
  | function p => .function p
  | vector t xs _ => .vector t xs .anywhere

def Application.unmarked (a : Application K) : Application K := ⟨a.callee, a.argument.unmarked⟩

def Model.unmarked (m : Model K) : Model K :=
  { m with
    results := m.results.map fun row ↦ (row.1.unmarked, row.2.unmarked)
    origins := m.origins.map fun row ↦ (row.1, row.2.map (·.unmarked))
    pending := m.pending.map (·.unmarked) }

namespace TermReference

@[simp] theorem typeId_unmarked (r : TermReference K) : r.unmarked.typeId = r.typeId := by
  cases r <;> rfl

@[simp] theorem unmarked_unmarked (r : TermReference K) : r.unmarked.unmarked = r.unmarked := by
  cases r <;> rfl

theorem unmarked_eq_function {r : TermReference K} {p : TermPointer} :
    r.unmarked = .function p ↔ r = .function p := by
  cases r with
  | function q => rfl
  | vector t xs o =>
    constructor
    · rintro ⟨⟩
    · rintro ⟨⟩

/-- Vectors with entries that count as equal are one key, whatever their marks. -/
theorem beq_vector_of_beq [BEq K] {t : TypeId} {xs ys : List K} (h : (xs == ys) = true)
    {o o' : Occurrence} : ((.vector t xs o : TermReference K) == .vector t ys o') = true := by
  change (decide (t = t) && (xs == ys || _)) = true
  rw [h, decide_eq_true rfl]
  rfl

theorem beq_of_beq_unmarked_right [BEq K] {r s : TermReference K}
    (h : (r == s.unmarked) = true) : (r == s) = true := by
  cases s with
  | function q => exact h
  | vector t ys o =>
    obtain ⟨xs, o', rfl, hentries⟩ := exists_of_beq_vector h
    exact beq_vector_of_beq hentries

theorem beq_of_beq_unmarked [BEq K] {r s : TermReference K}
    (h : (r.unmarked == s.unmarked) = true) : (r == s) = true := by
  have hright := beq_of_beq_unmarked_right h
  cases r with
  | function p => exact hright
  | vector t xs o =>
    cases s with
    | function q => cases h
    | vector u ys o' =>
      obtain ⟨zs, p, heq, hentries⟩ := exists_of_beq_vector h
      cases heq
      exact beq_vector_of_beq hentries

end TermReference

theorem Application.beq_of_beq_unmarked [BEq K] {a b : Application K}
    (h : (a.unmarked == b.unmarked) = true) : (a == b) = true := by
  obtain ⟨hcallee, hargument⟩ := Application.beq_iff.mp h
  exact Application.beq_iff.mpr ⟨hcallee, TermReference.beq_of_beq_unmarked hargument⟩

namespace Model

theorem unmarked_unmarked (m : Model K) : m.unmarked.unmarked = m.unmarked := by
  have happlication : ∀ a : Application K, a.unmarked.unmarked = a.unmarked := fun a ↦ by
    rw [Application.unmarked, Application.unmarked, TermReference.unmarked_unmarked]
  simp only [unmarked, List.map_map, Function.comp_def, happlication,
    TermReference.unmarked_unmarked]

variable {c : Context} {m : Model K}

/-! ## What does not depend on marks -/

@[simp] theorem meanOf?_unmarked (m : Model K) (r : TermReference K) :
    m.unmarked.meanOf? r = m.meanOf? r := by
  cases r <;> rfl

@[simp] theorem meanOf?_unmarked_right (m : Model K) (r : TermReference K) :
    m.meanOf? r.unmarked = m.meanOf? r := by
  cases r <;> rfl

private theorem originsOf_unmarked (m : Model K) (t : TypeId) :
    m.unmarked.originsOf t = (m.originsOf t).map (·.unmarked) := by
  rw [originsOf, originsOf, unmarked, Table.get?_map]
  cases m.origins.get? t <;> rfl

private theorem counts_unmarked {p : TermPointer} : m.unmarked.Counts c p ↔ m.Counts c p := by
  rw [Counts, Counts]
  cases p.index with
  | primitive i => rfl
  | nonprimitive j => rw [originsOf_unmarked, List.length_map]

theorem Denotes.unmarked {r : TermReference K} (h : m.Denotes c r) :
    m.unmarked.Denotes c r.unmarked := by
  cases r with
  | function p => exact h
  | vector t xs o => exact h

theorem IsOutcome.unmarked {r : TermReference K} (h : m.IsOutcome c r) :
    m.unmarked.IsOutcome c r.unmarked := by
  cases r with
  | function p => exact h
  | vector t xs o => exact h

theorem TypedRow.unmarked {row : Application K × TermReference K} (h : m.TypedRow c row) :
    m.unmarked.TypedRow c (row.1.unmarked, row.2.unmarked) := by
  refine ⟨h.callee, ?_, h.argument.unmarked, h.result.unmarked⟩
  rw [TermReference.typeId_unmarked]
  exact h.signature.trans (by rw [Application.unmarked, TermReference.typeId_unmarked])

/-! ## Consistency -/

section

variable [BEq K]

/-- No two results become one when the marks are dropped. -/
theorem Consistent.pairwise_unmarked (hm : Consistent c m) :
    m.unmarked.results.Pairwise fun x y ↦ (x.1 == y.1) = false := by
  rw [Model.unmarked, List.pairwise_map]
  refine hm.resultsOnce.imp fun hxy ↦ ?_
  rw [Bool.eq_false_iff] at hxy ⊢
  exact fun h ↦ hxy (Application.beq_of_beq_unmarked h)

theorem Consistent.nodup_unmarked (hm : Consistent c m) :
    (m.unmarked.origins.map (·.1)).Nodup := by
  rw [Model.unmarked, List.map_map]
  exact hm.originsOnce

/-- **A consistent model is consistent without its marks.** -/
theorem Consistent.unmarked (hm : Consistent c m) : Consistent c m.unmarked := by
  refine ⟨fun p ↦ (hm.terms p).trans counts_unmarked.symm, hm.termsOnce, hm.beliefs,
    hm.elaborators, hm.elaboratorsOnly, hm.elaboratorsOnce, ?_, hm.pairwise_unmarked, ?_,
    hm.nodup_unmarked, ?_⟩
  · intro row hrow
    obtain ⟨row', hrow', rfl⟩ := List.mem_map.mp hrow
    exact (hm.results row' hrow').unmarked
  · -- terms have no marks, so each row that names one comes from exactly that row
    intro t j a
    rw [originsOf_unmarked, List.getElem?_map, Option.map_eq_some_iff]
    constructor
    · rintro ⟨b, hb, rfl⟩
      exact List.mem_map.mpr ⟨_, (hm.origins t j b).mp hb, rfl⟩
    · intro h
      obtain ⟨row, hrow, heq⟩ := List.mem_map.mp h
      obtain ⟨b, r⟩ := row
      obtain ⟨rfl, hr⟩ := Prod.mk.inj heq
      rw [TermReference.unmarked_eq_function] at hr
      subst hr
      exact ⟨b, (hm.origins t j b).mpr hrow, rfl⟩
  · obtain ⟨before, hbefore⟩ := hm.pending
    refine ⟨before.map (·.unmarked), ?_⟩
    change _ ++ m.pending.map (·.unmarked) = _
    rw [← List.map_append, hbefore, Model.unmarked, List.map_map, List.map_map]
    rfl

end

end Model

end TermEmbedding
