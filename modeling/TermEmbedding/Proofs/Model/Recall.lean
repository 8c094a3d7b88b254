import TermEmbedding.Proofs.Model.Means

/-!
# Evaluation by looking up

An expression whose applications all have results is evaluated by looking them up, and then the
model stays as it is. This is how an expression is evaluated for the second time: the first
evaluation has left a row for each of its applications, and rows are never taken away.

A row is found again if its application counts as equal to itself, and only what is no number does
not. A model that was at rest has lost its marks, but it finds the same rows, since nothing that
counts as equal to itself carries a mark.
-/

namespace TermEmbedding

variable {K : Type}

/-! ## What a model recalls -/

def TermReference.pointer? : TermReference K → Option TermPointer
  | .function p => some p
  | .vector _ _ _ => none

section

variable [BEq K]

mutual

/-- The term that something applied stands for, if all its applications have results. -/
def Callee.recall? (m : Model K) : Callee K → Option TermPointer
  | .term p => some p
  | .application f x => do
    let p ← f.recall? m
    let argument ← x.recall? m
    let result ← m.results.get? ⟨p, argument⟩
    result.pointer?

/-- What an expression stands for, if all its applications have results. -/
def Expression.recall? (m : Model K) : Expression K → Option (TermReference K)
  | .reference r => some r
  | .application f x => do
    let p ← f.recall? m
    let argument ← x.recall? m
    m.results.get? ⟨p, argument⟩

end

theorem Callee.recall?_application (m : Model K) (f : Callee K) (x : Expression K) :
    (Callee.application f x).recall? m =
      (Expression.application f x).recall? m >>= TermReference.pointer? := by
  rw [Callee.recall?, Expression.recall?]
  cases f.recall? m with
  | none => rfl
  | some p => cases x.recall? m <;> rfl

theorem Expression.recall?_application_eq_some {m : Model K} {f : Callee K} {x : Expression K}
    {r : TermReference K} : (Expression.application f x).recall? m = some r ↔
      ∃ p a, f.recall? m = some p ∧ x.recall? m = some a ∧ m.results.get? ⟨p, a⟩ = some r := by
  simp only [Expression.recall?, bind, Option.bind_eq_some_iff]
  constructor
  · rintro ⟨p, hp, a, ha, hr⟩
    exact ⟨p, a, hp, ha, hr⟩
  · rintro ⟨p, a, hp, ha, hr⟩
    exact ⟨p, hp, a, ha, hr⟩

theorem Callee.recall?_application_eq_some {m : Model K} {f : Callee K} {x : Expression K}
    {p : TermPointer} : (Callee.application f x).recall? m = some p ↔
      (Expression.application f x).recall? m = some (.function p) := by
  rw [Callee.recall?_application]
  cases hr : (Expression.application f x).recall? m with
  | none => exact iff_of_false (by rintro ⟨⟩) (by rintro ⟨⟩)
  | some r =>
    cases r with
    | function q =>
      constructor
      · rintro ⟨⟩
        rfl
      · rintro ⟨⟩
        rfl
    | vector t xs o => exact iff_of_false (by rintro ⟨⟩) (by rintro ⟨⟩)

/-- A model with at least as many results. -/
def Model.Retains (m m' : Model K) : Prop :=
  ∀ {a : Application K} {r : TermReference K}, m.results.get? a = some r →
    m'.results.get? a = some r

theorem Model.retains_of_isPrefix {m m' : Model K} (h : m.results <+: m'.results) :
    m.Retains m' := fun hget ↦ Table.get?_of_isPrefix h hget

mutual

theorem Callee.recall?_mono {m m' : Model K} (h : m.Retains m') : (f : Callee K) →
    ∀ {p : TermPointer}, f.recall? m = some p → f.recall? m' = some p
  | .term _, _, hp => hp
  | .application f x, p, hp => by
    rw [Callee.recall?_application_eq_some, Expression.recall?_application_eq_some] at hp ⊢
    obtain ⟨q, a, hq, ha, hr⟩ := hp
    exact ⟨q, a, Callee.recall?_mono h f hq, Expression.recall?_mono h x ha, h hr⟩

theorem Expression.recall?_mono {m m' : Model K} (h : m.Retains m') : (e : Expression K) →
    ∀ {r : TermReference K}, e.recall? m = some r → e.recall? m' = some r
  | .reference _, _, hr => hr
  | .application f x, r, hr => by
    rw [Expression.recall?_application_eq_some] at hr ⊢
    obtain ⟨q, a, hq, ha, hr⟩ := hr
    exact ⟨q, a, Callee.recall?_mono h f hq, Expression.recall?_mono h x ha, h hr⟩

end

end

/-- Whether the applications that have results count as equal to themselves. -/
def Model.Recognizes [BEq K] (m : Model K) : Prop := ∀ row ∈ m.results, (row.1 == row.1) = true

/-! ## Evaluation of what is recalled -/

section

open Operation

variable [Zero K] [One K] [Add K] [Mul K] [Numbers K] {c : Context} {m m' : Model K}

theorem Model.run_evaluate_of_get? {p : TermPointer} {a r : TermReference K}
    (h : m.results.get? ⟨p, a⟩ = some r) : (evaluate c p a).run m = (.ok r, m) := by
  rw [evaluate, run_bind_ok (run_get m), h]
  rfl

mutual

theorem Callee.run_of_recall? : (f : Callee K) → ∀ {p : TermPointer}, f.recall? m = some p →
    (f.evaluate c).run m = (.ok p, m)
  | .term _, _, hp => by
    cases hp
    rfl
  | .application f x, p, hp => by
    rw [Callee.recall?_application_eq_some, Expression.recall?_application_eq_some] at hp
    obtain ⟨q, a, hq, ha, hr⟩ := hp
    rw [Callee.evaluate, run_bind_ok (Callee.run_of_recall? f hq),
      run_bind_ok (Expression.run_of_recall? x ha), run_bind_ok (Model.run_evaluate_of_get? hr)]
    rfl

/-- **What is recalled is evaluated without touching the model.** -/
theorem Expression.run_of_recall? : (e : Expression K) → ∀ {r : TermReference K},
    e.recall? m = some r → (e.evaluate c).run m = (.ok r, m)
  | .reference _, _, hr => by
    cases hr
    rfl
  | .application f x, r, hr => by
    rw [Expression.recall?_application_eq_some] at hr
    obtain ⟨q, a, hq, ha, hr⟩ := hr
    rw [Expression.evaluate, run_bind_ok (Callee.run_of_recall? f hq),
      run_bind_ok (Expression.run_of_recall? x ha)]
    exact Model.run_evaluate_of_get? hr

end

/-! ## What an evaluation leaves to be recalled -/

theorem Model.Step.get?_results {a : Application K} {r : TermReference K}
    (h : Model.Step c m a (.ok r, m')) (hself : m'.Recognizes) :
    m'.results.get? a = some r := by
  cases h with
  | known hget => exact hget
  | vector hnone =>
    have ha := hself _ (List.mem_append_right _ (List.mem_singleton_self _))
    rw [Model.record, Table.get?_append, hnone, Option.none_or, Table.get?, if_pos ha]
  | function hnone =>
    have ha := hself _ (List.mem_append_right _ (List.mem_singleton_self _))
    rw [Model.record, Table.get?_append]
    exact (congrArg (Option.or · _) hnone).trans (if_pos ha)

private theorem Expression.extends_of_run (hm : m.Consistent c) {e : Expression K}
    {r : TermReference K} (h : (e.evaluate c).run m = (.ok r, m')) : m.Extends m' := by
  have hgrows := (e.within_evaluate (c := c) m hm).2
  rw [h] at hgrows
  exact hgrows

private theorem Expression.recall?_of_parts {f : Callee K} {x : Expression K} (hm : m.Consistent c)
    {r : TermReference K} (h : ((Expression.application f x).evaluate c).run m = (.ok r, m'))
    (hself : m'.Recognizes)
    (hf : ∀ {m₁ p}, (f.evaluate c).run m = (.ok p, m₁) → m₁.Recognizes → f.recall? m₁ = some p)
    (hx : ∀ {m₁ m₂ a}, m₁.Consistent c → (x.evaluate c).run m₁ = (.ok a, m₂) → m₂.Recognizes →
      x.recall? m₂ = some a) : (Expression.application f x).recall? m' = some r := by
  obtain ⟨p, m₁, a, m₂, hp, ha, hr⟩ := Expression.exists_of_run_application h
  have hm₁ := Callee.consistent_of_run hm hp
  have hm₂ := Expression.consistent_of_run hm₁ ha
  have hstep := Model.step_evaluate hm₂ ⟨p, a⟩
  rw [hr] at hstep
  have hadds₂ := (Expression.extends_of_run hm₁ ha).results
  have hadds' := hstep.extends.results
  have hself₂ : m₂.Recognizes := fun row hrow ↦ hself row (hadds'.subset hrow)
  have hself₁ : m₁.Recognizes := fun row hrow ↦ hself₂ row (hadds₂.subset hrow)
  rw [Expression.recall?_application_eq_some]
  refine ⟨p, a, ?_, ?_, hstep.get?_results hself⟩
  · exact f.recall?_mono (Model.retains_of_isPrefix (hadds₂.trans hadds')) (hf hp hself₁)
  · exact x.recall?_mono (Model.retains_of_isPrefix hadds') (hx hm₁ ha hself₂)

mutual

theorem Callee.recall?_of_run : (f : Callee K) → ∀ {m m' : Model K} {p : TermPointer},
    m.Consistent c → (f.evaluate c).run m = (.ok p, m') → m'.Recognizes → f.recall? m' = some p
  | .term _, _, _, _, _, h, _ => by
    cases h
    rfl
  | .application f x, m, m', p, hm, h, hself => by
    rw [Callee.recall?_application_eq_some]
    exact Expression.recall?_of_parts hm (Callee.run_application_of_ok h) hself
      (Callee.recall?_of_run f hm) (Expression.recall?_of_run x)

/-- **What was evaluated is recalled.** -/
theorem Expression.recall?_of_run : (e : Expression K) → ∀ {m m' : Model K} {r : TermReference K},
    m.Consistent c → (e.evaluate c).run m = (.ok r, m') → m'.Recognizes → e.recall? m' = some r
  | .reference _, _, _, _, _, h, _ => by
    cases h
    rfl
  | .application f x, m, m', r, hm, h, hself =>
    Expression.recall?_of_parts hm h hself (Callee.recall?_of_run f hm)
      (Expression.recall?_of_run x)

end

end

/-! ## Marks -/

/-- Whether only a vector that needs it carries a mark: one with an entry that does not count as
equal to itself. -/
def TermReference.WellMarked [BEq K] : TermReference K → Prop
  | .function _ => True
  | .vector _ xs o => (xs.all fun x ↦ x == x) = true → o = .anywhere

private theorem TermReference.wellMarked_vectorAt [BEq K] (o : Occurrence) (t : TypeId)
    (xs : List K) : (vectorAt o t xs).WellMarked := fun h ↦ if_pos h

private theorem TermReference.wellMarked_unmarked [BEq K] (r : TermReference K) :
    r.unmarked.WellMarked := by
  cases r with
  | function p => trivial
  | vector t xs o => exact fun _ ↦ rfl

/-- Nothing carries a mark that it does not need in a model without marks. -/
theorem Model.wellMarked_of_unmarked_eq [BEq K] {m : Model K} (h : m.unmarked = m) :
    m.AllResults TermReference.WellMarked := by
  intro row hrow
  rw [← h] at hrow
  obtain ⟨row', -, rfl⟩ := List.mem_map.mp hrow
  exact ⟨row'.1.argument.wellMarked_unmarked, row'.2.wellMarked_unmarked⟩

section

open Operation

variable [Zero K] [One K] [Add K] [Mul K] [Numbers K] {c : Context}

theorem Model.Step.wellMarked {m m' : Model K} {a : Application K} {r : TermReference K}
    (h : Model.Step c m a (.ok r, m')) (ha : a.argument.WellMarked)
    (hall : m.AllResults TermReference.WellMarked) :
    m'.AllResults TermReference.WellMarked ∧ r.WellMarked := by
  -- a step adds one row at most, and its application is the given one
  have hadd : ∀ {s : TermReference K}, s.WellMarked →
      ∀ row ∈ m.results ++ [(a, s)], row.1.argument.WellMarked ∧ row.2.WellMarked := by
    intro s hs row hrow
    rcases List.mem_append.mp hrow with hrow | hrow
    · exact hall row hrow
    · rw [List.mem_singleton.mp hrow]
      exact ⟨ha, hs⟩
  cases h with
  | known hget =>
    obtain ⟨k, hmem, -⟩ := Table.exists_mem_of_get? hget
    exact ⟨hall, (hall _ hmem).2⟩
  | vector =>
    exact ⟨hadd (TermReference.wellMarked_vectorAt _ _ _), TermReference.wellMarked_vectorAt _ _ _⟩
  | function => exact ⟨hadd trivial, trivial⟩

private theorem Expression.wellMarked_of_parts {f : Callee K} {x : Expression K} {m m' : Model K}
    (hm : m.Consistent c) {r : TermReference K}
    (h : ((Expression.application f x).evaluate c).run m = (.ok r, m'))
    (hf : ∀ {m₁ p}, (f.evaluate c).run m = (.ok p, m₁) →
      m₁.AllResults TermReference.WellMarked)
    (hx : ∀ {m₁ m₂ a}, m₁.Consistent c → m₁.AllResults TermReference.WellMarked →
      (x.evaluate c).run m₁ = (.ok a, m₂) →
      m₂.AllResults TermReference.WellMarked ∧ a.WellMarked) :
    m'.AllResults TermReference.WellMarked ∧ r.WellMarked := by
  obtain ⟨p, m₁, a, m₂, hp, ha, hr⟩ := Expression.exists_of_run_application h
  have hm₁ := Callee.consistent_of_run hm hp
  have hstep := Model.step_evaluate (Expression.consistent_of_run hm₁ ha) ⟨p, a⟩
  rw [hr] at hstep
  obtain ⟨hall, hmark⟩ := hx hm₁ (hf hp) ha
  exact hstep.wellMarked hmark hall

mutual

theorem Callee.wellMarked_of_run : (f : Callee K) → (∀ r ∈ f.references, r.WellMarked) →
    ∀ {m m' : Model K} {p : TermPointer}, m.Consistent c →
      m.AllResults TermReference.WellMarked → (f.evaluate c).run m = (.ok p, m') →
      m'.AllResults TermReference.WellMarked
  | .term _, _, _, _, _, _, hall, h => by
    cases h
    exact hall
  | .application f x, hrefs, m, m', p, hm, hall, h =>
    (Expression.wellMarked_of_parts hm (Callee.run_application_of_ok h)
      (Callee.wellMarked_of_run f (fun r hr ↦ hrefs r (List.mem_append_left _ hr)) hm hall)
      (Expression.wellMarked_of_run x fun r hr ↦ hrefs r (List.mem_append_right _ hr))).1

/-- Evaluation marks vectors only where they need it. -/
theorem Expression.wellMarked_of_run : (e : Expression K) → (∀ r ∈ e.references, r.WellMarked) →
    ∀ {m m' : Model K} {r : TermReference K}, m.Consistent c →
      m.AllResults TermReference.WellMarked → (e.evaluate c).run m = (.ok r, m') →
      m'.AllResults TermReference.WellMarked ∧ r.WellMarked
  | .reference r, hrefs, _, _, _, _, hall, h => by
    cases h
    exact ⟨hall, hrefs r (List.mem_singleton_self _)⟩
  | .application f x, hrefs, m, m', r, hm, hall, h =>
    Expression.wellMarked_of_parts hm h
      (Callee.wellMarked_of_run f (fun r hr ↦ hrefs r (List.mem_append_left _ hr)) hm hall)
      (Expression.wellMarked_of_run x fun r hr ↦ hrefs r (List.mem_append_right _ hr))

end

end

/-! ## Numbers -/

private theorem TermReference.all_beq_self_of_isFinite {xs : List Float}
    (h : ∀ x ∈ xs, x.isFinite = true) : (xs.all fun x ↦ x == x) = true :=
  List.all_eq_true.mpr fun x hx ↦ Decimal.beq_self_of_isFinite (h x hx)

private theorem TermReference.beq_entries_of_isFinite {xs : List Float}
    (h : ∀ x ∈ xs, x.isFinite = true) : (xs == xs) = true := by
  induction xs with
  | nil => rfl
  | cons x xs ih =>
    rw [List.forall_mem_cons] at h
    rw [List.cons_beq_cons, Decimal.beq_self_of_isFinite h.1, ih h.2]
    rfl

theorem TermReference.beq_unmarked_of_isFinite {r : TermReference Float} (hr : r.IsFinite) :
    (r == r.unmarked) = true := by
  cases r with
  | function p => exact decide_eq_true rfl
  | vector t xs o => exact beq_vector_of_beq (beq_entries_of_isFinite hr)

theorem TermReference.beq_self_of_isFinite {r : TermReference Float} (hr : r.IsFinite) :
    (r == r) = true :=
  beq_of_beq_unmarked_right (beq_unmarked_of_isFinite hr)

theorem TermReference.unmarked_of_isFinite {r : TermReference Float} (hr : r.IsFinite)
    (hmark : r.WellMarked) : r.unmarked = r := by
  cases r with
  | function p => rfl
  | vector t xs o => rw [unmarked, hmark (all_beq_self_of_isFinite hr)]

namespace Model

variable {m : Model Float}

theorem recognizes_of_isFinite (h : m.IsFinite) : m.Recognizes := fun row hrow ↦
  Application.beq_iff.mpr ⟨rfl, TermReference.beq_self_of_isFinite (h row hrow).1⟩

/-- **Results keep through rest what they were**, if they are finite and nothing in them carries a
mark that it does not need. -/
theorem results_unmarked (h : m.IsFinite) (hall : m.AllResults TermReference.WellMarked) :
    m.unmarked.results = m.results := by
  refine (List.map_congr_left fun row hrow ↦ ?_).trans (List.map_id _)
  obtain ⟨⟨p, a⟩, r⟩ := row
  obtain ⟨ha, hr⟩ := h _ hrow
  obtain ⟨hamark, hrmark⟩ := hall _ hrow
  rw [Application.unmarked, TermReference.unmarked_of_isFinite ha hamark,
    TermReference.unmarked_of_isFinite hr hrmark]
  rfl

end Model

end TermEmbedding
