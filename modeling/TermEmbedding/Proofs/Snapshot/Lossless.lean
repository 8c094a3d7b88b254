import Mathlib.Data.List.Perm.Subperm
import TermEmbedding.Proofs.Model.Provenance
import TermEmbedding.Proofs.Snapshot.Written

/-!
# Nothing is lost at rest

A finite model that is put away comes back as it was: no row, no shape, no place in an order and no
pending application is lost, and what it is put away as the second time is what it was the first
time.

Two things have to be said about this. A numeral has a longest length, so a model can be put away
only if the numbers of its types and terms are small enough. These numbers count things that are
there, so no model is affected whose tables have fewer rows than there are such numbers. And marks
are not written. A finite vector has no use for one, and if nothing that is evaluated carries a mark
without need, then no vector in a finite model carries one.
-/

namespace TermEmbedding

/-! ## Terms that have a text -/

theorem TermPointer.hasText_iff {p : TermPointer} : p.hasText = true ↔
    hasNumeral p.typeId = true ∧
      ∀ n : Nat, p.index = .primitive n ∨ p.index = .nonprimitive n → hasNumeral n = true := by
  obtain ⟨t, index⟩ := p
  rw [hasText, Bool.and_eq_true]
  refine and_congr_right' ?_
  cases index <;> simp

private theorem Context.exists_of_signature_eq {c : Context} {t a r : TypeId}
    (h : c.signature t = .ok (a, r)) : ∃ i j k : Nat, t = i ∧ a = j ∧ r = k ∧ j < i ∧ k < i := by
  obtain ⟨i, rfl, hi⟩ := exists_of_signature h
  rcases vector_or_arrow hi with ⟨hvec, -⟩ | ⟨-, j, k, n, l, hj, hk, harrow⟩
  · exact absurd h (signature_ne_vector hvec _)
  · cases harrow.signature.symm.trans h
    exact ⟨i, j, k, rfl, rfl, rfl, hj, hk⟩

namespace Snapshot

private theorem exists_ofPointer_iff {p : TermPointer} :
    (∃ data, ofPointer p = .ok data) ↔ p.hasText = true := by
  rw [ofPointer]
  by_cases h : p.hasText = true
  · rw [if_pos h]
    exact iff_of_true ⟨_, rfl⟩ h
  · rw [if_neg h]
    exact iff_of_false (by rintro ⟨_, ⟨⟩⟩) h

private theorem exists_ofReference {r : TermReference Float} (h : r.hasText = true) :
    ∃ data, ofReference r = .ok data := by
  rw [ofReference, if_pos h]
  exact ⟨_, rfl⟩

private theorem exists_ofTypeId_iff {t : TypeId} :
    (∃ name, ofTypeId t = .ok name) ↔ hasNumeral t = true := by
  rw [ofTypeId]
  by_cases h : hasNumeral t = true
  · rw [if_pos h]
    exact iff_of_true ⟨_, rfl⟩ h
  · rw [if_neg h]
    exact iff_of_false (by rintro ⟨_, ⟨⟩⟩) h

private theorem exists_ofApplication {a : Application Float} (hcallee : a.callee.hasText = true)
    (hargument : a.argument.hasText = true) : ∃ data, ofApplication a = .ok data := by
  obtain ⟨callee, hcallee⟩ := exists_ofPointer_iff.mpr hcallee
  obtain ⟨argument, hargument⟩ := exists_ofReference hargument
  rw [ofApplication, bind_ok hcallee, bind_ok hargument]
  exact ⟨_, rfl⟩

private theorem exists_ofResult {row : Application Float × TermReference Float}
    (hcallee : row.1.callee.hasText = true) (hargument : row.1.argument.hasText = true)
    (hresult : row.2.hasText = true) : ∃ data, ofResult row = .ok data := by
  obtain ⟨callee, hcallee⟩ := exists_ofPointer_iff.mpr hcallee
  obtain ⟨argument, hargument⟩ := exists_ofReference hargument
  obtain ⟨result, hresult⟩ := exists_ofReference hresult
  rw [ofResult, bind_ok hcallee, bind_ok hargument, bind_ok hresult]
  exact ⟨_, rfl⟩

private theorem exists_ofElaborator_iff {row : TypeId × Tensor Float} :
    (∃ data, ofElaborator row = .ok data) ↔ hasNumeral row.1 = true := by
  rw [← exists_ofTypeId_iff]
  constructor
  · rintro ⟨data, h⟩
    obtain ⟨name, hname, -⟩ := exists_of_bind_eq_ok h
    exact ⟨name, hname⟩
  · rintro ⟨name, hname⟩
    rw [ofElaborator, bind_ok hname]
    exact ⟨_, rfl⟩

end Snapshot

namespace Model

/-! ## Models that can be put away -/

/-- Whether the numbers of the terms and of the types of functions of a model can be written. -/
structure HasText (m : Model Float) : Prop where
  terms : ∀ row ∈ m.embeddings, row.1.hasText = true
  types : ∀ row ∈ m.elaborators, hasNumeral row.1 = true

section

variable {c : Context} {m : Model Float}

private theorem HasText.of_knows (h : m.HasText) {p : TermPointer} (hp : m.Knows p) :
    p.hasText = true := by
  obtain ⟨e, he⟩ := Option.isSome_iff_exists.mp hp
  exact h.terms _ (Table.mem_of_get? he)

private theorem HasText.of_denotes (h : m.HasText) {r : TermReference Float} (hr : m.Denotes c r)
    (htype : hasNumeral r.typeId = true) : r.hasText = true := by
  cases r with
  | function p => exact h.of_knows hr
  | vector t xs o => exact htype

private theorem HasText.of_typedRow (h : m.HasText) {row : Application Float × TermReference Float}
    (hrow : m.TypedRow c row) : row.1.callee.hasText = true ∧ row.1.argument.hasText = true ∧
      row.2.hasText = true := by
  have hcallee := h.of_knows hrow.callee
  obtain ⟨i, j, k, hi, hj, hk, hji, hki⟩ := Context.exists_of_signature_eq hrow.signature
  have hnumeral := (TermPointer.hasText_iff.mp hcallee).1
  rw [hi] at hnumeral
  refine ⟨hcallee, h.of_denotes hrow.argument ?_, h.of_denotes hrow.result.denotes ?_⟩
  · rw [hj]
    exact hasNumeral_mono hji.le hnumeral
  · rw [hk]
    exact hasNumeral_mono hki.le hnumeral

private theorem HasText.exists_ofApplication (h : m.HasText) (hm : Consistent c m)
    {a : Application Float} {r : TermReference Float} (hrow : (a, r) ∈ m.results) :
    ∃ data, Snapshot.ofApplication a = .ok data := by
  obtain ⟨hcallee, hargument, -⟩ := h.of_typedRow (hm.results _ hrow)
  exact Snapshot.exists_ofApplication hcallee hargument

/-- A type can be written if an application is listed for it, since a term of it is there then. -/
private theorem HasText.exists_ofOrigins (h : m.HasText) (hm : Consistent c m)
    {row : TypeId × List (Application Float)} (hrow : row ∈ m.origins) (hne : row.2 ≠ []) :
    ∃ data, Snapshot.ofOrigins row = .ok data := by
  obtain ⟨a, rest, hrest⟩ := List.exists_cons_of_ne_nil hne
  have hfirst : (m.originsOf row.1)[0]? = some a := by
    rw [originsOf, Table.get?_of_mem hm.originsOnce hrow]
    change row.2[0]? = _
    rw [hrest]
    rfl
  have hresult := (h.of_typedRow (hm.results _ ((hm.origins _ _ _).mp hfirst))).2.2
  obtain ⟨name, hname⟩ := Snapshot.exists_ofTypeId_iff.mpr (TermPointer.hasText_iff.mp hresult).1
  obtain ⟨rows, hrows⟩ : ∃ data, row.2.mapM Snapshot.ofApplication = .ok data := by
    refine exists_mapM_eq_ok_iff.mpr fun a ha ↦ ?_
    obtain ⟨r, hr⟩ := hm.exists_of_origin hrow ha
    exact h.exists_ofApplication hm hr
  rw [Snapshot.ofOrigins, bind_ok hname, bind_ok hrows]
  exact ⟨_, rfl⟩

/-- **A model can be put away exactly if the numbers of its terms and types can be written.** -/
theorem Consistent.exists_ofModel_iff (hm : Consistent c m)
    (horigins : ∀ row ∈ m.origins, row.2 ≠ []) :
    (∃ s, Snapshot.ofModel m = .ok s) ↔ m.HasText := by
  rw [Snapshot.exists_ofModel_iff_writable]
  constructor
  · intro h
    refine ⟨fun row hrow ↦ ?_, fun row hrow ↦ ?_⟩
    · exact Snapshot.exists_ofPointer_iff.mp
        ((Snapshot.exists_ofEmbedding_iff row).mp (h.embeddings row hrow))
    · exact Snapshot.exists_ofElaborator_iff.mp (h.elaborators row hrow)
  · intro htext
    refine ⟨fun row hrow ↦ ?_, fun row hrow ↦ htext.exists_ofOrigins hm hrow (horigins row hrow),
      fun row hrow ↦ ?_, fun row hrow ↦ ?_, fun a ha ↦ ?_⟩
    · obtain ⟨hcallee, hargument, hresult⟩ := htext.of_typedRow (hm.results row hrow)
      exact Snapshot.exists_ofResult hcallee hargument hresult
    · exact (Snapshot.exists_ofEmbedding_iff row).mpr
        (Snapshot.exists_ofPointer_iff.mpr (htext.terms row hrow))
    · exact Snapshot.exists_ofElaborator_iff.mpr (htext.types row hrow)
    · obtain ⟨r, hr⟩ := hm.exists_of_pending ha
      exact htext.exists_ofApplication hm hr

/-! ## Models that are not too large -/

private theorem Consistent.length_originsOf_le (hm : Consistent c m) (t : TypeId) :
    (m.originsOf t).length ≤ m.results.length := by
  -- each listed term is the result of a row of its own
  have hnodup : ((List.range (m.originsOf t).length).map fun j ↦
      (TermReference.function ⟨t, .nonprimitive j⟩ : TermReference Float)).Nodup := by
    refine List.nodup_range.map fun i j hij ↦ ?_
    cases hij
    rfl
  have hsubset : ((List.range (m.originsOf t).length).map fun j ↦
      (TermReference.function ⟨t, .nonprimitive j⟩ : TermReference Float)) ⊆
        m.results.map (·.2) := by
    intro r hr
    obtain ⟨j, hj, rfl⟩ := List.mem_map.mp hr
    have hrow := (hm.origins t j _).mp (List.getElem?_eq_getElem (List.mem_range.mp hj))
    exact List.mem_map.mpr ⟨_, hrow, rfl⟩
  have hlength := (hnodup.subperm hsubset).length_le
  rwa [List.length_map, List.length_map, List.length_range] at hlength

/-- **What is counted in a model that is not too large can be written.** -/
theorem Consistent.hasText (hm : Consistent c m) (htypes : c.kinds.length ≤ 10 ^ numeralLimit)
    (hnames : ∀ t, (c.primitiveNames t).length ≤ 10 ^ numeralLimit)
    (hresults : m.results.length ≤ 10 ^ numeralLimit) : m.HasText := by
  refine ⟨fun row hrow ↦ ?_, fun row hrow ↦ ?_⟩
  · obtain ⟨⟨t, index⟩, e⟩ := row
    obtain ⟨space, hspace, -⟩ := hm.beliefs _ hrow
    obtain ⟨a, r, n, harrow, -⟩ := Context.exists_arrow_of_functionSpace hspace
    obtain ⟨i, hi, hlt⟩ := Context.exists_of_signature harrow.signature
    have hknows : m.Knows ⟨t, index⟩ :=
      Table.isSome_get?_iff.mpr (List.mem_map.mpr ⟨_, hrow, rfl⟩)
    have hcounts := (hm.terms _).mp hknows
    rw [TermPointer.hasText_iff]
    refine ⟨?_, ?_⟩
    · rw [hi]
      exact hasNumeral_of_lt hlt htypes
    · rintro n (rfl | rfl)
      · exact hasNumeral_of_lt hcounts (hnames t)
      · exact hasNumeral_of_lt hcounts ((hm.length_originsOf_le t).trans hresults)
  · obtain ⟨hfun, -⟩ := hm.elaboratorsOnly row hrow
    obtain ⟨i, hi, hlt⟩ := Context.exists_of_isVector hfun
    rw [hi]
    exact hasNumeral_of_lt hlt htypes

end

/-- A type is listed with the applications that its terms came from only if there are such terms. -/
theorem ReachableBy.origins_ne_nil [Routines Float] [Routines.Shaped Float]
    {allowed : Action → Prop} {source : NoiseSource Float} {c : Context} {m : Model Float}
    (h : ReachableBy allowed source c m) :
    ∀ row ∈ m.origins, row.2 ≠ [] := by
  apply h.of_steps (P := fun _ origins ↦ ∀ row ∈ origins, row.2 ≠ [])
  · exact List.forall_mem_nil _
  · intro m m' a r _ horigins hstep
    cases hstep with
    | known => exact horigins
    | refused => exact horigins
    | vector => exact horigins
    | function =>
      intro row hrow
      rcases Table.mem_insert hrow with rfl | hrow
      · exact List.append_ne_nil_of_right_ne_nil _ (List.cons_ne_nil _ _)
      · exact horigins row hrow
  · intro m horigins row hrow
    obtain ⟨row', hrow', rfl⟩ := List.mem_map.mp hrow
    rw [ne_eq, List.map_eq_nil_iff]
    exact horigins row' hrow'

/-! ## Models without a mark that is not needed -/

end Model

section

open Operation

variable [Routines Float] {c : Context} {m : Model Float}

theorem Model.Step.allWellMarked {a : Application Float}
    {outcome : Except (Failure Float) (TermReference Float) × Model Float}
    (h : Model.Step c m a outcome) (ha : a.argument.WellMarked)
    (hall : m.AllResults TermReference.WellMarked) :
    outcome.2.AllResults TermReference.WellMarked := by
  obtain ⟨f | r, m'⟩ := outcome
  · cases h
    exact hall
  · exact (h.wellMarked ha hall).1

private theorem Expression.allWellMarked_of_parts {f : Callee Float} {x : Expression Float}
    (hrefs : ∀ r ∈ x.references, r.WellMarked) (hm : m.Consistent c)
    (hf : ((f.evaluate c).run m).2.AllResults TermReference.WellMarked)
    (hx : ∀ {m : Model Float}, m.Consistent c → m.AllResults TermReference.WellMarked →
      ((x.evaluate c).run m).2.AllResults TermReference.WellMarked) :
    (((Expression.application f x).evaluate c).run m).2.AllResults TermReference.WellMarked := by
  rw [Expression.evaluate]
  rcases hp : (f.evaluate c).run m with ⟨failure | p, m₁⟩
  · rw [run_bind_error hp]
    rwa [hp] at hf
  · rw [hp] at hf
    have hm₁ := Callee.consistent_of_run hm hp
    rw [run_bind_ok hp]
    rcases ha : (x.evaluate c).run m₁ with ⟨failure | a, m₂⟩
    · have hargument := hx hm₁ hf
      rw [ha] at hargument
      rwa [run_bind_error ha]
    · obtain ⟨hall, hmark⟩ := x.wellMarked_of_run hrefs hm₁ hf ha
      have hm₂ := Expression.consistent_of_run hm₁ ha
      rw [run_bind_ok ha]
      exact (Model.step_evaluate hm₂ ⟨p, a⟩).allWellMarked hmark hall

mutual

theorem Callee.allWellMarked_evaluate : (f : Callee Float) → (∀ r ∈ f.references, r.WellMarked) →
    ∀ {m : Model Float}, m.Consistent c → m.AllResults TermReference.WellMarked →
      ((f.evaluate c).run m).2.AllResults TermReference.WellMarked
  | .term _, _, _, _, hall => hall
  | .application f x, hrefs, m, hm, hall => by
    have happlied := Expression.allWellMarked_of_parts
      (fun r hr ↦ hrefs r (List.mem_append_right _ hr)) hm
      (f.allWellMarked_evaluate (fun r hr ↦ hrefs r (List.mem_append_left _ hr)) hm hall)
      (x.allWellMarked_evaluate fun r hr ↦ hrefs r (List.mem_append_right _ hr))
    rw [Callee.evaluate_application]
    -- whether a function came out is asked when the model is what it is
    rcases hr : ((Expression.application f x).evaluate c).run m with ⟨failure | r, m'⟩
    · rw [hr] at happlied
      rwa [run_bind_error hr]
    · rw [hr] at happlied
      rw [run_bind_ok hr]
      cases r with
      | function p => exact happlied
      | vector t xs o => exact happlied

/-- **Evaluation marks nothing without need**, wherever it stops. -/
theorem Expression.allWellMarked_evaluate : (e : Expression Float) →
    (∀ r ∈ e.references, r.WellMarked) → ∀ {m : Model Float}, m.Consistent c →
      m.AllResults TermReference.WellMarked →
      ((e.evaluate c).run m).2.AllResults TermReference.WellMarked
  | .reference _, _, _, _, hall => hall
  | .application f x, hrefs, _, hm, hall =>
    Expression.allWellMarked_of_parts (fun r hr ↦ hrefs r (List.mem_append_right _ hr)) hm
      (f.allWellMarked_evaluate (fun r hr ↦ hrefs r (List.mem_append_left _ hr)) hm hall)
      (x.allWellMarked_evaluate fun r hr ↦ hrefs r (List.mem_append_right _ hr))

end

end

/-- Whether what is evaluated carries no mark without need. -/
def Action.WellMarked : Action → Prop
  | evaluate _ argument => argument.WellMarked
  | evaluateExpression e => ∀ r ∈ e.references, r.WellMarked
  | sample _ | simulateExpression _ | learn | clearPending => True

theorem Application.unmarked_of_isFinite {a : Application Float} (ha : a.IsFinite)
    (hmark : a.argument.WellMarked) : a.unmarked = a := by
  rw [Application.unmarked, TermReference.unmarked_of_isFinite ha hmark]

namespace Model

variable {source : NoiseSource Float} {c : Context} {m : Model Float}

theorem ReachableBy.allWellMarked [Routines Float] [Routines.Shaped Float]
    (h : ReachableBy Action.WellMarked source c m) :
    m.AllResults TermReference.WellMarked := by
  induction h with
  | fresh h =>
    intro row hrow
    rw [results_of_fresh h] at hrow
    exact absurd hrow List.not_mem_nil
  | @act m h a ha ih =>
    have hm := h.consistent
    cases a with
    | evaluate p argument => exact (step_evaluate hm ⟨p, argument⟩).allWellMarked ha ih
    | evaluateExpression e => exact e.allWellMarked_evaluate ha hm ih
    | _ =>
      rw [AllResults, (tables_leave id m).1]
      exact ih
  | checkout h hs hm' _ =>
    obtain ⟨-, rfl⟩ := (h.consistent.toModel_ofModel hs _).mp hm'
    exact wellMarked_of_unmarked_eq (unmarked_unmarked _)

/-- A finite model has no marks if it has none without need. -/
theorem Consistent.unmarked_eq (hm : Consistent c m) (hfinite : m.IsFinite)
    (hall : m.AllResults TermReference.WellMarked) : m.unmarked = m := by
  -- whatever is listed or pending is the application of a row
  have happlication : ∀ {a r}, (a, r) ∈ m.results → a.unmarked = a := fun hrow ↦
    Application.unmarked_of_isFinite (hfinite _ hrow).1 (hall _ hrow).1
  have horigins : m.unmarked.origins = m.origins := by
    refine (List.map_congr_left fun row hrow ↦ ?_).trans (List.map_id _)
    refine Prod.ext rfl ((List.map_congr_left fun a ha ↦ ?_).trans (List.map_id _))
    obtain ⟨r, hr⟩ := hm.exists_of_origin hrow ha
    exact happlication hr
  have hpending : m.unmarked.pending = m.pending := by
    refine (List.map_congr_left fun a ha ↦ ?_).trans (List.map_id _)
    obtain ⟨r, hr⟩ := hm.exists_of_pending ha
    exact happlication hr
  change Model.mk m.unmarked.results m.unmarked.origins m.embeddings m.elaborators
    m.unmarked.pending m.noise = m
  rw [results_unmarked hfinite hall, horigins, hpending]

/-! ## Putting a model away and taking it up again -/

/-- **Nothing is lost at rest.** A model that can be reached and whose results are finite can be put
away exactly if the numbers of its terms and types can be written, which they can if there are not
more of them than there are such numbers. What it is put away as is taken up again as the model
itself, all its tables, orders and shapes included, save for marks; the model that was taken up is
put away as the same snapshot; and there is no mark to be lost where nothing that was evaluated
carried one without need. -/
theorem toModel_ofModel_of_isFinite [Routines Float] [Routines.Shaped Float]
    (h : Reachable source c m) (hfinite : m.IsFinite) :
    (∀ s, Snapshot.ofModel m = .ok s →
      s.toModel = .ok m.unmarked ∧ Snapshot.ofModel m.unmarked = .ok s) ∧
    (ReachableBy Action.WellMarked source c m → m.unmarked = m) ∧
    ((∃ s, Snapshot.ofModel m = .ok s) ↔ m.HasText) ∧
    (c.kinds.length ≤ 10 ^ numeralLimit →
      (∀ t, (c.primitiveNames t).length ≤ 10 ^ numeralLimit) →
      m.results.length ≤ 10 ^ numeralLimit → m.HasText) := by
  have hm := h.consistent
  refine ⟨fun s hs ↦ ⟨?_, ?_⟩, ?_, hm.exists_ofModel_iff h.origins_ne_nil, hm.hasText⟩
  · exact (hm.toModel_ofModel hs).eq_ok hfinite
  · rw [Snapshot.ofModel_unmarked]
    exact hs
  · exact fun hmarked ↦ hm.unmarked_eq hfinite hmarked.allWellMarked

/-- A model with a term that evaluation brought into being comes back as it was. -/
theorem toModel_ofModel_curried : ∃ m s, Reachable (.tape #[20.0]) .curried m ∧ m.IsFinite ∧
    m.results.length = 2 ∧ m.pending.length = 2 ∧ Snapshot.ofModel m = .ok s ∧
    s.toModel = .ok m := by
  have hfacts : (Model.fresh (.tape #[20.0]) .curried .unspecified).toOption.map (fun m ↦
      (((curriedApplication.evaluate .curried).run m).2.results,
        ((curriedApplication.evaluate .curried).run m).2.pending.length,
        ((curriedApplication.evaluate .curried).run m).2.embeddings.all (·.1.hasText),
        ((curriedApplication.evaluate .curried).run m).2.elaborators.all (hasNumeral ·.1))) =
      some (curriedResults, 2, true, true) := by
    decide +kernel
  obtain ⟨m, hfresh, hfacts⟩ := exists_of_map_toOption_eq_some hfacts
  simp only [Prod.mk.injEq] at hfacts
  obtain ⟨hresults, hpending, hterms, htypes⟩ := hfacts
  have hallowed : (Action.evaluateExpression curriedApplication).WellMarked := by
    intro r hr
    simp only [curriedApplication, Expression.references, Callee.references, List.nil_append,
      List.cons_append, List.mem_cons, List.not_mem_nil, or_false] at hr
    rcases hr with rfl | rfl | rfl
    · trivial
    · exact fun _ ↦ rfl
    · exact fun _ ↦ rfl
  have h : Reachable (.tape #[20.0]) .curried
      ((Action.evaluateExpression curriedApplication).leave (.tape #[20.0]) .curried m) :=
    .act (.fresh hfresh) trivial
  have hmarked : ReachableBy Action.WellMarked (.tape #[20.0]) .curried
      ((Action.evaluateExpression curriedApplication).leave (.tape #[20.0]) .curried m) :=
    .act (.fresh hfresh) hallowed
  have hfinite : ((Action.evaluateExpression curriedApplication).leave (.tape #[20.0]) .curried
      m).IsFinite := isFinite_of_curriedResults hresults
  obtain ⟨hback, hmarks, hwritable, -⟩ := toModel_ofModel_of_isFinite h hfinite
  obtain ⟨s, hs⟩ := hwritable.mpr ⟨List.all_eq_true.mp hterms, List.all_eq_true.mp htypes⟩
  have htaken := (hback s hs).1
  rw [hmarks hmarked] at htaken
  exact ⟨_, s, h, hfinite, congrArg List.length hresults, hpending, hs, htaken⟩

end Model

end TermEmbedding
