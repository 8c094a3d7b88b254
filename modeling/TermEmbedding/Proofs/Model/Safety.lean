import TermEmbedding.Proofs.Model.Failures
import TermEmbedding.Proofs.Model.Provenance

/-!
# Updates that fail

An update of a consistent model finds no solution of a system of equations, or no pseudo-inverse,
and that is all that can happen to it: the terms, types and matrices that it asks for are there, all
shapes fit, and pending applications have results that are found. The last of these needs finite
numbers, since an application that does not count as equal to itself is never found again.

With what is known of evaluations and simulations this says how the operations on a model fail that
can be reached.
-/

namespace TermEmbedding

variable {K : Type}

open Operation

/-! ## Parts of an update -/

/-- The models that an update goes through: consistent ones with the same results. -/
structure Model.Holds [BEq K] (c : Context) (R : Table (Application K) (TermReference K))
    (m : Model K) : Prop where
  consistent : m.Consistent c
  results : m.results = R

/-- The one way in which an update fails. -/
def Failure.IsUnsolved (f : Failure K) : Prop := f = .linear .degenerate

private theorem Failure.isUnsolved_degenerate :
    (Failure.linear .degenerate : Failure K).IsUnsolved := rfl

/-- Whether the arguments of a group are those of rows, each of which is found. -/
structure Model.Grouped [BEq K] (R : Table (Application K) (TermReference K)) (p : TermPointer)
    (arguments : List (TermReference K)) : Prop where
  nonempty : arguments ≠ []
  rows : ∀ a ∈ arguments, ∃ r, (⟨p, a⟩, r) ∈ R
  found : ∀ a ∈ arguments, (R.get? ⟨p, a⟩).isSome = true

section

variable [BEq K] {c : Context} {R : Table (Application K) (TermReference K)}

/-- What is pending has a result, which is found again. -/
theorem Model.Consistent.isSome_of_pending {m : Model K} (hm : Consistent c m)
    (hself : m.Recognizes) {a : Application K} (ha : a ∈ m.pending) :
    (m.results.get? a).isSome = true := by
  obtain ⟨r, hr⟩ := hm.exists_of_pending ha
  rw [← Option.ne_none_iff_isSome, ne_eq, Table.get?_eq_none_iff]
  intro hnone
  cases (hnone _ hr).symm.trans (hself _ hr)

private theorem Model.Consistent.grouped_pending {m : Model K} (hm : Consistent c m)
    (hself : m.Recognizes) :
    ∀ group ∈ grouped m.pending, Grouped m.results group.1 group.2 := by
  intro group hgroup
  have hpending : ∀ a ∈ group.2, (⟨group.1, a⟩ : Application K) ∈ m.pending :=
    fun a ha ↦ mem_of_mem_grouped hgroup ha
  exact ⟨ne_nil_of_mem_grouped hgroup, fun a ha ↦ hm.exists_of_pending (hpending a ha),
    fun a ha ↦ hm.isSome_of_pending hself (hpending a ha)⟩

theorem Model.meets_embedding {p : TermPointer} (hp : ∀ {m : Model K}, m.Holds c R → m.Knows p) :
    (Model.embedding p).Meets (Model.Holds c R) Failure.IsUnsolved fun e ↦
      ∃ a r n k, c.Arrow p.typeId a r n k ∧ e.Fits ⟨k, n + 1⟩ := by
  intro m hm
  obtain ⟨e, he⟩ := Option.isSome_iff_exists.mp (hp hm)
  exact .inl ⟨e, m, run_embedding_some he, hm, hm.consistent.fits he⟩

theorem Model.meets_meanVector {r : TermReference K}
    (hr : ∀ {m : Model K}, m.Holds c R → m.Denotes c r) :
    (Model.meanVector r).Meets (Model.Holds c R) Failure.IsUnsolved fun v ↦
      ∃ n, c.full r.typeId = .ok n ∧ v.shape = [n] := by
  intro m hm
  obtain ⟨v, n, hmean, hfull, hshape⟩ := hm.consistent.exists_meanOf (hr hm)
  exact .inl ⟨v, m, run_meanVector_some hmean, hm, n, hfull, hshape⟩

theorem Model.meets_observedFeatures [One K] {argument : TermReference K} {n : Nat}
    (hargument : ∀ {m : Model K}, m.Holds c R → m.Denotes c argument)
    (hfull : c.full argument.typeId = .ok n) :
    (observedFeatures ⟨n⟩ argument).Meets (Model.Holds c R) Failure.IsUnsolved
      fun v ↦ v.shape = [n + 1] := by
  refine (Model.meets_meanVector hargument).bind fun base hbase ↦ ?_
  obtain ⟨n', hfull', hshape⟩ := hbase
  cases hfull.symm.trans hfull'
  rw [features_of_shape hshape]
  exact meets_pure (shape_features hshape)

end

/-- With observations of the lengths of its space a belief is updated, unless a system of equations
has no solution. -/
theorem Embedding.Fits.errorsOnly_update [Zero K] [Add K] [Mul K] [Div K] [Routines K]
    [Routines.FailsByNumbers K] {e : Embedding K} {space : Context.FunctionSpace}
    (h : e.Fits space) {features targets : Tensor K} {n : Nat}
    (hfeatures : features.shape = [n, space.features])
    (htargets : targets.shape = [n, space.output]) {noiseVariance : K} :
    ErrorsOnly (· = .degenerate) (e.update features targets noiseVariance) := by
  obtain ⟨precision, right, hprecision, hright, hupdate⟩ :=
    h.exists_update hfeatures htargets noiseVariance
  rw [hupdate]
  exact (Routines.FailsByNumbers.solve hprecision hright).bind fun _ _ ↦ errorsOnly_pure _

theorem Model.meets_stack [BEq K] [Zero K] {c : Context}
    {R : Table (Application K) (TermReference K)} {arguments : List (TermReference K)}
    (hne : arguments ≠ []) {ts : List (Tensor K)} {shape : List Nat}
    (hlength : ts.length = arguments.length) (hshape : ∀ t ∈ ts, t.shape = shape) :
    Meets (Holds c R) Failure.IsUnsolved (fun s ↦ s.shape = arguments.length :: shape)
      (liftM (Tensor.stack ts) : Operation K (Tensor K)) := by
  have hne' : ts ≠ [] := by
    rintro rfl
    exact hne (List.length_eq_zero_iff.mp hlength.symm)
  obtain ⟨s, hs, hsshape⟩ := Tensor.stack_of_shape hne' hshape
  exact meets_linear_ok hs (hlength ▸ hsshape)

section

variable [Zero K] [Add K] [Mul K] [Numbers K] [Routines.Shaped K] [Routines.FailsByNumbers K]
  {c : Context} {R : Table (Application K) (TermReference K)}

theorem Model.meets_compress {t : TypeId} {v : Tensor K} {n k : Nat} (hfull : c.full t = .ok n)
    (hcompressed : c.compressed t = .ok k) (hvector : c.isVector t = .ok true → n = k)
    (hv : v.shape = [n]) : (Model.compress c t v).Meets (Model.Holds c R) Failure.IsUnsolved
      fun w ↦ w.shape = [k] := by
  intro m hm
  obtain ⟨i, rfl, hi⟩ : ∃ i : Nat, t = i ∧ i < c.kinds.length := by
    obtain ⟨i, d, rfl, hd, -⟩ := Context.exists_of_full hfull
    exact ⟨i, rfl, by simpa [Context.dimensions] using (List.getElem?_eq_some_iff.mp hd).1⟩
  rw [Model.compress]
  rcases Context.vector_or_arrow hi with ⟨hvec, -⟩ | ⟨hfun, -⟩
  · rw [run_bind_ok (run_type_ok hvec m)]
    exact .inl ⟨v, m, rfl, hm, hv.trans (by rw [hvector hvec])⟩
  · obtain ⟨matrix, hget, -, n', k', hfull', hcompressed', hshape⟩ :=
      hm.consistent.exists_elaborator hfun
    cases hfull.symm.trans hfull'
    cases hcompressed.symm.trans hcompressed'
    rw [run_bind_ok (run_type_ok hfun m)]
    change (∃ w m', (elaborator (i : TypeId) >>= fun matrix ↦ _).run m = (.ok w, m') ∧ _) ∨
      ∃ f m', (elaborator (i : TypeId) >>= fun matrix ↦ _).run m = (.error f, m') ∧ _
    rw [run_bind_ok (run_elaborator_some hget)]
    refine (meets_linear_only (Routines.FailsByNumbers.pseudoInverse hshape)
      (fun inverse ↦ Routines.Shaped.pseudoInverse hshape) Failure.isUnsolved_degenerate).bind
      (fun inverse hinverse ↦ ?_) m hm
    obtain ⟨w, hw, hwshape⟩ := Tensor.matmul_vector hinverse hv
    exact meets_linear_ok hw hwshape

theorem Model.meets_observedTarget {p : TermPointer} {a t : TypeId} {n k : Nat}
    (harrow : c.Arrow p.typeId a t n k) {argument : TermReference K}
    (h : (R.get? ⟨p, argument⟩).isSome = true) :
    (observedTarget c t p argument).Meets (Model.Holds c R) Failure.IsUnsolved
      fun w ↦ w.shape = [k] := by
  obtain ⟨result, hresult⟩ := Option.isSome_iff_exists.mp h
  -- the row that is found has the same function, if not the same argument
  obtain ⟨key, hmem, hkey⟩ := Table.exists_mem_of_get? hresult
  have hcallee : key.callee = p := (Application.beq_iff.mp hkey).1
  have htyped : ∀ {m : Model K}, m.Holds c R → m.TypedRow c (key, result) := fun hm ↦
    hm.consistent.results _ (hm.results ▸ hmem)
  refine meets_get.bind fun m hm ↦ ?_
  rw [hm.results, hresult]
  refine (Model.meets_meanVector fun hm ↦ (htyped hm).result.denotes).bind fun v hv ↦ ?_
  obtain ⟨n', hfull, hshape⟩ := hv
  have hsignature := (htyped hm).signature
  rw [hcallee, harrow.signature] at hsignature
  cases hsignature
  refine Model.meets_compress hfull harrow.resultCompressed (fun hvec ↦ ?_) hshape
  rcases harrow.result with ⟨-, hfull'⟩ | ⟨hfun, -⟩
  · cases hfull.symm.trans hfull'
    rfl
  · cases hvec.symm.trans hfun

variable [One K] [Div K]

/-- **A group of applications that have results is folded in**, unless there is no solution. -/
theorem Model.Grouped.meets_observe {p : TermPointer} {arguments : List (TermReference K)}
    (h : Grouped R p arguments) :
    (observe c p arguments).Meets (Model.Holds c R) Failure.IsUnsolved fun _ ↦ True := by
  intro m hm
  have htyped : ∀ a ∈ arguments, ∃ r, ∀ {m : Model K}, m.Holds c R →
      m.TypedRow c (⟨p, a⟩, r) := by
    intro a ha
    obtain ⟨r, hr⟩ := h.rows a ha
    exact ⟨r, fun hm ↦ hm.consistent.results _ (hm.results ▸ hr)⟩
  obtain ⟨first, hfirst⟩ := List.exists_mem_of_ne_nil arguments h.nonempty
  obtain ⟨r, hr⟩ := htyped first hfirst
  obtain ⟨n, k, harrow⟩ := Context.exists_arrow (hr hm).signature
  rw [observe, run_bind_ok (run_type_ok harrow.signature m)]
  dsimp only
  rw [run_bind_ok (run_type_ok harrow.featureSpace m)]
  have hfeatures : (arguments.mapM (observedFeatures ⟨n⟩)).Meets (Model.Holds c R)
      Failure.IsUnsolved fun fs ↦ fs.length = arguments.length ∧ ∀ f ∈ fs, f.shape = [n + 1] := by
    refine meets_mapM fun a ha ↦ ?_
    obtain ⟨r', hr'⟩ := htyped a ha
    have hsignature := (hr' hm).signature
    rw [harrow.signature] at hsignature
    obtain ⟨htype, -⟩ := Prod.mk.inj (Except.ok.inj hsignature)
    exact Model.meets_observedFeatures (fun hm ↦ (hr' hm).argument) (htype ▸ harrow.argumentFull)
  refine (hfeatures.bind fun fs hfs ↦ ?_) m hm
  refine (meets_stack h.nonempty hfs.1 hfs.2).bind fun features hfshape ↦ ?_
  refine (meets_mapM fun a ha ↦ Model.meets_observedTarget harrow (h.found a ha)).bind
    fun ts hts ↦ ?_
  refine (meets_stack h.nonempty hts.1 hts.2).bind fun targets htshape ↦ ?_
  refine (Model.meets_embedding fun hm ↦ (hr hm).callee).bind fun e he ↦ ?_
  obtain ⟨a', t', n', k', harrow', hfits⟩ := he
  cases harrow.functionSpace.symm.trans harrow'.functionSpace
  refine (meets_linear_only (hfits.errorsOnly_update hfshape htshape)
    (fun _ ↦ hfits.update hfshape htshape) Failure.isUnsolved_degenerate).bind
    fun updated hupdated m hm ↦ ?_
  obtain ⟨e', he'⟩ := Option.isSome_iff_exists.mp (hr hm).callee
  exact .inl ⟨(), _, rfl, ⟨consistent_revise hm.consistent he' harrow.functionSpace hupdated,
    hm.results⟩, trivial⟩

theorem Model.meets_observeAll {groups : Table TermPointer (List (TermReference K))}
    (h : ∀ group ∈ groups, Grouped R group.1 group.2) :
    (observeAll c groups).Meets (Model.Holds c R) Failure.IsUnsolved fun _ ↦ True := by
  induction groups with
  | nil => exact meets_pure trivial
  | cons group rest ih =>
    rw [List.forall_mem_cons] at h
    exact h.1.meets_observe.bind fun _ _ ↦ ih h.2

/-- **Learning fails only where a system of equations has no solution**, if the applications that
have results count as equal to themselves. -/
theorem Model.Consistent.meets_learn {m : Model K} (hm : Consistent c m) (hself : m.Recognizes) :
    (observeAll c (grouped m.pending)).Meets (Model.Holds c m.results) Failure.IsUnsolved
      fun _ ↦ True :=
  Model.meets_observeAll (hm.grouped_pending hself)

theorem Model.Consistent.eq_degenerate_of_learn {m m' : Model K} (hm : Consistent c m)
    (hself : m.Recognizes) {f : Failure K} (h : (learn c).run m = (.error f, m')) :
    f = .linear .degenerate :=
  (hm.meets_learn hself).of_error ⟨hm, rfl⟩ h

theorem Model.Consistent.eq_degenerate_of_update {m m' : Model K} (hm : Consistent c m)
    (hself : m.Recognizes) {f : Failure K} (h : (update c).run m = (.error f, m')) :
    f = .linear .degenerate := by
  have hupdate : (observeAll c (grouped m.pending) >>= fun _ ↦ clearPending).Meets
      (Model.Holds c m.results) Failure.IsUnsolved fun _ ↦ True :=
    (hm.meets_learn hself).bind fun _ _ n hn ↦
      .inl ⟨(), _, rfl, ⟨hn.consistent.replace List.nil_suffix n.noise, hn.results⟩, trivial⟩
  exact hupdate.of_error ⟨hm, rfl⟩ h

end

/-! ## Models that can be reached -/

namespace Model

/-- **Models that can be reached do not fail for reasons of their own**, whatever the expression. If
their vectors are finite, an evaluation fails with an explanation. So does a simulation, and the
explanation is never that a draw has the wrong size, unless the precision of a belief has no inverse
or its covariance no root. Learning fails where the linear algebra does: shapes always fit, and what
is pending has a result that is found. -/
theorem failures_of_reachable [Routines Float] [Routines.Shaped Float]
    [Routines.FailsByNumbers Float] {source : NoiseSource Float} {c : Context} {m : Model Float}
    (h : Reachable source c m) (hfinite : m.IsFinite) :
    (∀ (e : Expression Float) f m', (e.evaluate c).run m = (.error f, m') →
      f.kind? = some .evaluation) ∧
    (∀ (e : Expression Float) f m', (e.simulate (sample source) c).run m = (.error f, m') →
      m.FailsToSimulate f) ∧
    (∀ f m', (learn c).run m = (.error f, m') → f = .linear .degenerate) ∧
    ∀ a ∈ m.pending, (m.results.get? a).isSome = true := by
  have hm := h.consistent
  have hself := recognizes_of_isFinite hfinite
  refine ⟨fun e f m' hrun ↦ e.meets_evaluate.of_error hm hrun, fun e f m' hrun ↦ ?_,
    fun f m' hrun ↦ hm.eq_degenerate_of_learn hself hrun, fun a ha ↦ hm.isSome_of_pending hself ha⟩
  exact (e.meets_simulate hm).of_error (Std.Refl.refl m) hrun

/-- A model with a term that evaluation brought into being fails for no reason of its own. -/
theorem failures_of_reachable_curried : ∃ m, Reachable (.tape #[20.0]) .curried m ∧
    m.IsFinite ∧ m.pending.length = 2 ∧
    (∀ (e : Expression Float) f m', (e.evaluate .curried).run m = (.error f, m') →
      f.kind? = some .evaluation) ∧
    (∀ (e : Expression Float) f m',
      (e.simulate (sample (.tape #[20.0])) .curried).run m = (.error f, m') →
        m.FailsToSimulate f) ∧
    ∀ f m', (learn .curried).run m = (.error f, m') → f = .linear .degenerate := by
  have hfacts : (Model.fresh (.tape #[20.0]) .curried .unspecified).toOption.map (fun m ↦
      (((curriedApplication.evaluate .curried).run m).2.results,
        ((curriedApplication.evaluate .curried).run m).2.pending.length)) =
      some (curriedResults, 2) := by
    decide +kernel
  obtain ⟨m, hfresh, hfacts⟩ := exists_of_map_toOption_eq_some hfacts
  obtain ⟨hresults, hpending⟩ := Prod.mk.inj hfacts
  have h : Reachable (.tape #[20.0]) .curried
      ((Action.evaluateExpression curriedApplication).leave (.tape #[20.0]) .curried m) :=
    .act (.fresh hfresh) trivial
  have hfinite : ((Action.evaluateExpression curriedApplication).leave (.tape #[20.0]) .curried
      m).IsFinite := isFinite_of_curriedResults hresults
  obtain ⟨hevaluate, hsimulate, hlearn, -⟩ := failures_of_reachable h hfinite
  exact ⟨_, h, hfinite, hpending, hevaluate, hsimulate, hlearn⟩

end Model

end TermEmbedding
