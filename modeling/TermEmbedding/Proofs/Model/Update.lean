import TermEmbedding.Model.Update
import TermEmbedding.Proofs.Exceptions
import TermEmbedding.Proofs.Model.Consistent

/-!
# Folding results into beliefs keeps a model consistent

A belief is updated from arguments and results that have the types of the applied function, so their
vectors have the lengths that belong to the matrices of the belief, and the matrices keep their
shapes. Everything else in the model stays. Groups are folded in one after the other: if one of them
fails, those before it have still been folded into a consistent model.
-/

namespace TermEmbedding

variable {K : Type}

/-! ## Beliefs -/

/-- With observations of the lengths of a space all products and sums are defined, so whether a
belief is updated is left to the solver. -/
theorem Embedding.Fits.exists_update [Zero K] [Add K] [Mul K] [Div K] [Routines K]
    {e : Embedding K} {space : Context.FunctionSpace} (h : e.Fits space)
    {features targets : Tensor K} {n : Nat} (hfeatures : features.shape = [n, space.features])
    (htargets : targets.shape = [n, space.output]) (noiseVariance : K) :
    ∃ precision right, precision.shape = [space.features, space.features] ∧
      right.shape = [space.features, space.output] ∧
      e.update features targets noiseVariance =
        Routines.solve precision right >>= fun x ↦ pure ⟨x.transpose, precision⟩ := by
  have htranspose : features.transpose.shape = [space.features, n] := by
    rw [Tensor.shape_transpose, hfeatures]
    rfl
  have htargets' : targets.transpose.shape = [space.output, n] := by
    rw [Tensor.shape_transpose, htargets]
    rfl
  obtain ⟨gram, hgram, hgramshape⟩ := Tensor.matmul_matrix htranspose hfeatures
  obtain ⟨precision, hprecision, hprecisionshape⟩ :=
    Tensor.add_of_shape (a := e.precision) (b := gram.map (· / noiseVariance))
      (by rw [h.precision, Tensor.shape_map, hgramshape])
  obtain ⟨weighted, hweighted, hweightedshape⟩ := Tensor.matmul_matrix h.mean h.precision
  obtain ⟨observed, hobserved, hobservedshape⟩ := Tensor.matmul_matrix htargets' hfeatures
  obtain ⟨right, hright, hrightshape⟩ :=
    Tensor.add_of_shape (a := weighted) (b := observed.map (· / noiseVariance))
      (by rw [hweightedshape, Tensor.shape_map, hobservedshape])
  refine ⟨precision, right.transpose, hprecisionshape.trans h.precision, ?_, ?_⟩
  · rw [Tensor.shape_transpose, hrightshape, hweightedshape]
    rfl
  · rw [Embedding.update, bind_ok hgram, bind_ok hprecision, bind_ok hweighted, bind_ok hobserved,
      bind_ok hright]

theorem Embedding.Fits.update [Zero K] [Add K] [Mul K] [Div K] [Routines K] [Routines.Shaped K]
    {e e' : Embedding K} {space : Context.FunctionSpace} (h : e.Fits space)
    {features targets : Tensor K} {n : Nat} (hfeatures : features.shape = [n, space.features])
    (htargets : targets.shape = [n, space.output])
    {noiseVariance : K} (hupdate : e.update features targets noiseVariance = .ok e') :
    e'.Fits space := by
  obtain ⟨precision, right, hprecision, hright, heq⟩ :=
    h.exists_update hfeatures htargets noiseVariance
  rw [heq] at hupdate
  obtain ⟨solution, hsolution, hupdate⟩ := exists_of_bind_eq_ok hupdate
  cases hupdate
  refine ⟨?_, hprecision⟩
  rw [Tensor.shape_transpose, Routines.Shaped.solve hprecision hright hsolution]
  rfl

namespace Model

open Operation

variable {c : Context} {m : Model K}

theorem consistent_revise [BEq K] (hm : Consistent c m) {p : TermPointer} {e e' : Embedding K}
    (he : m.embeddings.get? p = some e) {space : Context.FunctionSpace}
    (hspace : c.functionSpace p.typeId = .ok space) (hfits : e'.Fits space) :
    Consistent c { m with embeddings := m.embeddings.insert p e' } := by
  have hkeys : (m.embeddings.insert p e').map (·.1) = m.embeddings.map (·.1) :=
    Table.map_fst_insert_of_isSome (by rw [he]; rfl) e'
  have hknows : ∀ q, Knows { m with embeddings := m.embeddings.insert p e' } q ↔ m.Knows q := by
    intro q
    rw [Knows, Knows, Table.isSome_get?_iff, Table.isSome_get?_iff, hkeys]
  refine ⟨fun q ↦ (hknows q).trans (hm.terms q), ?_, ?_, hm.elaborators, hm.elaboratorsOnly,
    hm.elaboratorsOnce, ?_, hm.resultsOnce, hm.origins, hm.originsOnce, hm.pending⟩
  · rw [hkeys]
    exact hm.termsOnce
  · intro row hrow
    rcases Table.mem_insert hrow with rfl | hrow
    · exact ⟨space, hspace, hfits⟩
    · exact hm.beliefs row hrow
  · intro row hrow
    exact (hm.results row hrow).mono fun q ↦ (hknows q).mpr

/-! ## Observations -/

theorem within_observedFeatures [One K] {R : Model K → Model K → Prop} [Std.Refl R]
    [IsTrans (Model K) R] (space : Context.FeatureSpace) (argument : TermReference K) :
    (observedFeatures space argument).Within R :=
  (within_meanVector argument).bind fun _ ↦ within_except _

theorem shape_of_observedFeatures [One K] {space : Context.FeatureSpace}
    {argument : TermReference K} {v : Tensor K} {m' : Model K}
    (h : (observedFeatures space argument).run m = (.ok v, m')) : v.shape = [space.dimension] := by
  obtain ⟨base, m₁, -, h⟩ := exists_of_run_bind_ok h
  by_cases hshape : base.shape = [space.base]
  · rw [run_except_ok (a := Tensor.ofList (base.toList ++ [1]))
      (by rw [Context.FeatureSpace.features, if_pos hshape]; rfl)] at h
    cases h
    simp [hshape, Context.FeatureSpace.dimension]
  · rw [run_except_error (e := .wrongBase space.base base.shape)
      (by rw [Context.FeatureSpace.features, if_neg hshape]; rfl)] at h
    cases h

private theorem shape_of_stack [Zero K] {ts : List (Tensor K)} {shape : List Nat}
    (h : ∀ t ∈ ts, t.shape = shape) {r : Tensor K} (hr : Tensor.stack ts = .ok r) :
    r.shape = ts.length :: shape := by
  cases ts with
  | nil => cases hr
  | cons t ts =>
    obtain ⟨r', hr', hshape⟩ := Tensor.stack_of_shape (List.cons_ne_nil t ts) h
    rw [hr'] at hr
    cases hr
    exact hshape

section

variable [Zero K] [Add K] [Mul K] [Numbers K]

private theorem within_compress {R : Model K → Model K → Prop} [Std.Refl R] [IsTrans (Model K) R]
    (t : TypeId) (v : Tensor K) : (compress c t v).Within R := by
  refine (within_type _).bind fun b ↦ ?_
  cases b with
  | true => exact within_pure v
  | false => exact (within_elaborator t).bind fun matrix ↦ (within_linear _).bind fun inverse ↦
      within_linear _

theorem within_observedTarget {R : Model K → Model K → Prop} [Std.Refl R] [IsTrans (Model K) R]
    (t : TypeId) (p : TermPointer) (argument : TermReference K) :
    (observedTarget c t p argument).Within R := by
  refine within_get.bind fun m ↦ ?_
  cases m.results.get? ⟨p, argument⟩ with
  | none => exact within_throw _
  | some result => exact (within_meanVector result).bind fun v ↦ within_compress t v

private theorem shape_of_compress [Routines.Shaped K] (hm : Consistent c m) {t : TypeId}
    {v w : Tensor K} {n k : Nat} (hfull : c.full t = .ok n) (hcompressed : c.compressed t = .ok k)
    (hvector : c.isVector t = .ok true → n = k) (hv : v.shape = [n]) {m' : Model K}
    (h : (compress c t v).run m = (.ok w, m')) : w.shape = [k] := by
  rw [compress] at h
  obtain ⟨b, m₁, hb, h⟩ := exists_of_run_bind_ok h
  obtain ⟨hvec, rfl⟩ := eq_of_run_type hb
  cases b with
  | true =>
    cases h
    rw [hv, hvector hvec]
  | false =>
    obtain ⟨matrix, m₁, hmatrix, h⟩ := exists_of_run_bind_ok h
    obtain ⟨hget, rfl⟩ := eq_of_run_elaborator hmatrix
    obtain ⟨inverse, m₁, hinverse, h⟩ := exists_of_run_bind_ok h
    obtain ⟨hsome, rfl⟩ := eq_of_run_linear hinverse
    obtain ⟨hmul, rfl⟩ := eq_of_run_linear h
    obtain ⟨-, n', k', hfull', hcompressed', hshape⟩ :=
      hm.elaboratorsOnly _ (Table.mem_of_get? hget)
    rw [hfull] at hfull'
    cases hfull'
    rw [hcompressed] at hcompressed'
    cases hcompressed'
    obtain ⟨w', hw', hshape'⟩ :=
      Tensor.matmul_vector (Routines.Shaped.pseudoInverse hshape hsome) hv
    rw [hw'] at hmul
    cases hmul
    exact hshape'

theorem shape_of_observedTarget [Routines.Shaped K] (hm : Consistent c m) {p : TermPointer}
    {a t : TypeId} {n k : Nat} (harrow : c.Arrow p.typeId a t n k) {argument : TermReference K}
    {w : Tensor K} {m' : Model K} (h : (observedTarget c t p argument).run m = (.ok w, m')) :
    w.shape = [k] := by
  rw [observedTarget, run_bind_ok (run_get m)] at h
  cases hget : m.results.get? ⟨p, argument⟩ with
  | none =>
    rw [hget] at h
    cases h
  | some result =>
    rw [hget] at h
    obtain ⟨v, m₁, hv, h⟩ := exists_of_run_bind_ok h
    obtain ⟨hmean, rfl⟩ := eq_of_run_meanVector hv
    -- the row that is found has the same function, if not the same argument
    obtain ⟨key, hmem, hkey⟩ := Table.exists_mem_of_get? hget
    have hcallee : key.callee = p := (Application.beq_iff.mp hkey).1
    have htyped := hm.results _ hmem
    have hsig := htyped.signature
    rw [hcallee, harrow.signature] at hsig
    cases hsig
    obtain ⟨v', j, hv', hfull, hshape⟩ := hm.exists_meanOf htyped.result.denotes
    rw [hmean] at hv'
    cases hv'
    refine shape_of_compress hm hfull harrow.resultCompressed ?_ hshape h
    intro hvec
    rcases harrow.result with ⟨-, hfull'⟩ | ⟨hfun, -⟩
    · rw [hfull] at hfull'
      cases hfull'
      rfl
    · rw [hvec] at hfun
      cases hfun

/-! ## Groups -/

variable [One K] [Div K] [Routines.Shaped K]

theorem within_observe (p : TermPointer) (arguments : List (TermReference K)) :
    (observe c p arguments).Within (Keeps c) := by
  intro m hm
  -- up to its last line the operation only looks at the model
  refine after_look (within_type _) hm fun s hs ↦ ?_
  obtain ⟨a, t⟩ := s
  obtain ⟨n, k, harrow⟩ := Context.exists_arrow (eq_of_run_type hs).1
  refine after_look (within_type _) hm fun space hspace ↦ ?_
  obtain rfl : space = ⟨n⟩ := by
    have := (eq_of_run_type hspace).1
    rw [harrow.featureSpace] at this
    cases this
    rfl
  refine after_look (within_mapM (within_observedFeatures _) _) hm fun fs hfs ↦ ?_
  refine after_look (within_linear _) hm fun features hfeatures ↦ ?_
  refine after_look (within_mapM (within_observedTarget t p) _) hm fun ts hts ↦ ?_
  refine after_look (within_linear _) hm fun targets htargets ↦ ?_
  refine after_look (within_embedding p) hm fun e he ↦ ?_
  refine after_look (within_linear _) hm fun updated hupdated ↦ ?_
  obtain ⟨hflength, hfrun⟩ := answers_of_run_mapM (within_observedFeatures _) hfs
  obtain ⟨htlength, htrun⟩ := answers_of_run_mapM (within_observedTarget t p) hts
  have hfshape := shape_of_stack (fun f hf ↦ by
    obtain ⟨argument, hrun⟩ := hfrun f hf
    exact shape_of_observedFeatures hrun) (eq_of_run_linear hfeatures).1
  have htshape := shape_of_stack (fun v hv ↦ by
    obtain ⟨argument, hrun⟩ := htrun v hv
    exact shape_of_observedTarget hm harrow hrun) (eq_of_run_linear htargets).1
  rw [hflength] at hfshape
  rw [htlength] at htshape
  have he := (eq_of_run_embedding he).1
  obtain ⟨a', t', n', k', harrow', hfits⟩ := hm.fits he
  have hspaces := harrow.functionSpace.symm.trans harrow'.functionSpace
  rw [Except.ok.injEq] at hspaces
  rw [← hspaces] at hfits
  exact consistent_revise hm he harrow.functionSpace
    (hfits.update hfshape htshape (eq_of_run_linear hupdated).1)

theorem within_observeAll (groups : Table TermPointer (List (TermReference K))) :
    (observeAll c groups).Within (Keeps c) := by
  induction groups with
  | nil => exact within_pure _
  | cons group rest ih => exact (within_observe group.1 group.2).bind fun _ ↦ ih

/-- **Folding results into beliefs keeps a model consistent**, wherever it stops. -/
theorem within_learn : (learn c : Operation K Unit).Within (Keeps c) :=
  within_get.bind fun m ↦ within_observeAll (grouped m.pending)

end

end Model

end TermEmbedding
