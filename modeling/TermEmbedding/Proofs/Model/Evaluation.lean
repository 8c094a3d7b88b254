import TermEmbedding.Model.Evaluation
import TermEmbedding.Proofs.Model.Consistent

/-!
# What evaluation does to a model

The evaluation of an application does one of four things. It finds a result that is there; or it
refuses, and then the model is as it was; or it adds a result that is a vector; or it adds a term
and a result that names it. Which of the last three it is depends on whether the applied function
maps the argument to something, and this is a matter of types alone in a consistent model.

All four keep a model consistent and only add to it, so the same holds of an expression however it
is nested and wherever its evaluation stops.
-/

namespace TermEmbedding

variable {K : Type}

/-- The failures that say that something is missing or has the wrong type or size. -/
def Failure.IsRefusal : Failure K → Prop
  | .type _ | .noTerm _ | .noElaborator _ | .wrongArgument _ _ _ _ | .wrongBase _ _
  | .wrongSample _ _ _ => True
  | .vectorApplied _ _ | .linear _ | .noResult | .badSeed => False

namespace Model

open Operation

variable {c : Context} {m : Model K}

/-! ## Rows that are added -/

/-- The model with a result of an application, which is pending. -/
def record (m : Model K) (a : Application K) (r : TermReference K) : Model K :=
  { m with
    results := m.results ++ [(a, r)]
    pending := m.pending ++ [a] }

/-- A new row and a new result are told apart from all others. -/
private theorem pairwise_record [BEq K] (hm : Consistent c m) {a : Application K}
    {r : TermReference K} (hnone : m.results.get? a = none) :
    (m.results ++ [(a, r)]).Pairwise fun x y ↦ (x.1 == y.1) = false := by
  rw [List.pairwise_append]
  refine ⟨hm.resultsOnce, List.pairwise_singleton _ _, ?_⟩
  intro row hrow row' hrow'
  rw [List.mem_singleton.mp hrow']
  exact Table.get?_eq_none_iff.mp hnone row hrow

private theorem suffix_record [BEq K] (hm : Consistent c m) (a : Application K)
    (r : TermReference K) : m.pending ++ [a] <:+ (m.results ++ [(a, r)]).map (·.1) := by
  obtain ⟨before, hbefore⟩ := hm.pending
  refine ⟨before, ?_⟩
  rw [List.map_append, ← hbefore, List.append_assoc]
  rfl

theorem Consistent.typedRow_of_mem [BEq K] (hm : Consistent c m) {m' : Model K}
    (hext : Extends m m') {added : Application K × TermReference K}
    (hadded : m'.TypedRow c added) :
    ∀ row ∈ m.results ++ [added], m'.TypedRow c row := by
  intro row hrow
  rcases List.mem_append.mp hrow with hrow | hrow
  · exact (hm.results row hrow).mono hext.knows
  · rw [List.mem_singleton.mp hrow]
    exact hadded

private theorem getElem?_concat_eq_some_iff {α : Type} {xs : List α} {a b : α} {j : Nat} :
    (xs ++ [a])[j]? = some b ↔ xs[j]? = some b ∨ b = a ∧ j = xs.length := by
  rcases Nat.lt_trichotomy j xs.length with hj | rfl | hj
  · rw [List.getElem?_append_left hj, or_iff_left fun h ↦ Nat.ne_of_lt hj h.2]
  · simp [eq_comm]
  · have hlength : (xs ++ [a]).length ≤ j := by
      rw [List.length_append]
      exact hj
    simp [List.getElem?_eq_none hlength, List.getElem?_eq_none (Nat.le_of_lt hj), Nat.ne_of_gt hj]

/-- The next term of a type that evaluation brings into being. -/
def nextTerm (m : Model K) (t : TypeId) : TermPointer := ⟨t, .nonprimitive (m.originsOf t).length⟩

theorem Consistent.get?_nextTerm [BEq K] (hm : Consistent c m) (t : TypeId) :
    m.embeddings.get? (m.nextTerm t) = none := by
  rw [← Option.not_isSome_iff_eq_none]
  intro hknows
  exact Nat.lt_irrefl _ ((hm.terms _).mp hknows)

/-- The model with a term that an application brings into being. -/
def install (m : Model K) (t : TypeId) (a : Application K) (belief : Embedding K) : Model K :=
  { m with
    origins := m.origins.insert t (m.originsOf t ++ [a])
    embeddings := m.embeddings ++ [(m.nextTerm t, belief)] }

theorem originsOf_install (m : Model K) (t u : TypeId) (a : Application K)
    (belief : Embedding K) : (m.install t a belief).originsOf u =
      if t = u then m.originsOf t ++ [a] else m.originsOf u := by
  change (Table.get? (m.origins.insert t (m.originsOf t ++ [a])) u).getD [] = _
  rw [Table.get?_insert]
  split
  · rfl
  · rfl

section

variable {t : TypeId} (a : Application K) (belief : Embedding K)

theorem knows_install_iff {p : TermPointer} :
    (m.install t a belief).Knows p ↔ m.Knows p ∨ p = m.nextTerm t := by
  rw [Knows, Knows, Table.isSome_get?_iff, Table.isSome_get?_iff]
  simp [install]

theorem counts_install_iff {p : TermPointer} :
    (m.install t a belief).Counts c p ↔ m.Counts c p ∨ p = m.nextTerm t := by
  obtain ⟨u, index⟩ := p
  cases index with
  | primitive i => simp [Counts, nextTerm]
  | nonprimitive j =>
    simp only [Counts, originsOf_install, nextTerm, TermPointer.mk.injEq,
      TermIndex.nonprimitive.injEq]
    split
    · rename_i htype
      rw [List.length_append, List.length_singleton, ← htype, and_iff_right rfl]
      omega
    · rename_i htype
      simp [Ne.symm htype]

theorem getElem?_originsOf_install_iff {u : TypeId} {j : Nat} {b : Application K} :
    ((m.install t a belief).originsOf u)[j]? = some b ↔
      (m.originsOf u)[j]? = some b ∨ b = a ∧ ⟨u, .nonprimitive j⟩ = m.nextTerm t := by
  rw [originsOf_install]
  split
  · rename_i htype
    subst htype
    simp [getElem?_concat_eq_some_iff, nextTerm]
  · rename_i htype
    simp [nextTerm, Ne.symm htype]

end

/-! ## Checks -/

private theorem run_checkArgument_ok {p : TermPointer} {argument : TermReference K} {r : TypeId}
    (h : c.signature p.typeId = .ok (argument.typeId, r)) (m : Model K) :
    (checkArgument c p argument).run m = (.ok (), m) := by
  rw [checkArgument, run_bind_ok (run_type_ok h m)]
  simp only [ne_eq, not_true_eq_false, if_false]
  rfl

private theorem run_checkArgument_refused {p : TermPointer} {argument : TermReference K}
    (h : ∀ r, c.signature p.typeId ≠ .ok (argument.typeId, r)) (m : Model K) :
    ∃ f : Failure K, f.IsRefusal ∧ (checkArgument c p argument).run m = (.error f, m) := by
  rw [checkArgument]
  cases hsig : c.signature p.typeId with
  | error e => exact ⟨.type e, trivial, run_bind_error (run_type_error rfl m) _⟩
  | ok s =>
    obtain ⟨expected, r⟩ := s
    have hne : argument.typeId ≠ expected := by
      rintro rfl
      exact h r hsig
    rw [run_bind_ok (run_type_ok rfl m)]
    simp only [ne_eq, hne, not_false_eq_true, if_true]
    cases hdisplay : c.display p.typeId with
    | error e => exact ⟨.type e, trivial, run_bind_error (run_type_error rfl m) _⟩
    | ok text =>
      refine ⟨.wrongArgument (.term p) text (.reference argument) argument.typeId, trivial, ?_⟩
      rw [run_bind_ok (run_type_ok rfl m)]
      rfl

section

variable [One K]

theorem features_of_shape {base : Tensor K} {n : Nat} (h : base.shape = [n]) :
    (Context.FeatureSpace.mk n).features base =
      (.ok (.ofList (base.toList ++ [1])) : Except (Failure K) (Tensor K)) := by
  rw [Context.FeatureSpace.features, if_pos h]
  rfl

theorem features_of_shape_ne {base : Tensor K} {n : Nat} (h : base.shape ≠ [n]) :
    (Context.FeatureSpace.mk n).features base =
      (.error (.wrongBase n base.shape) : Except (Failure K) (Tensor K)) := by
  rw [Context.FeatureSpace.features, if_neg h]
  rfl

theorem shape_features {base : Tensor K} {n : Nat} (h : base.shape = [n]) :
    (Tensor.ofList (base.toList ++ [1])).shape = [n + 1] := by
  simp [h]

end

/-! ## The four cases -/

section

variable [Zero K] [One K] [Add K] [Mul K]

/-- A function maps an argument to a compressed vector of a type. -/
def Maps (c : Context) (m : Model K) (a : Application K) (t : TypeId) (v : Tensor K) : Prop :=
  ∃ e base n k, c.Arrow a.callee.typeId a.argument.typeId t n k ∧
    m.embeddings.get? a.callee = some e ∧ m.meanOf? a.argument = some base ∧ base.shape = [n] ∧
    e.mean.matmul (.ofList (base.toList ++ [1])) = .ok v ∧ v.shape = [k]

theorem Maps.argument {a : Application K} {t : TypeId} {v : Tensor K}
    (h : Maps c m a t v) : m.Knows a.callee ∧ m.Denotes c a.argument ∧
      c.signature a.callee.typeId = .ok (a.argument.typeId, t) := by
  obtain ⟨e, base, n, k, harrow, he, hbase, hshape, -, -⟩ := h
  refine ⟨by rw [Knows, he]; rfl, ?_, harrow.signature⟩
  cases hargument : a.argument with
  | function p =>
    rw [hargument] at hbase
    obtain ⟨e', he', -⟩ := Option.map_eq_some_iff.mp hbase
    change (m.embeddings.get? p).isSome = true
    rw [he']
    rfl
  | vector u xs o =>
    have hfull := harrow.argumentFull
    rw [hargument] at hbase hfull
    cases hbase
    cases hshape
    exact hfull

variable [Numbers K]

/-- What the evaluation of an application does. -/
inductive Step (c : Context) (m : Model K) (a : Application K) :
    Except (Failure K) (TermReference K) × Model K → Prop
  | known {r : TermReference K} (hget : m.results.get? a = some r) : Step c m a (.ok r, m)
  | refused {f : Failure K} (hnone : m.results.get? a = none) (hnot : ∀ t v, ¬Maps c m a t v)
      (hf : f.IsRefusal) : Step c m a (.error f, m)
  | vector {t : TypeId} {v : Tensor K} (hnone : m.results.get? a = none) (hmaps : Maps c m a t v)
      (hvec : c.isVector t = .ok true) :
      Step c m a (.ok (.vectorAt (.result m.results.length) t v.toList),
        m.record a (.vectorAt (.result m.results.length) t v.toList))
  | function {t : TypeId} {v w : Tensor K} {space : Context.FunctionSpace} {mean : Tensor K}
      (hnone : m.results.get? a = none) (hmaps : Maps c m a t v) (hfun : c.isVector t = .ok false)
      (hexpands : Expands c m t v w) (hspace : c.functionSpace t = .ok space)
      (hmean : w.reshape? [space.output, space.features] = some mean)
      (haxes : 1 < mean.shape.length) :
      Step c m a (.ok (.function (m.nextTerm t)),
        (m.install t a (.prior mean haxes)).record a (.function (m.nextTerm t)))

/-- An application of a known function to a reference of the right type and size maps it to
something. -/
theorem Consistent.exists_maps (hm : Consistent c m) {a : Application K} {r : TypeId}
    (hknows : m.Knows a.callee) (hsig : c.signature a.callee.typeId = .ok (a.argument.typeId, r))
    {base : Tensor K} (hbase : m.meanOf? a.argument = some base) {n : Nat}
    (hfull : c.full a.argument.typeId = .ok n) (hshape : base.shape = [n]) :
    ∃ v, Maps c m a r v := by
  obtain ⟨e, he⟩ := Option.isSome_iff_exists.mp hknows
  obtain ⟨argument, result, n', k, harrow, hfits⟩ := hm.fits he
  rw [harrow.signature] at hsig
  cases hsig
  rw [harrow.argumentFull] at hfull
  cases hfull
  obtain ⟨v, hv, hvshape⟩ := Tensor.matmul_vector hfits.mean (shape_features hshape)
  exact ⟨v, e, base, _, k, harrow, he, hbase, hshape, hv, hvshape⟩

private theorem run_compute_of_maps (hm : Consistent c m) {a : Application K} {t : TypeId}
    {v : Tensor K} (hmaps : Maps c m a t v) :
    (c.isVector t = .ok true ∧ (compute c a.callee a.argument).run m =
        (.ok (.vectorAt (.result m.results.length) t v.toList), m)) ∨
      (c.isVector t = .ok false ∧ ∃ w space mean haxes, Expands c m t v w ∧
        c.functionSpace t = .ok space ∧ w.reshape? [space.output, space.features] = some mean ∧
        (compute c a.callee a.argument).run m =
          (.ok (.function (m.nextTerm t)), m.install t a (.prior mean haxes))) := by
  obtain ⟨e, base, n, k, harrow, he, hbase, hshape, hv, hvshape⟩ := hmaps
  obtain ⟨w, j, hexpands, hfull, hw⟩ := hm.exists_expands harrow hvshape
  rw [compute, run_bind_ok (run_checkArgument_ok harrow.signature m),
    run_bind_ok (run_embedding_some he), run_bind_ok (run_type_ok harrow.signature m)]
  dsimp only
  rw [run_bind_ok (run_type_ok harrow.featureSpace m), run_bind_ok (run_meanVector_some hbase),
    run_bind_ok (run_except_ok (features_of_shape hshape) m), run_bind_ok (run_linear_ok hv m)]
  rcases harrow.result with ⟨hvec, -⟩ | ⟨hfun, a', r, i, l, hresult⟩
  · left
    refine ⟨hvec, ?_⟩
    rw [run_bind_ok (run_type_ok hvec m), if_pos rfl, Tensor.toVector?_of_shape hvshape]
    rfl
  · right
    have hvolume : Tensor.volume w.shape = Tensor.volume [l, i + 1] := by
      have := hfull.symm.trans hresult.full
      cases this
      simp [hw]
    -- the new term has a key of its own, so its belief is added at the end
    have hnext := hm.get?_nextTerm t
    have hmean := Tensor.reshape?_of_volume hvolume
    have haxes : 1 < [l, i + 1].length := Nat.one_lt_two
    refine ⟨hfun, w, _, _, haxes, hexpands, hresult.functionSpace, hmean, ?_⟩
    rw [run_bind_ok (run_type_ok hfun m), if_neg (by simp), run_bind_ok (run_expand hexpands)]
    have hadd : (addTerm c t a w).run m = (.ok (m.nextTerm t), m.install t a
        (.prior ⟨[l, i + 1], w.entries, w.size_eq.trans hvolume⟩ haxes)) := by
      rw [addTerm, run_bind_ok (run_get m), run_bind_ok (run_modify _ m),
        run_bind_ok (run_type_ok hresult.functionSpace _)]
      split
      · rename_i hnone
        cases hnone.symm.trans hmean
      · rename_i mean hsome
        cases hsome.symm.trans hmean
        rw [run_bind_ok (run_modify _ _), run_pure, install,
          ← Table.insert_of_get?_eq_none _ hnext]
        rfl
    rw [run_bind_ok hadd]
    rfl

private theorem run_compute_refused (hm : Consistent c m) {a : Application K}
    (hnot : ∀ t v, ¬Maps c m a t v) :
    ∃ f : Failure K, f.IsRefusal ∧ (compute c a.callee a.argument).run m = (.error f, m) := by
  rw [compute]
  -- the checks in the order in which they are made
  by_cases hsig : ∃ r, c.signature a.callee.typeId = .ok (a.argument.typeId, r)
  · obtain ⟨r, hsig⟩ := hsig
    rw [run_bind_ok (run_checkArgument_ok hsig m)]
    cases he : m.embeddings.get? a.callee with
    | none => exact ⟨.noTerm a.callee, trivial, run_bind_error (run_embedding_none he) _⟩
    | some e =>
      obtain ⟨n, k, harrow⟩ := Context.exists_arrow hsig
      rw [run_bind_ok (run_embedding_some he), run_bind_ok (run_type_ok hsig m)]
      dsimp only
      rw [run_bind_ok (run_type_ok harrow.featureSpace m)]
      cases hbase : m.meanOf? a.argument with
      | none =>
        obtain ⟨p, -, hrun⟩ := run_meanVector_none hbase
        exact ⟨.noTerm p, trivial, run_bind_error hrun _⟩
      | some base =>
        have hshape : base.shape ≠ [n] := by
          intro hshape
          have hknows : m.Knows a.callee := by rw [Knows, he]; rfl
          obtain ⟨v, hv⟩ := hm.exists_maps hknows hsig hbase harrow.argumentFull hshape
          exact hnot r v hv
        rw [run_bind_ok (run_meanVector_some hbase)]
        exact ⟨.wrongBase n base.shape, trivial,
          run_bind_error (run_except_error (features_of_shape_ne hshape) m) _⟩
  · have hother : ∀ r, c.signature a.callee.typeId ≠ .ok (a.argument.typeId, r) :=
      fun r hr ↦ hsig ⟨r, hr⟩
    obtain ⟨f, hf, hrun⟩ := run_checkArgument_refused hother m
    exact ⟨f, hf, run_bind_error hrun _⟩

/-- **The evaluation of an application takes one of four steps.** -/
theorem step_evaluate (hm : Consistent c m) (a : Application K) :
    Step c m a ((evaluate c a.callee a.argument).run m) := by
  rw [evaluate, run_bind_ok (run_get m)]
  cases hget : m.results.get? a with
  | some r => exact .known hget
  | none =>
    -- computing leaves the results alone, so the row is still missing when it is added
    have hrecord : ∀ (m' : Model K) (r : TermReference K), m'.results = m.results →
        (modify fun m ↦ { m with
          results := m.results.insert a r
          pending := m.pending ++ [a] } : Operation K Unit).run m' = (.ok (), m'.record a r) := by
      intro m' r hresults
      rw [run_modify, record, Table.insert_of_get?_eq_none r (hresults ▸ hget)]
    by_cases hmaps : ∃ t v, Maps c m a t v
    · obtain ⟨t, v, hmaps⟩ := hmaps
      rcases run_compute_of_maps hm hmaps with ⟨hvec, hrun⟩ |
        ⟨hfun, w, space, mean, haxes, hexpands, hspace, hmean, hrun⟩
      · dsimp only
        rw [run_bind_ok hrun, run_bind_ok (hrecord m _ rfl)]
        exact .vector hget hmaps hvec
      · dsimp only
        rw [run_bind_ok hrun, run_bind_ok (hrecord (m.install t a (.prior mean haxes)) _ rfl)]
        exact .function hget hmaps hfun hexpands hspace hmean haxes
    · have hnot : ∀ t v, ¬Maps c m a t v := fun t v h ↦ hmaps ⟨t, v, h⟩
      obtain ⟨f, hf, hrun⟩ := run_compute_refused hm hnot
      dsimp only
      rw [run_bind_error hrun]
      exact .refused hget hnot hf

/-! ## What a step keeps -/

theorem Step.extends {a : Application K} {r : Except (Failure K) (TermReference K)}
    {m' : Model K} (h : Step c m a (r, m')) : Extends m m' := by
  cases h with
  | known => exact .refl m
  | refused => exact .refl m
  | vector => exact ⟨List.prefix_rfl, List.prefix_append _ _, rfl, rfl⟩
  | function => exact ⟨List.prefix_append _ _, List.prefix_append _ _, rfl, rfl⟩

theorem consistent_record (hm : Consistent c m) {a : Application K} {t : TypeId} {v : Tensor K}
    (hnone : m.results.get? a = none) (hmaps : Maps c m a t v) (hvec : c.isVector t = .ok true)
    (o : Occurrence) : Consistent c (m.record a (.vectorAt o t v.toList)) := by
  obtain ⟨hknows, hdenotes, hsig⟩ := hmaps.argument
  obtain ⟨e, base, n, k, harrow, -, -, -, -, hvshape⟩ := hmaps
  have hfull : c.full t = .ok v.toList.length := by
    rcases harrow.result with ⟨-, hfull⟩ | ⟨hfun, -⟩
    · rw [hfull, Tensor.length_toList, hvshape]
      simp
    · rw [hvec] at hfun
      cases hfun
  have hext : Extends m (m.record a (.vectorAt o t v.toList)) :=
    ⟨List.prefix_rfl, List.prefix_append _ _, rfl, rfl⟩
  exact
    { hm with
      results := hm.typedRow_of_mem hext ⟨hknows, hsig, hdenotes.mono hext.knows, hvec, hfull⟩
      resultsOnce := pairwise_record hm hnone
      origins := fun u j b ↦ (hm.origins u j b).trans (by simp [record, TermReference.vectorAt])
      pending := suffix_record hm a _ }

theorem consistent_install (hm : Consistent c m) {a : Application K} {t : TypeId} {v : Tensor K}
    {space : Context.FunctionSpace} {belief : Embedding K} (hnone : m.results.get? a = none)
    (hmaps : Maps c m a t v) (hfun : c.isVector t = .ok false)
    (hspace : c.functionSpace t = .ok space) (hfits : belief.Fits space) :
    Consistent c ((m.install t a belief).record a (.function (m.nextTerm t))) := by
  obtain ⟨hknows, hdenotes, hsig⟩ := hmaps.argument
  have hext : Extends m ((m.install t a belief).record a (.function (m.nextTerm t))) :=
    ⟨List.prefix_append _ _, List.prefix_append _ _, rfl, rfl⟩
  have hnew : ((m.install t a belief).record a (.function (m.nextTerm t))).Knows (m.nextTerm t) :=
    (knows_install_iff a belief).mpr (.inr rfl)
  refine
    { terms := fun p ↦ ?terms
      termsOnce := ?termsOnce
      beliefs := ?beliefs
      elaborators := hm.elaborators
      elaboratorsOnly := hm.elaboratorsOnly
      elaboratorsOnce := hm.elaboratorsOnce
      results := hm.typedRow_of_mem hext
        ⟨hext.knows _ hknows, hsig, hdenotes.mono hext.knows, hfun, hnew, _, rfl⟩
      resultsOnce := pairwise_record hm hnone
      origins := fun u j b ↦ ?origins
      originsOnce := Table.nodup_insert hm.originsOnce _ _
      pending := suffix_record hm a _ }
  case terms =>
    exact (knows_install_iff a belief).trans
      ((or_congr_left (hm.terms p)).trans (counts_install_iff a belief).symm)
  case termsOnce =>
    have hkeys := Table.nodup_insert hm.termsOnce (m.nextTerm t) belief
    rw [Table.insert_of_get?_eq_none _ (hm.get?_nextTerm t)] at hkeys
    exact hkeys
  case beliefs =>
    intro row hrow
    rcases List.mem_append.mp hrow with hrow | hrow
    · exact hm.beliefs row hrow
    · rw [List.mem_singleton.mp hrow]
      exact ⟨space, hspace, hfits⟩
  case origins =>
    refine (getElem?_originsOf_install_iff a belief).trans
      ((or_congr_left (hm.origins u j b)).trans ?_)
    simp [record, install]

/-- **A step keeps a model consistent.** -/
theorem Step.consistent (hm : Consistent c m) {a : Application K}
    {r : Except (Failure K) (TermReference K)} {m' : Model K} (h : Step c m a (r, m')) :
    Consistent c m' := by
  cases h with
  | known => exact hm
  | refused => exact hm
  | vector hnone hmaps hvec => exact consistent_record hm hnone hmaps hvec _
  | function hnone hmaps hfun _ hspace hmean haxes =>
    exact consistent_install hm hnone hmaps hfun hspace
      (Embedding.fits_prior haxes (Tensor.shape_of_reshape? hmean))

/-- The evaluation of an application keeps a model consistent and only adds to it. -/
theorem within_evaluate (p : TermPointer) (argument : TermReference K) :
    (evaluate c p argument).Within (Grows c) := by
  intro m hm
  have hstep := step_evaluate hm ⟨p, argument⟩
  exact ⟨hstep.consistent hm, hstep.extends⟩

end

end Model

/-! ## Expressions -/

section

open Operation

variable [Zero K] [One K] [Add K] [Mul K] [Numbers K] {c : Context}

section

variable {R : Model K → Model K → Prop} [Std.Refl R] [IsTrans (Model K) R]
  (hstep : ∀ p a, (Model.evaluate c p a).Within R)

include hstep

mutual

theorem Callee.within_of_step : (f : Callee K) → (f.evaluate c).Within R
  | .term p => within_pure p
  | .application f x => by
    rw [Callee.evaluate]
    refine (Callee.within_of_step f).bind fun p ↦ (Expression.within_of_step x).bind fun a ↦
      (hstep p a).bind fun r ↦ ?_
    cases r with
    | function q => exact within_pure q
    | vector t xs o => exact within_throw _

/-- The evaluation of an expression does to a model what evaluations of applications do, wherever it
stops. -/
theorem Expression.within_of_step : (e : Expression K) → (e.evaluate c).Within R
  | .reference r => within_pure r
  | .application f x => by
    rw [Expression.evaluate]
    exact (Callee.within_of_step f).bind fun p ↦ (Expression.within_of_step x).bind fun a ↦
      hstep p a

end

end

/-- A consistent model with a property is left where one was found. -/
def Model.KeepsBoth (c : Context) (P : Model K → Prop) (m m' : Model K) : Prop :=
  m.Consistent c → P m → m'.Consistent c ∧ P m'

instance {P : Model K → Prop} : Std.Refl (Model.KeepsBoth c P) := ⟨fun _ hm h ↦ ⟨hm, h⟩⟩

instance {P : Model K → Prop} : IsTrans (Model K) (Model.KeepsBoth c P) where
  trans _ _ _ h h' hm hP := by
    obtain ⟨hm', hP'⟩ := h hm hP
    exact h' hm' hP'

/-- **What each step keeps, the evaluation of an expression keeps.** -/
theorem Expression.keeps_of_step {P : Model K → Prop}
    (hstep : ∀ {m m' : Model K} {a : Application K} {r : Except (Failure K) (TermReference K)},
      m.Consistent c → P m → Model.Step c m a (r, m') → P m') (e : Expression K) {m : Model K}
    (hm : m.Consistent c) (h : P m) : P ((e.evaluate c).run m).2 := by
  have hevaluate : ∀ p a, (Model.evaluate c p a).Within (Model.KeepsBoth c P) := by
    intro p a m hm h
    have hfour := Model.step_evaluate hm ⟨p, a⟩
    exact ⟨hfour.consistent hm, hstep hm h hfour⟩
  exact (e.within_of_step hevaluate m hm h).2

theorem Callee.within_evaluate (f : Callee K) : (f.evaluate c).Within (Model.Grows c) :=
  f.within_of_step Model.within_evaluate

/-- **Evaluation keeps a model consistent and only adds to it.** -/
theorem Expression.within_evaluate (e : Expression K) : (e.evaluate c).Within (Model.Grows c) :=
  e.within_of_step Model.within_evaluate

end

end TermEmbedding
