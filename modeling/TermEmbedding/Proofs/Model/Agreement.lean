import TermEmbedding.Proofs.Model.Reachable

/-!
# Evaluation and simulation agree about types

Evaluation looks results up before it checks anything, and it adds terms on the way. A simulation
checks everything, each time, and adds nothing. Nevertheless they agree on whether an expression
makes sense, on the type of its outcome and on what is wrong with it.

The two runs go through the expression side by side. What evaluation has found is related to what
the simulation has found by type and dimension, and the two models drift apart only in what does not
matter: evaluation adds rows, and the simulation draws noise.

## Vectors of the wrong dimension

A vector in an expression may have any number of entries, and neither run minds before it is used.
A result that is looked up cannot hide this, as all vectors in results have the right dimensions.
Marks can only be found on vectors that evaluation made, which have the right dimension as well;
this is what is asked of expressions here.
-/

namespace TermEmbedding

variable {K : Type}

/-! ## Runs side by side -/

/-- Two failures are of one kind: both refuse something, or both apply the same expression, which
stands for a vector. -/
def Failure.Alike (f g : Failure K) : Prop :=
  (f.IsRefusal ∧ g.IsRefusal) ∨
    ∃ callee, f = .vectorApplied .evaluating callee ∧ g = .vectorApplied .simulating callee

namespace Operation

variable {α β γ δ : Type} {m m' : Model K}

/-- Two runs both have answers, which are related, or fail alike. -/
def Agree (R : α → Model K → β → Model K → Prop) (x : Except (Failure K) α × Model K)
    (y : Except (Failure K) β × Model K) : Prop :=
  (∃ a m b m', x = (.ok a, m) ∧ y = (.ok b, m') ∧ R a m b m') ∨
    ∃ f m g m', x = (.error f, m) ∧ y = (.error g, m') ∧ f.Alike g

theorem Agree.imp {R S : α → Model K → β → Model K → Prop} {x : Except (Failure K) α × Model K}
    {y : Except (Failure K) β × Model K} (h : Agree R x y)
    (hRS : ∀ a m b m', R a m b m' → S a m b m') : Agree S x y := by
  rcases h with ⟨a, m, b, m', hx, hy, hR⟩ | hfail
  · exact .inl ⟨a, m, b, m', hx, hy, hRS a m b m' hR⟩
  · exact .inr hfail

theorem Agree.bind {R : α → Model K → β → Model K → Prop} {S : γ → Model K → δ → Model K → Prop}
    {x : Operation K α} {y : Operation K β} {f : α → Operation K γ} {g : β → Operation K δ}
    (h : Agree R (x.run m) (y.run m'))
    (hnext : ∀ a m₁ b m₁', x.run m = (.ok a, m₁) → R a m₁ b m₁' →
      Agree S ((f a).run m₁) ((g b).run m₁')) :
    Agree S ((x >>= f).run m) ((y >>= g).run m') := by
  rcases h with ⟨a, m₁, b, m₁', hx, hy, hR⟩ | ⟨e, m₁, e', m₁', hx, hy, hlike⟩
  · rw [run_bind_ok hx, run_bind_ok hy]
    exact hnext a m₁ b m₁' hx hR
  · rw [run_bind_error hx, run_bind_error hy]
    exact .inr ⟨e, m₁, e', m₁', rfl, rfl, hlike⟩

end Operation

namespace Model

open Operation

section

variable [BEq K] {c : Context} {m : Model K}

/-! ## What is related -/

/-- What an expression may refer to: known terms, and vectors that have the dimension of their type
if they have a mark. -/
def Offers (c : Context) (m : Model K) : TermReference K → Prop
  | .function p => m.Knows p
  | .vector t xs o => o = .anywhere ∨ c.full t = .ok xs.length

/-- Two models on the way from one model: evaluation has added to one of them, and a simulation has
drawn noise from the other one. -/
structure Beside (c : Context) (m m₁ m₂ : Model K) : Prop where
  start : Consistent c m
  grown : Consistent c m₁
  adds : Extends m m₁
  drawn : SameButNoise m m₂

/-- Vectors of the dimension of a type. -/
def HasDimension (c : Context) (t : TypeId) (v : Tensor K) : Prop :=
  ∃ n, c.full t = .ok n ∧ v.shape = [n]

/-- A known function beside a vector for it. -/
def CalleeRelated (c : Context) (m : Model K) (p : TermPointer) (m₁ : Model K)
    (f : TypedVector K) (m₂ : Model K) : Prop :=
  Beside c m m₁ m₂ ∧ f.typeId = p.typeId ∧ m₁.Knows p ∧ HasDimension c p.typeId f.entries

/-- A reference beside a vector for it. -/
def Related (c : Context) (m : Model K) (r : TermReference K) (m₁ : Model K)
    (x : TypedVector K) (m₂ : Model K) : Prop :=
  Beside c m m₁ m₂ ∧ x.typeId = r.typeId ∧
    ((m₁.Denotes c r ∧ HasDimension c r.typeId x.entries) ∨
      ∃ t xs, r = .vector t xs .anywhere ∧ x.entries = .ofList xs)

/-- A result of an application beside a vector for it. -/
def OutcomeRelated (c : Context) (m : Model K) (r : TermReference K) (m₁ : Model K)
    (x : TypedVector K) (m₂ : Model K) : Prop :=
  Beside c m m₁ m₂ ∧ x.typeId = r.typeId ∧ m₁.IsOutcome c r ∧ HasDimension c r.typeId x.entries

/-- Terms are given vectors of the dimensions of their types, and nothing but noise is drawn. -/
def Gives (c : Context) (m : Model K) (vectorOf : TermPointer → Operation K (Tensor K)) : Prop :=
  ∀ p, m.Knows p → ∀ m₂, SameButNoise m m₂ → ∃ v m₂', (vectorOf p).run m₂ = (.ok v, m₂') ∧
    SameButNoise m₂ m₂' ∧ HasDimension c p.typeId v

/-- A related argument has a vector in the model that evaluation works on, and it has the shape of
the vector in the simulation. -/
theorem Related.exists_meanOf {m₁ m₂ : Model K} {r : TermReference K} {x : TypedVector K}
    (h : Related c m r m₁ x m₂) :
    ∃ base, m₁.meanOf? r = some base ∧ base.shape = x.entries.shape := by
  obtain ⟨hbeside, htype, ⟨hdenotes, n, hfull, hshape⟩ | ⟨t, xs, rfl, hxs⟩⟩ := h
  · obtain ⟨base, n', hbase, hfull', hbaseshape⟩ := hbeside.grown.exists_meanOf hdenotes
    rw [hfull] at hfull'
    cases hfull'
    exact ⟨base, hbase, hbaseshape.trans hshape.symm⟩
  · exact ⟨_, rfl, by rw [hxs]⟩

private theorem TypedRow.fits_of_beq {m₁ m₂ : Model K} {result : TermReference K}
    {x : TypedVector K} {k a : Application K} (hrow : m₁.TypedRow c (k, result))
    (hk : (k == a) = true) (hr : Related c m a.argument m₁ x m₂) {n j : Nat} {A T : TypeId}
    (harrow : c.Arrow a.callee.typeId A T n j) :
    (x.typeId = A ∧ x.entries.shape = [n]) ∧ result.typeId = T := by
  obtain ⟨hcallee, hargument⟩ := Application.beq_iff.mp hk
  have hsig := hrow.signature
  rw [hcallee, harrow.signature] at hsig
  obtain ⟨rfl, rfl⟩ := Prod.mk.inj (Except.ok.inj hsig)
  obtain ⟨-, htype, hdimension⟩ := hr
  have hkey := TermReference.typeId_eq_of_beq hargument
  refine ⟨⟨htype.trans hkey.symm, ?_⟩, rfl⟩
  -- a vector that was only typed in shares its entries with the argument of the row
  rcases hdimension with ⟨-, n', hfull, hshape⟩ | ⟨t, xs, hvector, hxs⟩
  · rw [← hkey, harrow.argumentFull] at hfull
    cases hfull
    exact hshape
  · rw [hvector] at hargument
    obtain ⟨ys, o, hys, hentries⟩ := TermReference.exists_of_beq_vector hargument
    have hfull := hrow.argument
    have hn := harrow.argumentFull
    rw [hys] at hfull hn
    cases hn.symm.trans hfull
    rw [hxs, Tensor.shape_ofList, List.length_eq_of_beq hentries]

end

section

variable [Zero K] [One K] [Add K] [Mul K] {c : Context} {m : Model K}

/-! ## Applications of vectors -/

/-- A vector of a function type makes a matrix, so it is left to the features of the argument and to
the product whether it is applied to an argument of the right type. -/
private theorem run_applyVector {f x : TypedVector K} {t : TypeId} {n k : Nat}
    (harrow : c.Arrow f.typeId x.typeId t n k) (hf : f.entries.shape = [k * (n + 1)])
    (callee : Callee K) (argument : Expression K) (m : Model K) :
    ∃ matrix, f.entries.reshape? [k, n + 1] = some matrix ∧ matrix.shape = [k, n + 1] ∧
      (applyVector c callee f argument x).run m = (do
        let v ← matrix.matmul (← Context.FeatureSpace.features ⟨n⟩ x.entries)
        return ⟨t, ← expand c t v⟩ : Operation K (TypedVector K)).run m := by
  have hvolume : Tensor.volume f.entries.shape = Tensor.volume [k, n + 1] := by simp [hf]
  refine ⟨_, Tensor.reshape?_of_volume hvolume, rfl, ?_⟩
  rw [applyVector, run_bind_ok (run_type_ok harrow.signature m)]
  simp only [ne_eq, not_true_eq_false, if_false]
  rw [run_bind_ok (run_type_ok harrow.functionSpace m),
    run_bind_ok (run_type_ok harrow.featureSpace m)]
  dsimp only
  rw [Tensor.reshape?_of_volume hvolume]

theorem run_applyVector_ok [BEq K] (hm : Consistent c m) {f x : TypedVector K} {t : TypeId}
    {n k : Nat} (harrow : c.Arrow f.typeId x.typeId t n k) (hf : f.entries.shape = [k * (n + 1)])
    (hx : x.entries.shape = [n]) (callee : Callee K) (argument : Expression K) :
    ∃ matrix v w j, f.entries.reshape? [k, n + 1] = some matrix ∧
      matrix.matmul (.ofList (x.entries.toList ++ [1])) = .ok v ∧ Expands c m t v w ∧
      (applyVector c callee f argument x).run m = (.ok ⟨t, w⟩, m) ∧
      c.full t = .ok j ∧ w.shape = [j] := by
  obtain ⟨matrix, hmatrix, hshape, hrun⟩ := run_applyVector harrow hf callee argument m
  obtain ⟨v, hv, hvshape⟩ := Tensor.matmul_vector hshape (shape_features hx)
  obtain ⟨w, j, hexpands, hfull, hw⟩ := hm.exists_expands harrow hvshape
  refine ⟨matrix, v, w, j, hmatrix, hv, hexpands, ?_, hfull, hw⟩
  rw [hrun, run_bind_ok (run_except_ok (features_of_shape hx) m), run_bind_ok (run_linear_ok hv m),
    run_bind_ok (run_expand hexpands)]
  rfl

theorem run_applyVector_refused {f x : TypedVector K} {a t : TypeId} {n k : Nat}
    (harrow : c.Arrow f.typeId a t n k) (hf : f.entries.shape = [k * (n + 1)])
    (hx : ¬(x.typeId = a ∧ x.entries.shape = [n])) (callee : Callee K) (argument : Expression K)
    (m : Model K) : ∃ e : Failure K, (e.IsRefusal ∧ ∀ f j s, e ≠ .wrongSample f j s) ∧
      (applyVector c callee f argument x).run m = (.error e, m) := by
  by_cases htype : x.typeId = a
  · subst htype
    have hshape : x.entries.shape ≠ [n] := fun h ↦ hx ⟨rfl, h⟩
    obtain ⟨matrix, -, -, hrun⟩ := run_applyVector harrow hf callee argument m
    rw [hrun]
    exact ⟨.wrongBase n x.entries.shape, ⟨trivial, by rintro f j s ⟨⟩⟩,
      run_bind_error (run_except_error (features_of_shape_ne hshape) m) _⟩
  · rw [applyVector, run_bind_ok (run_type_ok harrow.signature m)]
    simp only [ne_eq, htype, not_false_eq_true, if_true]
    cases hdisplay : c.display f.typeId with
    | error e =>
      exact ⟨.type e, ⟨trivial, by rintro f j s ⟨⟩⟩, run_bind_error (run_type_error rfl m) _⟩
    | ok text =>
      refine ⟨.wrongArgument callee text argument x.typeId, ⟨trivial, by rintro f j s ⟨⟩⟩, ?_⟩
      rw [run_bind_ok (run_type_ok rfl m)]
      rfl

/-! ## Applications side by side -/

private theorem Related.fits_of_maps [BEq K] {m₁ m₂ : Model K} {x : TypedVector K}
    {a : Application K}
    (hr : Related c m a.argument m₁ x m₂) {n j : Nat} {A T t : TypeId} {v : Tensor K}
    (harrow : c.Arrow a.callee.typeId A T n j) (hmaps : Maps c m₁ a t v) :
    x.typeId = A ∧ x.entries.shape = [n] := by
  obtain ⟨e, base, n', k, harrow', -, hbase, hshape, -, -⟩ := hmaps
  obtain ⟨base', hbase', hshape'⟩ := hr.exists_meanOf
  cases hbase.symm.trans hbase'
  cases harrow.signature.symm.trans harrow'.signature
  cases harrow.argumentFull.symm.trans harrow'.argumentFull
  exact ⟨hr.2.1, hshape'.symm.trans hshape⟩

variable [Numbers K]

/-- The result of an application stands in a row of an application of the same types. -/
theorem Step.exists_row {a : Application K} {r : TermReference K} {m' : Model K}
    (h : Step c m a (.ok r, m')) : ∃ k, (k, r) ∈ m'.results ∧ k.callee = a.callee ∧
      k.argument.typeId = a.argument.typeId := by
  cases h with
  | known hget =>
    obtain ⟨k, hmem, hk⟩ := Table.exists_mem_of_get? hget
    obtain ⟨hcallee, hargument⟩ := Application.beq_iff.mp hk
    exact ⟨k, hmem, hcallee, TermReference.typeId_eq_of_beq hargument⟩
  | vector => exact ⟨a, List.mem_append_right _ (List.mem_singleton_self _), rfl, rfl⟩
  | function => exact ⟨a, List.mem_append_right _ (List.mem_singleton_self _), rfl, rfl⟩

theorem Consistent.exists_evaluated (hm : Consistent c m) {a : Application K} {T : TypeId}
    {n k : Nat} {base : Tensor K} (hknows : m.Knows a.callee)
    (harrow : c.Arrow a.callee.typeId a.argument.typeId T n k)
    (hbase : m.meanOf? a.argument = some base) (hshape : base.shape = [n]) :
    ∃ r m', (evaluate c a.callee a.argument).run m = (.ok r, m') ∧ Consistent c m' ∧
      Extends m m' ∧ r.typeId = T ∧ m'.IsOutcome c r := by
  have hstep := step_evaluate hm a
  rcases hrun : (evaluate c a.callee a.argument).run m with ⟨f | r, m'⟩
  · rw [hrun] at hstep
    cases hstep with
    | refused _ hnot _ =>
      obtain ⟨v, hv⟩ := hm.exists_maps hknows harrow.signature hbase harrow.argumentFull hshape
      exact absurd hv (hnot T v)
  · rw [hrun] at hstep
    have hnext := hstep.consistent hm
    obtain ⟨key, hmem, hcallee, hargument⟩ := hstep.exists_row
    have hrow := hnext.results _ hmem
    have hsig := hrow.signature
    rw [hcallee, harrow.signature] at hsig
    obtain ⟨-, rfl⟩ := Prod.mk.inj (Except.ok.inj hsig)
    exact ⟨r, m', rfl, hnext, hstep.extends, rfl, hrow.result⟩

/-- A function that is applied to something of another type or size is refused. A row that is found
would have passed the checks. -/
private theorem Related.exists_refusal {m₁ m₂ : Model K} {x : TypedVector K} {a : Application K}
    (hx : Related c m a.argument m₁ x m₂) {A T : TypeId} {n k : Nat}
    (harrow : c.Arrow a.callee.typeId A T n k) (hnot : ¬(x.typeId = A ∧ x.entries.shape = [n])) :
    ∃ (f : Failure K) (m' : Model K), f.IsRefusal ∧
      (evaluate c a.callee a.argument).run m₁ = (.error f, m') := by
  have hgrown := hx.1.grown
  have hstep := step_evaluate hgrown a
  rcases hrun : (evaluate c a.callee a.argument).run m₁ with ⟨result, m'⟩
  rw [hrun] at hstep
  cases hstep with
  | known hget =>
    obtain ⟨key, hmem, hkey⟩ := Table.exists_mem_of_get? hget
    exact absurd ((hgrown.results _ hmem).fits_of_beq hkey hx harrow).1 hnot
  | refused _ _ hf => exact ⟨_, _, hf, rfl⟩
  | vector _ hmaps _ => exact absurd (hx.fits_of_maps harrow hmaps) hnot
  | function _ hmaps _ _ _ _ => exact absurd (hx.fits_of_maps harrow hmaps) hnot

/-- **An application of related parts is evaluated and simulated alike.** -/
theorem agree_application {m₁ m₂ : Model K} {p : TermPointer} {f : TypedVector K}
    {r : TermReference K} {x : TypedVector K} (hf : CalleeRelated c m p m₁ f m₂)
    (hx : Related c m r m₁ x m₂) (callee : Callee K) (argument : Expression K) :
    Agree (OutcomeRelated c m) ((evaluate c p r).run m₁)
      ((applyVector c callee f argument x).run m₂) := by
  obtain ⟨hbeside, hftype, hknows, full, hfull, hfshape⟩ := hf
  obtain ⟨e, A, T, n, k, -, harrow, -, -⟩ := hbeside.grown.exists_mean hknows
  cases hfull.symm.trans harrow.full
  -- the split is on the checks of the simulation, which evaluation makes later or never
  by_cases hfits : x.typeId = A ∧ x.entries.shape = [n]
  · obtain ⟨rfl, hshape⟩ := hfits
    have hm₂ : Consistent c m₂ := hbeside.start.sameButNoise hbeside.drawn
    obtain ⟨matrix, v, w, j, -, -, -, hsimulate, hwfull, hwshape⟩ :=
      run_applyVector_ok hm₂ (hftype ▸ harrow) hfshape hshape callee argument
    obtain ⟨base, hbase, hbaseshape⟩ := hx.exists_meanOf
    obtain ⟨r', m₁', hevaluate, hnext, hext, rfl, houtcome⟩ :=
      hbeside.grown.exists_evaluated (a := ⟨p, r⟩) hknows (hx.2.1 ▸ harrow) hbase
        (hbaseshape.trans hshape)
    exact .inl ⟨r', m₁', ⟨r'.typeId, w⟩, m₂, hevaluate, hsimulate,
      ⟨hbeside.start, hnext, hbeside.adds.trans hext, hbeside.drawn⟩, rfl, houtcome, j, hwfull,
      hwshape⟩
  · obtain ⟨f', m₁', hf', hevaluate⟩ := hx.exists_refusal (a := ⟨p, r⟩) harrow hfits
    obtain ⟨g, ⟨hg, -⟩, hsimulate⟩ :=
      run_applyVector_refused (hftype ▸ harrow) hfshape hfits callee argument m₂
    exact .inr ⟨f', m₁', g, m₂, hevaluate, hsimulate, .inl ⟨hf', hg⟩⟩

end

end Model

/-! ## Expressions -/

mutual

/-- The references in what is applied, from the left. -/
def Callee.references : Callee K → List (TermReference K)
  | .term p => [.function p]
  | .application f x => f.references ++ x.references

/-- The references in an expression, from the left. -/
def Expression.references : Expression K → List (TermReference K)
  | .reference r => [r]
  | .application f x => f.references ++ x.references

end

theorem Expression.references_of_callee? {e : Expression K} {f : Callee K}
    (h : e.callee? = some f) : f.references = e.references := by
  cases e with
  | application g x =>
    cases h
    rfl
  | reference r =>
    cases r with
    | function p =>
      cases h
      rfl
    | vector t xs o => cases h

section

open Operation

variable {c : Context} {m : Model K} {vectorOf : TermPointer → Operation K (Tensor K)}

private theorem Model.Gives.exists_run [BEq K] (h : m.Gives c vectorOf) {p : TermPointer}
    (hp : m.Knows p) {m₁ m₂ : Model K} (hbeside : m.Beside c m₁ m₂) : ∃ v m₂',
      ((do return ⟨p.typeId, ← vectorOf p⟩ : Operation K (TypedVector K)).run m₂ =
        (.ok ⟨p.typeId, v⟩, m₂')) ∧ m.Beside c m₁ m₂' ∧ Model.HasDimension c p.typeId v := by
  obtain ⟨v, m₂', hrun, hdrawn, hdimension⟩ := h p hp m₂ hbeside.drawn
  refine ⟨v, m₂', run_bind_ok hrun _, ?_, hdimension⟩
  exact ⟨hbeside.start, hbeside.grown, hbeside.adds, IsTrans.trans _ _ _ hbeside.drawn hdrawn⟩

variable [Zero K] [One K] [Add K] [Mul K]

/-- What is applied is evaluated as an expression, and what comes of it must be a function. -/
theorem Callee.evaluate_application [Numbers K] (f : Callee K) (x : Expression K) :
    (Callee.application f x).evaluate c = (do
      match ← (Expression.application f x).evaluate c with
      | .function result => return result
      | .vector _ _ _ => throw (.vectorApplied .evaluating (.application f x))) := by
  rw [Callee.evaluate, Expression.evaluate, bind_assoc]
  refine bind_congr fun p ↦ ?_
  exact (bind_assoc _ _ _).symm

theorem Callee.simulate_application (f : Callee K) (x : Expression K) :
    (Callee.application f x).simulate vectorOf c = (do
      let result ← (Expression.application f x).simulate vectorOf c
      if ← c.isVector result.typeId then
        throw (.vectorApplied .simulating (.application f x))
      return result) := by
  rw [Callee.simulate, Expression.simulate, bind_assoc]
  refine bind_congr fun v ↦ ?_
  exact (bind_assoc _ _ _).symm

variable [Numbers K]

/-- A function keeps its vector while an argument is evaluated and simulated. -/
theorem Model.CalleeRelated.of_run {p : TermPointer} {v : TypedVector K} {x : Expression K}
    {r : TermReference K} {m₁ m₂ m₃ m₄ : Model K} (hp : m.CalleeRelated c p m₁ v m₂)
    (hrun : (x.evaluate c).run m₁ = (.ok r, m₃)) (hbeside : m.Beside c m₃ m₄) :
    m.CalleeRelated c p m₃ v m₄ := by
  have hgrows := (x.within_evaluate (c := c) m₁ hp.1.grown).2
  rw [hrun] at hgrows
  exact ⟨hbeside, hp.2.1, hgrows.knows p hp.2.2.1, hp.2.2.2⟩

private theorem Expression.agree_of_parts {f : Callee K} {x : Expression K} {m₁ m₂ : Model K}
    (hf : Agree (m.CalleeRelated c) ((f.evaluate c).run m₁) ((f.simulate vectorOf c).run m₂))
    (hx : ∀ m₃ m₄ : Model K, m.Beside c m₃ m₄ →
      Agree (m.Related c) ((x.evaluate c).run m₃) ((x.simulate vectorOf c).run m₄)) :
    Agree (m.OutcomeRelated c) (((Expression.application f x).evaluate c).run m₁)
      (((Expression.application f x).simulate vectorOf c).run m₂) := by
  rw [Expression.evaluate, Expression.simulate]
  refine hf.bind fun p m₃ v m₄ _ hp ↦ ?_
  refine (hx m₃ m₄ hp.1).bind fun r m₅ y m₆ hrun hr ↦ ?_
  exact Model.agree_application (hp.of_run hrun hr.1) hr f x

mutual

theorem Callee.agree (hgives : m.Gives c vectorOf) : (f : Callee K) →
    (∀ r ∈ f.references, m.Offers c r) → ∀ m₁ m₂ : Model K, m.Beside c m₁ m₂ →
      Agree (m.CalleeRelated c) ((f.evaluate c).run m₁) ((f.simulate vectorOf c).run m₂)
  | .term p, hrefs, m₁, m₂, hbeside => by
    have hp : m.Knows p := hrefs (.function p) (List.mem_singleton_self _)
    obtain ⟨v, m₂', hrun, hbeside', hdimension⟩ := hgives.exists_run hp hbeside
    exact .inl ⟨p, m₁, ⟨p.typeId, v⟩, m₂', rfl, hrun, hbeside', rfl, hbeside.adds.knows p hp,
      hdimension⟩
  | .application f x, hrefs, m₁, m₂, hbeside => by
    rw [Callee.evaluate_application, Callee.simulate_application]
    have hf := Callee.agree hgives f fun r hr ↦ hrefs r (List.mem_append_left _ hr)
    have hx := Expression.agree hgives x fun r hr ↦ hrefs r (List.mem_append_right _ hr)
    refine (Expression.agree_of_parts (hf _ _ hbeside) hx).bind ?_
    rintro result m₃ w m₄ - ⟨hbeside', htype, houtcome, hdimension⟩
    cases result with
    | function q =>
      have hfun : c.isVector w.typeId = .ok false := htype ▸ houtcome.1
      rw [run_bind_ok (run_type_ok hfun m₄)]
      exact .inl ⟨q, m₃, w, m₄, rfl, rfl, hbeside', htype, houtcome.2.1, hdimension⟩
    | vector t xs o =>
      have hvec : c.isVector w.typeId = .ok true := htype ▸ houtcome.1
      rw [run_bind_ok (run_type_ok hvec m₄)]
      -- both runs refuse to apply a vector, and they name the same expression
      exact .inr ⟨_, m₃, _, m₄, rfl, rfl, .inr ⟨.application f x, rfl, rfl⟩⟩

/-- **Evaluation and simulation of an expression go side by side**, from any two models on the
way. -/
theorem Expression.agree (hgives : m.Gives c vectorOf) : (e : Expression K) →
    (∀ r ∈ e.references, m.Offers c r) → ∀ m₁ m₂ : Model K, m.Beside c m₁ m₂ →
      Agree (m.Related c) ((e.evaluate c).run m₁) ((e.simulate vectorOf c).run m₂)
  | .reference (.function p), hrefs, m₁, m₂, hbeside => by
    have hp : m.Knows p := hrefs (.function p) (List.mem_singleton_self _)
    obtain ⟨v, m₂', hrun, hbeside', hdimension⟩ := hgives.exists_run hp hbeside
    exact .inl ⟨.function p, m₁, ⟨p.typeId, v⟩, m₂', rfl, hrun, hbeside', rfl,
      .inl ⟨hbeside.adds.knows p hp, hdimension⟩⟩
  | .reference (.vector t xs o), hrefs, m₁, m₂, hbeside => by
    refine .inl ⟨.vector t xs o, m₁, ⟨t, .ofList xs⟩, m₂, rfl, rfl, hbeside, rfl, ?_⟩
    rcases hrefs (.vector t xs o) (List.mem_singleton_self _) with rfl | hfull
    · exact .inr ⟨t, xs, rfl, rfl⟩
    · exact .inl ⟨hfull, xs.length, hfull, rfl⟩
  | .application f x, hrefs, m₁, m₂, hbeside => by
    have hf := Callee.agree hgives f fun r hr ↦ hrefs r (List.mem_append_left _ hr)
    have hx := Expression.agree hgives x fun r hr ↦ hrefs r (List.mem_append_right _ hr)
    refine (Expression.agree_of_parts (hf _ _ hbeside) hx).imp ?_
    rintro r m₃ v m₄ ⟨hbeside', htype, houtcome, hdimension⟩
    exact ⟨hbeside', htype, .inl ⟨houtcome.denotes, hdimension⟩⟩

end

end

/-! ## Types from the ontology -/

/-- The type of a function of one type that is applied to an argument of another one. -/
def Context.applied? (c : Context) (function argument : TypeId) : Option TypeId :=
  match c.signature function with
  | .ok (expected, result) => if argument = expected then some result else none
  | .error _ => none

mutual

/-- The type of what is applied, from the types of its parts. -/
def Callee.typeOf? (c : Context) : Callee K → Option TypeId
  | .term p => some p.typeId
  | .application f x => do c.applied? (← f.typeOf? c) (← x.typeOf? c)

/-- The type of an expression, from the types of its parts. -/
def Expression.typeOf? (c : Context) : Expression K → Option TypeId
  | .reference r => some r.typeId
  | .application f x => do c.applied? (← f.typeOf? c) (← x.typeOf? c)

end

section

open Operation

variable [Zero K] [One K] [Add K] [Mul K] [Numbers K] {c : Context} {m m' : Model K}

theorem Model.applied?_of_evaluate (hm : Consistent c m) {p : TermPointer}
    {argument r : TermReference K} (h : (Model.evaluate c p argument).run m = (.ok r, m')) :
    c.applied? p.typeId argument.typeId = some r.typeId := by
  have hstep := step_evaluate hm ⟨p, argument⟩
  rw [h] at hstep
  obtain ⟨k, hmem, hcallee, htype⟩ := hstep.exists_row
  have hsig := ((hstep.consistent hm).results _ hmem).signature
  rw [hcallee, htype] at hsig
  rw [Context.applied?, hsig]
  exact if_pos rfl

theorem Callee.consistent_of_run (hm : m.Consistent c) {f : Callee K} {p : TermPointer}
    (h : (f.evaluate c).run m = (.ok p, m')) : m'.Consistent c := by
  have hgrows := (f.within_evaluate (c := c) m hm).1
  rw [h] at hgrows
  exact hgrows

theorem Expression.consistent_of_run (hm : m.Consistent c) {e : Expression K}
    {r : TermReference K} (h : (e.evaluate c).run m = (.ok r, m')) : m'.Consistent c := by
  have hgrows := (e.within_evaluate (c := c) m hm).1
  rw [h] at hgrows
  exact hgrows

theorem Expression.exists_of_run_application {f : Callee K} {x : Expression K}
    {r : TermReference K} (h : ((Expression.application f x).evaluate c).run m = (.ok r, m')) :
    ∃ p m₁ a m₂, (f.evaluate c).run m = (.ok p, m₁) ∧ (x.evaluate c).run m₁ = (.ok a, m₂) ∧
      (Model.evaluate c p a).run m₂ = (.ok r, m') := by
  rw [Expression.evaluate] at h
  obtain ⟨p, m₁, hp, h⟩ := exists_of_run_bind_ok h
  obtain ⟨a, m₂, ha, h⟩ := exists_of_run_bind_ok h
  exact ⟨p, m₁, a, m₂, hp, ha, h⟩

theorem Callee.run_application_of_ok {f : Callee K} {x : Expression K} {p : TermPointer}
    (h : ((Callee.application f x).evaluate c).run m = (.ok p, m')) :
    ((Expression.application f x).evaluate c).run m = (.ok (.function p), m') := by
  rw [Callee.evaluate_application] at h
  obtain ⟨r, m₁, hr, h⟩ := exists_of_run_bind_ok h
  cases r with
  | function q =>
    cases h
    exact hr
  | vector t xs o => cases h

mutual

theorem Callee.typeOf?_of_run : (f : Callee K) → ∀ {m m' : Model K} {p : TermPointer},
    m.Consistent c → (f.evaluate c).run m = (.ok p, m') → f.typeOf? c = some p.typeId
  | .term p, m, m', q, _, h => by
    cases h
    rfl
  | .application f x, m, m', q, hm, h => by
    obtain ⟨p, m₁, a, m₂, hp, ha, hq⟩ :=
      Expression.exists_of_run_application (Callee.run_application_of_ok h)
    have hm₁ := Callee.consistent_of_run hm hp
    rw [Callee.typeOf?, Callee.typeOf?_of_run f hm hp, Expression.typeOf?_of_run x hm₁ ha]
    exact Model.applied?_of_evaluate (Expression.consistent_of_run hm₁ ha) hq

/-- **The outcome of an evaluation has the type that the ontology gives to the expression.** -/
theorem Expression.typeOf?_of_run : (e : Expression K) → ∀ {m m' : Model K} {r : TermReference K},
    m.Consistent c → (e.evaluate c).run m = (.ok r, m') → e.typeOf? c = some r.typeId
  | .reference r, m, m', r', _, h => by
    cases h
    rfl
  | .application f x, m, m', r, hm, h => by
    obtain ⟨p, m₁, a, m₂, hp, ha, hr⟩ := Expression.exists_of_run_application h
    have hm₁ := Callee.consistent_of_run hm hp
    rw [Expression.typeOf?, Callee.typeOf?_of_run f hm hp, Expression.typeOf?_of_run x hm₁ ha]
    exact Model.applied?_of_evaluate (Expression.consistent_of_run hm₁ ha) hr

end

end

/-! ## Draws from the beliefs -/

theorem Embedding.Fits.exists_sample [Zero K] [One K] [Add K] [Mul K] [Routines K]
    [Routines.Shaped K] {e : Embedding K} {s : Context.FunctionSpace} (h : e.Fits s)
    {root : Tensor K} (hroot : Routines.inverse e.precision >>= Routines.lowerRoot = .ok root)
    (source : NoiseSource K) (state : Int) :
    ∃ v next, e.sample source state = (.ok v, next) ∧ v.shape = [s.output * s.features] := by
  obtain ⟨inverse, hinverse, hlower⟩ := exists_of_bind_eq_ok hroot
  have hshape : root.transpose.shape = [s.features, s.features] := by
    rw [Tensor.shape_transpose, Routines.Shaped.lowerRoot hlower, Routines.Shaped.inverse hinverse,
      h.precision]
    rfl
  obtain ⟨deviation, hdeviation, hdshape⟩ := Tensor.matmul_matrix
    (a := (source.drawArray e.mean.shape state).1) h.mean hshape
  obtain ⟨sum, hsum, hsumshape⟩ := Tensor.add_of_shape (h.mean.trans hdshape.symm)
  refine ⟨sum.flatten, (source.drawArray e.mean.shape state).2, ?_, ?_⟩
  · rw [sample, hroot]
    dsimp only
    rw [hdeviation, bind_ok rfl, hsum]
    rfl
  · rw [Tensor.shape_flatten, hsumshape, h.mean]
    simp

namespace Model

open Operation

/-- If terms have draws, they have them whatever the state of the source of noise, and the draws
have the dimensions of the types. -/
private theorem Consistent.gives_sample [Zero K] [One K] [Add K] [Mul K] [Numbers K]
    [Routines.Shaped K] {c : Context} {m : Model K} (hm : Consistent c m) {source : NoiseSource K}
    (hsample : ∀ p, m.Knows p → ∃ v m', (sample source p).run m = (.ok v, m')) :
    Gives c m (sample source) := by
  intro p hp m₂ hdrawn
  obtain ⟨state, rfl⟩ := hdrawn
  obtain ⟨e, a, r, n, k, he, harrow, hfits, -⟩ := hm.exists_mean hp
  obtain ⟨v, m', hrun⟩ := hsample p hp
  rw [sample, run_bind_ok (run_embedding_some he), run_bind_ok (run_get m)] at hrun
  have he' : Table.get? { m with noise := state }.embeddings p = some e := he
  rw [sample, run_bind_ok (run_embedding_some he'), run_bind_ok (run_get _)]
  -- whether there is a draw is decided by the precision, which both models share
  cases hroot : Routines.inverse e.precision >>= Routines.lowerRoot with
  | error err =>
    rw [Embedding.sample, hroot] at hrun
    cases hrun
  | ok root =>
    obtain ⟨w, next, hw, hshape⟩ := hfits.exists_sample hroot source state
    rw [hw]
    exact ⟨w, _, rfl, ⟨next, rfl⟩, _, harrow.full, hshape⟩

/-- **Evaluation and simulation agree about every expression.** If terms have draws, either both
have an outcome and the outcomes have one type, or they fail alike. The outcome of an application
has the type that the ontology gives to it: the simulated vector has the dimension of the type, and
the evaluated reference is a vector exactly if the type is one of vectors.

Vectors of numbers may have any length. A marked vector, which holds something that is no number,
came up somewhere, and there it had the dimension of its type. -/
theorem evaluate_simulate_agree [Routines Float] [Routines.Shaped Float]
    {source : NoiseSource Float} {c : Context} {m : Model Float} (h : Reachable source c m)
    {e : Expression Float} (hknown : ∀ p, .function p ∈ e.references → m.Knows p)
    (hmarked : ∀ t xs o, .vector t xs o ∈ e.references →
      o = .anywhere ∨ c.full t = .ok xs.length)
    (hsample : ∀ p, m.Knows p → ∃ v m', (sample source p).run m = (.ok v, m')) :
    (∃ r m₁ v m₂, (e.evaluate c).run m = (.ok r, m₁) ∧
      (e.simulate (sample source) c).run m = (.ok v, m₂) ∧ v.typeId = r.typeId ∧
      ∀ f x, e = .application f x →
        e.typeOf? c = some r.typeId ∧ c.full r.typeId = .ok v.entries.toList.length ∧
        v.entries.shape = [v.entries.toList.length] ∧
        ((∃ t xs o, r = .vector t xs o) ↔ c.isVector r.typeId = .ok true)) ∨
    ∃ f m₁ g m₂, (e.evaluate c).run m = (.error f, m₁) ∧
      (e.simulate (sample source) c).run m = (.error g, m₂) ∧ f.Alike g := by
  have hm := h.consistent
  have hgives := hm.gives_sample hsample
  have hbeside : Beside c m m m := ⟨hm, hm, .refl m, m.noise, rfl⟩
  have hoffers : ∀ r ∈ e.references, m.Offers c r := by
    intro r hr
    cases r with
    | function p => exact hknown p hr
    | vector t xs o => exact hmarked t xs o hr
  -- only applications have outcomes, so the parts are related and not the expression itself
  cases e with
  | reference r =>
    rcases Expression.agree hgives _ hoffers _ _ hbeside with
      ⟨r', m₁, v, m₂, he, hs, -, htype, -⟩ | hfail
    · exact .inl ⟨r', m₁, v, m₂, he, hs, htype, fun f x heq ↦ by cases heq⟩
    · exact .inr hfail
  | application f x =>
    have hf := Callee.agree hgives f fun r hr ↦ hoffers r (List.mem_append_left _ hr)
    have hx := Expression.agree hgives x fun r hr ↦ hoffers r (List.mem_append_right _ hr)
    rcases Expression.agree_of_parts (hf _ _ hbeside) hx with
      ⟨r, m₁, v, m₂, he, hs, -, htype, houtcome, n, hfull, hshape⟩ | hfail
    · have hlength : v.entries.toList.length = n := by simp [hshape]
      refine .inl ⟨r, m₁, v, m₂, he, hs, htype, fun f' x' heq ↦ ?_⟩
      refine ⟨Expression.typeOf?_of_run _ hm he, hlength ▸ hfull, hlength ▸ hshape, ?_⟩
      cases r with
      | function q =>
        have hfun : c.isVector q.typeId = .ok false := houtcome.1
        refine iff_of_false (by rintro ⟨t, xs, o, ⟨⟩⟩) ?_
        rw [show TermReference.typeId (K := Float) (.function q) = q.typeId from rfl, hfun]
        rintro ⟨⟩
      | vector t xs o => exact iff_of_true ⟨t, xs, o, rfl⟩ houtcome.1
    · exact .inr hfail

/-- In a new model a number that a function is applied to is evaluated and simulated. -/
theorem evaluate_simulate_agree_line : ∃ m, Reachable (.tape #[20.0]) .line m ∧
    ((∃ r m₁ v m₂, ((lineApplication 1.0).evaluate .line).run m = (.ok r, m₁) ∧
      ((lineApplication 1.0).simulate (sample (.tape #[20.0])) .line).run m = (.ok v, m₂) ∧
      v.typeId = r.typeId) ∨
    ∃ f m₁ g m₂, ((lineApplication 1.0).evaluate .line).run m = (.error f, m₁) ∧
      ((lineApplication 1.0).simulate (sample (.tape #[20.0])) .line).run m = (.error g, m₂) ∧
      f.Alike g) := by
  have hfacts : (Model.fresh (.tape #[20.0]) .line .unspecified).toOption.map (fun m ↦
      (m.embeddings.map (·.1),
        ((sample (.tape #[20.0]) ⟨1, .primitive 0⟩).run m).1.toOption.isSome)) =
      some ([⟨1, .primitive 0⟩], true) := by
    decide +kernel
  obtain ⟨m, hfresh, hfacts⟩ := exists_of_map_toOption_eq_some hfacts
  obtain ⟨hterms, hdraw⟩ := Prod.mk.inj hfacts
  have hknows : ∀ p, m.Knows p ↔ p = ⟨1, .primitive 0⟩ := by
    intro p
    rw [Knows, Table.isSome_get?_iff, hterms, List.mem_singleton]
  have hsample : ∀ p, m.Knows p → ∃ v m', (sample (.tape #[20.0]) p).run m = (.ok v, m') := by
    intro p hp
    rw [(hknows p).mp hp]
    rcases hrun : (sample (.tape #[20.0]) ⟨1, .primitive 0⟩).run m with ⟨f | v, m'⟩
    · rw [hrun] at hdraw
      cases hdraw
    · exact ⟨v, m', rfl⟩
  have hrefs : (lineApplication 1.0).references =
      [.function ⟨1, .primitive 0⟩, .vector 0 [1.0] .anywhere] := rfl
  have hknown : ∀ p, .function p ∈ (lineApplication 1.0).references → m.Knows p := by
    intro p hp
    rw [hrefs] at hp
    exact (hknows p).mpr (by simpa using hp)
  have hmarked : ∀ t xs o, .vector t xs o ∈ (lineApplication 1.0).references →
      o = .anywhere ∨ Context.line.full t = .ok xs.length := by
    intro t xs o ho
    rw [hrefs] at ho
    exact .inl (by simp at ho; exact ho.2.2)
  refine ⟨m, .fresh hfresh, ?_⟩
  rcases evaluate_simulate_agree (.fresh hfresh) hknown hmarked hsample with
    ⟨r, m₁, v, m₂, he, hs, htype, -⟩ | hfail
  · exact .inl ⟨r, m₁, v, m₂, he, hs, htype⟩
  · exact .inr hfail

end Model

end TermEmbedding
