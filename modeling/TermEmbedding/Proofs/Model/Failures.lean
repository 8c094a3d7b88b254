import TermEmbedding.Proofs.Linear.Failures
import TermEmbedding.Proofs.Model.Agreement
import TermEmbedding.Session.Failure

/-!
# How operations fail

An operation answers or fails, and there are few ways in which it fails in a consistent model. An
evaluation refuses or applies a vector. A simulation may in addition find no draw from a belief,
which is a failure of arithmetic. A new model may fail in both ways.

What an operation does is said once for each of its parts: from a model with a property it either
answers, keeps the property and has an answer of some kind, or it fails in one of some ways.
-/

namespace TermEmbedding

variable {K : Type}

/-- Whether a failure is one of arithmetic. -/
def Failure.IsArithmetic (f : Failure K) : Prop := ∃ e, f = .linear e

/-- Whether a failure is explained to the user or one of arithmetic. -/
def Failure.IsOrdinary (f : Failure K) : Prop := f.kind? = none → f.IsArithmetic

private theorem Failure.kind?_of_isRefusal {f : Failure K} (h : f.IsRefusal) :
    f.kind? = some .evaluation := by
  cases f with
  | type | noTerm | noElaborator | wrongArgument | wrongBase | wrongSample => rfl
  | vectorApplied | linear | noResult | badSeed => cases h

theorem Failure.IsRefusal.isOrdinary {f : Failure K} (h : f.IsRefusal) : f.IsOrdinary := by
  intro hkind
  rw [Failure.kind?_of_isRefusal h] at hkind
  cases hkind

private theorem Failure.isOrdinary_linear (e : LinearError) :
    (Failure.linear e : Failure K).IsOrdinary :=
  fun _ ↦ ⟨e, rfl⟩

namespace Operation

variable {α β : Type} {I : Model K → Prop} {P : Failure K → Prop} {Q R : α → Prop}
  {S : β → Prop}

/-- From every model with a property, an operation answers and keeps the property, or it fails in
one of some ways. -/
def Meets (I : Model K → Prop) (P : Failure K → Prop) (Q : α → Prop) (x : Operation K α) : Prop :=
  ∀ m, I m → (∃ a m', x.run m = (.ok a, m') ∧ I m' ∧ Q a) ∨
    ∃ f m', x.run m = (.error f, m') ∧ P f

theorem meets_pure {a : α} (h : Q a) : (pure a : Operation K α).Meets I P Q :=
  fun m hm ↦ .inl ⟨a, m, rfl, hm, h⟩

private theorem meets_throw {f : Failure K} (h : P f) : (throw f : Operation K α).Meets I P Q :=
  fun m _ ↦ .inr ⟨f, m, rfl, h⟩

theorem meets_get : (get : Operation K (Model K)).Meets I P I := fun m hm ↦ .inl ⟨m, m, rfl, hm, hm⟩

theorem Meets.bind {x : Operation K α} {f : α → Operation K β} (hx : x.Meets I P Q)
    (hf : ∀ a, Q a → (f a).Meets I P S) : (x >>= f).Meets I P S := by
  intro m hm
  rcases hx m hm with ⟨a, m', hrun, hm', ha⟩ | ⟨e, m', hrun, he⟩
  · rw [run_bind_ok hrun]
    exact hf a ha m' hm'
  · rw [run_bind_error hrun]
    exact .inr ⟨e, m', rfl, he⟩

theorem Meets.imp {x : Operation K α} (h : x.Meets I P Q) (hQR : ∀ a, Q a → R a) :
    x.Meets I P R := by
  intro m hm
  rcases h m hm with ⟨a, m', hrun, hm', ha⟩ | hfail
  · exact .inl ⟨a, m', hrun, hm', hQR a ha⟩
  · exact .inr hfail

theorem Meets.of_error {x : Operation K α} (h : x.Meets I P Q) {m m' : Model K} (hm : I m)
    {f : Failure K} (hrun : x.run m = (.error f, m')) : P f := by
  rcases h m hm with ⟨a, m₁, hok, -⟩ | ⟨g, m₁, herror, hg⟩
  · cases hrun.symm.trans hok
  · cases hrun.symm.trans herror
    exact hg

theorem Meets.of_ok {x : Operation K α} (h : x.Meets I P Q) {m m' : Model K} (hm : I m)
    {a : α} (hrun : x.run m = (.ok a, m')) : Q a := by
  rcases h m hm with ⟨b, m₁, hok, -, hb⟩ | ⟨g, m₁, herror, -⟩
  · cases hrun.symm.trans hok
    exact hb
  · cases hrun.symm.trans herror

private theorem meets_type (x : Except Context.TypeFault α) (h : ∀ e, P (.type e)) :
    Meets I P (fun a ↦ x = .ok a) (liftM x : Operation K α) := by
  intro m hm
  cases x with
  | error e => exact .inr ⟨.type e, m, run_type_error rfl m, h e⟩
  | ok a => exact .inl ⟨a, m, run_type_ok rfl m, hm, rfl⟩

theorem meets_linear_ok {x : Except LinearError α} {a : α} (h : x = .ok a) (ha : Q a) :
    Meets I P Q (liftM x : Operation K α) :=
  fun m hm ↦ .inl ⟨a, m, run_linear_ok h m, hm, ha⟩

theorem meets_linear_only {e : LinearError} {x : Except LinearError α}
    (h : ErrorsOnly (· = e) x) (ha : ∀ a, x = .ok a → Q a) (he : P (.linear e)) :
    Meets I P Q (liftM x : Operation K α) := by
  intro m hm
  cases hx : x with
  | error e' =>
    obtain rfl := h e' hx
    exact .inr ⟨.linear e', m, rfl, he⟩
  | ok a => exact .inl ⟨a, m, rfl, hm, ha a hx⟩

theorem meets_mapM {f : β → Operation K α} {xs : List β} (h : ∀ x ∈ xs, (f x).Meets I P Q) :
    (xs.mapM f).Meets I P fun ys ↦ ys.length = xs.length ∧ ∀ y ∈ ys, Q y := by
  induction xs with
  | nil => exact meets_pure ⟨rfl, List.forall_mem_nil _⟩
  | cons x xs ih =>
    rw [List.forall_mem_cons] at h
    rw [List.mapM_cons]
    refine h.1.bind fun y hy ↦ (ih h.2).bind fun ys hys ↦ meets_pure ⟨?_, ?_⟩
    · rw [List.length_cons, List.length_cons, hys.1]
    · exact List.forall_mem_cons.mpr ⟨hy, hys.2⟩

end Operation

/-! ## Functions as vectors -/

/-- Whether a vector stands for a function: it has a type of functions and the dimension of it. -/
def TypedVector.IsFunction (c : Context) (v : TypedVector K) : Prop :=
  ∃ a r n k, c.Arrow v.typeId a r n k ∧ v.entries.shape = [k * (n + 1)]

/-- A vector of the dimension of its type stands for a function if the type is none of vectors. -/
theorem TypedVector.isFunction_of_isVector {c : Context} {v : TypedVector K}
    (h : Model.HasDimension c v.typeId v.entries) (hfun : c.isVector v.typeId = .ok false) :
    v.IsFunction c := by
  obtain ⟨n, hfull, hshape⟩ := h
  obtain ⟨i, htype, hi⟩ := Context.exists_of_isVector hfun
  rw [htype] at hfun hfull
  rcases Context.vector_or_arrow hi with ⟨hvec, -⟩ | ⟨-, a, r, j, k, -, -, harrow⟩
  · cases hvec.symm.trans hfun
  · cases hfull.symm.trans harrow.full
    exact ⟨a, r, j, k, by rw [htype]; exact harrow, hshape⟩

section

open Operation

variable [Zero K] [One K] [Add K] [Mul K] [Numbers K] {c : Context}

/-! ## Evaluation -/

theorem Model.meets_evaluate (p : TermPointer) (a : TermReference K) :
    (Model.evaluate c p a).Meets (Consistent c) (·.kind? = some .evaluation) fun _ ↦ True := by
  intro m hm
  have hstep := Model.step_evaluate hm ⟨p, a⟩
  rcases hrun : (Model.evaluate c p a).run m with ⟨f | r, m'⟩
  · rw [hrun] at hstep
    cases hstep with
    | refused _ _ hf => exact .inr ⟨f, m, rfl, f.kind?_of_isRefusal hf⟩
  · rw [hrun] at hstep
    exact .inl ⟨r, m', rfl, hstep.consistent hm, trivial⟩

mutual

theorem Callee.meets_evaluate : (f : Callee K) →
    (f.evaluate c).Meets (Model.Consistent c) (·.kind? = some .evaluation) fun _ ↦ True
  | .term p => meets_pure trivial
  | .application f x => by
    rw [Callee.evaluate]
    refine (Callee.meets_evaluate f).bind fun p _ ↦ (Expression.meets_evaluate x).bind fun a _ ↦
      (Model.meets_evaluate p a).bind fun r _ ↦ ?_
    cases r with
    | function q => exact meets_pure trivial
    | vector t xs o => exact meets_throw rfl

/-- **Every failure of an evaluation is explained.** -/
theorem Expression.meets_evaluate : (e : Expression K) →
    (e.evaluate c).Meets (Model.Consistent c) (·.kind? = some .evaluation) fun _ ↦ True
  | .reference r => meets_pure trivial
  | .application f x => by
    rw [Expression.evaluate]
    exact (Callee.meets_evaluate f).bind fun p _ ↦ (Expression.meets_evaluate x).bind fun a _ ↦
      Model.meets_evaluate p a

end

/-! ## Simulation -/

/-- How the simulation of an expression fails in a model: the expression makes no sense, or there is
no draw from the belief about a term. -/
inductive Model.FailsToSimulate (m : Model K) : Failure K → Prop
  | refused {f : Failure K} (hkind : f.kind? = some .evaluation)
      (hsample : ∀ callee n s, f ≠ .wrongSample callee n s) : m.FailsToSimulate f
  | noInverse {p : TermPointer} {e : Embedding K} (he : m.embeddings.get? p = some e)
      (h : Routines.inverse e.precision = .error .degenerate) :
      m.FailsToSimulate (.linear .degenerate)
  | noRoot {p : TermPointer} {e : Embedding K} {covariance : Tensor K}
      (he : m.embeddings.get? p = some e) (h : Routines.inverse e.precision = .ok covariance)
      (hroot : Routines.lowerRoot covariance = .error .indefinite) :
      m.FailsToSimulate (.linear .indefinite)

omit [Zero K] [One K] [Add K] [Mul K] in
theorem Model.FailsToSimulate.isOrdinary {m : Model K} {f : Failure K}
    (h : m.FailsToSimulate f) : f.IsOrdinary := by
  cases h with
  | refused hkind =>
    intro hnone
    rw [hkind] at hnone
    cases hnone
  | noInverse | noRoot => exact Failure.isOrdinary_linear _

variable {m : Model K}

theorem Model.meets_applyVector (hm : m.Consistent c) {f : TypedVector K} (hf : f.IsFunction c)
    (callee : Callee K) (x : TypedVector K) (argument : Expression K) :
    (Model.applyVector c callee f argument x).Meets m.SameButNoise m.FailsToSimulate
      fun v ↦ HasDimension c v.typeId v.entries := by
  obtain ⟨a, r, n, k, harrow, hshape⟩ := hf
  intro m₁ hm₁
  by_cases hx : x.typeId = a ∧ x.entries.shape = [n]
  · obtain ⟨rfl, hx⟩ := hx
    obtain ⟨matrix, v, w, j, -, -, -, hrun, hfull, hw⟩ :=
      run_applyVector_ok (hm.sameButNoise hm₁) harrow hshape hx callee argument
    exact .inl ⟨_, m₁, hrun, hm₁, j, hfull, hw⟩
  · obtain ⟨e, ⟨he, hsample⟩, hrun⟩ :=
      run_applyVector_refused harrow hshape hx callee argument m₁
    exact .inr ⟨e, m₁, hrun, .refused (e.kind?_of_isRefusal he) hsample⟩

variable [Routines.Shaped K] [Routines.FailsByNumbers K] {source : NoiseSource K}

/-- A term has a draw, or it is not known, or the covariance of the belief about it has no root. -/
theorem Model.meets_sample (hm : m.Consistent c) (p : TermPointer) :
    (Model.sample source p).Meets m.SameButNoise m.FailsToSimulate fun v ↦
      ∃ a r n k, c.Arrow p.typeId a r n k ∧ v.shape = [k * (n + 1)] := by
  rintro _ ⟨state, rfl⟩
  cases he : m.embeddings.get? p with
  | none =>
    have hembedding : (Model.embedding p).run { m with noise := state } =
        (.error (.noTerm p), { m with noise := state }) := run_embedding_none he
    exact .inr ⟨.noTerm p, _, run_bind_error hembedding _, .refused rfl (by rintro f j s ⟨⟩)⟩
  | some e =>
    obtain ⟨a, r, n, k, harrow, hfits⟩ := hm.fits he
    have he' : Table.get? { m with noise := state }.embeddings p = some e := he
    rw [Model.sample, run_bind_ok (run_embedding_some he'), run_bind_ok (run_get _)]
    cases hroot : Routines.inverse e.precision >>= Routines.lowerRoot with
    | error err =>
      rw [show e.sample source state = (.error err, state) by rw [Embedding.sample, hroot]]
      refine .inr ⟨.linear err, _, rfl, ?_⟩
      cases hinverse : Routines.inverse e.precision with
      | error err' =>
        obtain rfl := Routines.FailsByNumbers.inverse hfits.precision err' hinverse
        rw [hinverse] at hroot
        cases hroot
        exact .noInverse he hinverse
      | ok covariance =>
        rw [hinverse] at hroot
        have hshape := (Routines.Shaped.inverse hinverse).trans hfits.precision
        obtain rfl := Routines.FailsByNumbers.lowerRoot hshape err hroot
        exact .noRoot he hinverse hroot
    | ok root =>
      obtain ⟨v, next, hdraw, hshape⟩ := hfits.exists_sample hroot source state
      rw [hdraw]
      exact .inl ⟨v, _, rfl, ⟨next, rfl⟩, a, r, n, k, harrow, hshape⟩

mutual

theorem Callee.meets_simulate (hm : m.Consistent c) : (f : Callee K) →
    (f.simulate (Model.sample source) c).Meets m.SameButNoise m.FailsToSimulate
      (TypedVector.IsFunction c)
  | .term p => by
    rw [Callee.simulate]
    exact (Model.meets_sample hm p).bind fun v hv ↦ meets_pure hv
  | .application f x => by
    rw [Callee.simulate]
    refine (Callee.meets_simulate hm f).bind fun v hv ↦
      (Expression.meets_simulate hm x).bind fun y _ ↦
      (Model.meets_applyVector hm hv f y x).bind fun w hw ↦ ?_
    refine (meets_type _ fun e ↦ .refused rfl (by rintro f j s ⟨⟩)).bind fun b hb ↦ ?_
    cases b with
    | true => exact meets_throw (.refused rfl (by rintro f j s ⟨⟩))
    | false => exact meets_pure (TypedVector.isFunction_of_isVector hw hb)

/-- **A simulation has a vector of numbers for an outcome**, or it fails, and then the expression
makes no sense or there is no draw from a belief. -/
theorem Expression.meets_simulate (hm : m.Consistent c) : (e : Expression K) →
    (e.simulate (Model.sample source) c).Meets m.SameButNoise m.FailsToSimulate fun v ↦
      ∃ n, v.entries.shape = [n]
  | .reference (.function p) => by
    rw [Expression.simulate]
    refine (Model.meets_sample hm p).bind fun v hv ↦ ?_
    obtain ⟨a, r, n, k, -, hshape⟩ := hv
    exact meets_pure ⟨_, hshape⟩
  | .reference (.vector t xs o) => meets_pure ⟨_, rfl⟩
  | .application f x => by
    rw [Expression.simulate]
    refine (Callee.meets_simulate hm f).bind fun v hv ↦
      (Expression.meets_simulate hm x).bind fun y _ ↦
      (Model.meets_applyVector hm hv f y x).imp fun w hw ↦ ?_
    obtain ⟨n, -, hshape⟩ := hw
    exact ⟨n, hshape⟩

end

end

/-! ## New models -/

namespace Model

variable [Zero K] [One K] [Add K] [Mul K] [Numbers K] {source : NoiseSource K} {c : Context}

private theorem errorsOnly_freshEmbeddings (rows : List (Nat × List TermName)) (state : Int) :
    ErrorsOnly Failure.IsOrdinary (freshEmbeddings source c rows state) := by
  induction rows generalizing state with
  | nil => exact errorsOnly_pure _
  | cons row rows ih =>
    refine ErrorsOnly.bind (errorsOnly_mapError fun e _ ↦ Failure.IsRefusal.isOrdinary trivial)
      fun space _ ↦ ?_
    exact (ih _).bind fun others _ ↦ errorsOnly_pure _

/-- **A new model is refused if the source cannot start**, or else the failure is explained or one
of arithmetic. -/
theorem errorsOnly_fresh (seed : Seed) :
    ErrorsOnly (fun f ↦ source.start? seed = none ∧ f = .badSeed ∨ f.IsOrdinary)
      (fresh source c seed) := by
  rw [fresh]
  cases hstart : source.start? seed with
  | none => exact errorsOnly_error (.inl ⟨rfl, rfl⟩)
  | some state =>
    refine ErrorsOnly.imp ?_ fun f hf ↦ .inr hf
    refine ErrorsOnly.bind (errorsOnly_mapError fun e _ ↦ Failure.isOrdinary_linear e)
      fun elaborators _ ↦ ?_
    exact (errorsOnly_freshEmbeddings _ _).bind fun _ _ ↦ errorsOnly_pure _

end Model

end TermEmbedding
