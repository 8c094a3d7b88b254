import TermEmbedding.Proofs.Expression.Grammar
import TermEmbedding.Proofs.Model.Failures
import TermEmbedding.Proofs.Model.Recall

/-!
# What a simulation draws

A simulation draws for the terms in an expression, once for each occurrence, and for nothing else.
It goes through the expression from the left, so the draws follow each other in the source of noise
as the terms follow each other in the text. A simulation that fails has drawn for the terms up to
some place.

What a simulation computes from the draws does not depend on when they were made. It is said here by
a relation between an expression, a list of vectors and an outcome, in which every part of the
expression has its own part of the list, and this relation is shown to hold for the vectors that
were drawn.
-/

namespace TermEmbedding

variable {K : Type}

/-! ## Terms in the order of the text -/

/-- The terms in what is applied, from the left, as often as they occur. -/
def Callee.terms (f : Callee K) : List TermPointer := f.references.filterMap (·.pointer?)

/-- The terms in an expression, from the left, as often as they occur. -/
def Expression.terms (e : Expression K) : List TermPointer := e.references.filterMap (·.pointer?)

private theorem Callee.terms_application (f : Callee K) (x : Expression K) :
    (Callee.application f x).terms = f.terms ++ x.terms := List.filterMap_append

private theorem Expression.terms_application (f : Callee K) (x : Expression K) :
    (Expression.application f x).terms = f.terms ++ x.terms := List.filterMap_append

/-- Whether a character can stand between two references. -/
private def isBetween (c : Char) : Bool := c = '(' || c = ')' || c = ' '

private theorem filter_isBetween (left right : Text) :
    ('(' :: left ++ ' ' :: right ++ [')']).filter (!isBetween ·) =
      left.filter (!isBetween ·) ++ right.filter (!isBetween ·) := by
  have hbetween : isBetween '(' = true ∧ isBetween ' ' = true ∧ isBetween ')' = true := by decide
  simp [hbetween]

mutual

theorem Callee.filter_text : (f : Callee Float) →
    f.text.filter (!isBetween ·) = (f.references.flatMap (·.text)).filter (!isBetween ·)
  | .term p => by simp [Callee.text, Callee.references, TermReference.text]
  | .application f x => by
    rw [Callee.text, filter_isBetween, f.filter_text, x.filter_text, Callee.references,
      List.flatMap_append, List.filter_append]

/-- References stand in the text of an expression from the left, with parentheses and blanks between
them. -/
theorem Expression.filter_text : (e : Expression Float) →
    e.text.filter (!isBetween ·) = (e.references.flatMap (·.text)).filter (!isBetween ·)
  | .reference r => by simp [Expression.text, Expression.references]
  | .application f x => by
    rw [Expression.text, filter_isBetween, f.filter_text, x.filter_text, Expression.references,
      List.flatMap_append, List.filter_append]

end

/-! ## Draws in a row -/

private theorem NoiseSource.draws_add (source : NoiseSource K) (n k : Nat) (state : Int) :
    source.draws (n + k) state =
      ((source.draws n state).1 ++ (source.draws k (source.draws n state).2).1,
        (source.draws k (source.draws n state).2).2) := by
  induction n generalizing state with
  | zero => simp [draws]
  | succ n ih =>
    simp [Nat.add_right_comm, draws, ih]

private theorem NoiseSource.draws_drawArray (source : NoiseSource K) (shape : List Nat)
    (state : Int) : source.draws (Tensor.volume shape) state =
      ((source.drawArray shape state).1.toList, (source.drawArray shape state).2) := by
  simp [drawArray, Tensor.toList]

/-- The draw for one occurrence of a term: the noise that is taken from the source, and the vector
that the term stands for. -/
structure Draw (K : Type) where
  term : TermPointer
  noise : Tensor K
  vector : Tensor K

def Draw.size (d : Draw K) : Nat := d.noise.toList.length

section

variable [Zero K] [Add K] [Mul K] [Numbers K]

/-- The vector that a belief gives for some noise. -/
def Embedding.vectorFor (b : Embedding K) (noise : Tensor K) : Except LinearError (Tensor K) := do
  let root ← Routines.inverse b.precision >>= Routines.lowerRoot
  let deviation ← noise.matmul root.transpose
  let sum ← b.mean.add deviation
  return sum.flatten

private theorem Embedding.sample_of_root {b : Embedding K} {root : Tensor K}
    (hroot : Routines.inverse b.precision >>= Routines.lowerRoot = .ok root)
    (source : NoiseSource K) (state : Int) : b.sample source state =
      (b.vectorFor (source.drawArray b.mean.shape state).1,
        (source.drawArray b.mean.shape state).2) := by
  rw [sample, vectorFor, hroot]
  rfl

/-- Whether a draw is one from the belief of a model about the term: there is one number for each
entry of the mean, which are as many as the type of the term has dimensions, and they shape the
vector. -/
structure Draw.IsFrom (c : Context) (m : Model K) (d : Draw K) : Prop where
  full : c.full d.term.typeId = .ok d.size
  belief : ∃ b, m.embeddings.get? d.term = some b ∧ d.noise.shape = b.mean.shape ∧
    b.vectorFor d.noise = .ok d.vector

namespace Operation

variable {α β : Type} {source : NoiseSource K} {c : Context} {m : Model K}
  {terms terms' : List TermPointer} {Q : List (Tensor K) → α → Prop}
  {S : List (Tensor K) → β → Prop} {x : Operation K α}

/-- Whether an operation that ended in some way from a state of the source of noise has drawn for
the first terms of a list, one after the other, and has done nothing else to the model. If it has
answered, it has drawn for all of them, and its answer goes with the vectors. -/
def Drawn (source : NoiseSource K) (c : Context) (m : Model K) (terms : List TermPointer)
    (Q : List (Tensor K) → α → Prop) (state : Int)
    (outcome : Except (Failure K) α × Model K) : Prop :=
  ∃ ds : List (Draw K), (∀ d ∈ ds, d.IsFrom c m) ∧ ds.map (·.term) <+: terms ∧
    source.draws (ds.map (·.size)).sum state = (ds.flatMap (·.noise.toList), outcome.2.noise) ∧
    outcome.2 = { m with noise := outcome.2.noise } ∧
    ∀ a, outcome.1 = .ok a → ds.map (·.term) = terms ∧ Q (ds.map (·.vector)) a

private theorem drawn_of_error (f : Failure K) (state : Int) :
    Drawn source c m terms Q state (.error f, { m with noise := state }) :=
  ⟨[], List.forall_mem_nil _, List.nil_prefix, rfl, rfl, by rintro a ⟨⟩⟩

/-- Whether an operation draws for the terms of a list, whatever the state of the source of noise is
when it begins. -/
def DrawsFor (source : NoiseSource K) (c : Context) (m : Model K) (terms : List TermPointer)
    (Q : List (Tensor K) → α → Prop) (x : Operation K α) : Prop :=
  ∀ state, Drawn source c m terms Q state (x.run { m with noise := state })

private theorem drawsFor_of_look (hx : x.Within (· = ·))
    (hanswer : ∀ {state : Int} {a : α} {m' : Model K},
      x.run { m with noise := state } = (.ok a, m') → Q [] a) : x.DrawsFor source c m [] Q := by
  intro state
  have hsame := hx { m with noise := state }
  rcases hrun : x.run { m with noise := state } with ⟨f | a, m'⟩
  · rw [hrun] at hsame
    obtain rfl : { m with noise := state } = m' := hsame
    exact drawn_of_error f state
  · rw [hrun] at hsame
    obtain rfl : { m with noise := state } = m' := hsame
    refine ⟨[], List.forall_mem_nil _, List.prefix_rfl, rfl, rfl, ?_⟩
    rintro _ ⟨⟩
    exact ⟨rfl, hanswer hrun⟩

private theorem drawsFor_pure {a : α} (h : Q [] a) :
    (pure a : Operation K α).DrawsFor source c m [] Q := by
  refine drawsFor_of_look (within_pure a) ?_
  rintro state b m' ⟨⟩
  exact h

private theorem drawsFor_throw (f : Failure K) :
    (throw f : Operation K α).DrawsFor source c m [] Q :=
  fun state ↦ drawn_of_error f state

theorem DrawsFor.imp {R : List (Tensor K) → α → Prop} (hx : x.DrawsFor source c m terms Q)
    (hQR : ∀ {vs a}, Q vs a → R vs a) : x.DrawsFor source c m terms R := by
  intro state
  obtain ⟨ds, hfrom, hterms, hdraws, hsame, hanswer⟩ := hx state
  exact ⟨ds, hfrom, hterms, hdraws, hsame, fun a ha ↦ (hanswer a ha).imp_right hQR⟩

/-- **The draws of a sequence are those of its parts**, one after the other. -/
theorem DrawsFor.bind {f : α → Operation K β} (hx : x.DrawsFor source c m terms Q)
    (hf : ∀ {vs a}, Q vs a → (f a).DrawsFor source c m terms' fun ws b ↦ S (vs ++ ws) b) :
    (x >>= f).DrawsFor source c m (terms ++ terms') S := by
  intro state
  obtain ⟨ds, hfrom, hterms, hdraws, hsame, hanswer⟩ := hx state
  rcases hrun : x.run { m with noise := state } with ⟨e | a, m₁⟩
  · rw [hrun] at hdraws hsame
    rw [run_bind_error hrun]
    exact ⟨ds, hfrom, hterms.trans (List.prefix_append _ _), hdraws, hsame, by rintro a ⟨⟩⟩
  · rw [hrun] at hdraws hsame hanswer
    obtain ⟨hall, hQ⟩ := hanswer a rfl
    obtain ⟨ds', hfrom', hterms', hdraws', hsame', hanswer'⟩ := hf hQ m₁.noise
    rw [run_bind_ok hrun, show m₁ = { m with noise := m₁.noise } from hsame]
    refine ⟨ds ++ ds', List.forall_mem_append.mpr ⟨hfrom, hfrom'⟩, ?_, ?_, hsame', ?_⟩
    · rw [List.map_append, hall]
      exact (List.prefix_append_right_inj _).mpr hterms'
    · rw [List.map_append, List.sum_append, source.draws_add, hdraws, List.flatMap_append]
      dsimp only
      rw [hdraws']
    · intro b hb
      obtain ⟨hall', hS⟩ := hanswer' b hb
      rw [List.map_append, List.map_append, hall, hall']
      exact ⟨rfl, hS⟩

/-- Nothing is drawn any more for what is done after the last term. -/
private theorem DrawsFor.bind_nil {f : α → Operation K β} (hx : x.DrawsFor source c m terms Q)
    (hf : ∀ {vs a}, Q vs a → (f a).DrawsFor source c m [] fun _ b ↦ S vs b) :
    (x >>= f).DrawsFor source c m terms S := by
  have hnone : ∀ {vs a}, Q vs a → (f a).DrawsFor source c m [] fun ws b ↦ S (vs ++ ws) b := by
    intro vs a hQ state
    obtain ⟨ds, hfrom, hterms, hdraws, hsame, hanswer⟩ := hf hQ state
    obtain rfl : ds = [] := List.map_eq_nil_iff.mp (List.prefix_nil.mp hterms)
    refine ⟨[], hfrom, hterms, hdraws, hsame, fun b hb ↦ ⟨rfl, ?_⟩⟩
    have hS : S vs b := (hanswer b hb).2
    simpa using hS
  have h := hx.bind hnone
  rwa [List.append_nil] at h

end Operation

/-! ## Outcomes -/

variable [One K]

/-- Whether a function that is given as a vector maps a vector to another one: the function is made
a matrix and applied to the features of its argument, and what comes out is expanded. -/
def Model.Applies (c : Context) (m : Model K) (f x y : TypedVector K) : Prop :=
  ∃ n k matrix v, c.Arrow f.typeId x.typeId y.typeId n k ∧ x.entries.shape = [n] ∧
    f.entries.reshape? [k, n + 1] = some matrix ∧
    matrix.matmul (.ofList (x.entries.toList ++ [1])) = .ok v ∧
    Model.Expands c m y.typeId v y.entries

/-- The vector that an expression stands for when its terms, from the left, stand for the vectors of
a list. What is applied takes its vectors from the front. -/
inductive Expression.Yields (c : Context) (m : Model K) :
    Expression K → List (Tensor K) → TypedVector K → Prop
  | term (p : TermPointer) (v : Tensor K) : Yields c m (.reference (.function p)) [v] ⟨p.typeId, v⟩
  | vector (t : TypeId) (xs : List K) (o : Occurrence) :
    Yields c m (.reference (.vector t xs o)) [] ⟨t, .ofList xs⟩
  | application {f : Callee K} {x : Expression K} {vs ws : List (Tensor K)}
      {function argument result : TypedVector K} (hf : Yields c m f.expression vs function)
      (hx : Yields c m x ws argument) (happly : m.Applies c function argument result) :
      Yields c m (.application f x) (vs ++ ws) result

namespace Model

open Operation

variable {source : NoiseSource K} {c : Context} {m : Model K}

private theorem drawsFor_applyVector (hm : Consistent c m) {f x : TypedVector K}
    (hf : f.IsFunction c) (callee : Callee K) (argument : Expression K) :
    (applyVector c callee f argument x).DrawsFor source c m [] fun _ y ↦
      m.Applies c f x y ∧ HasDimension c y.typeId y.entries := by
  obtain ⟨a, r, n, k, harrow, hshape⟩ := hf
  refine drawsFor_of_look (within_applyVector callee f argument x) fun {state y m'} hrun ↦ ?_
  by_cases hx : x.typeId = a ∧ x.entries.shape = [n]
  · obtain ⟨rfl, hx⟩ := hx
    obtain ⟨matrix, v, w, j, hmatrix, hv, hexpands, happly, hfull, hw⟩ :=
      run_applyVector_ok (hm.sameButNoise ⟨state, rfl⟩) harrow hshape hx callee argument
    cases hrun.symm.trans happly
    exact ⟨⟨n, k, matrix, v, harrow, hx, hmatrix, hv, hexpands.congr rfl⟩, j, hfull, hw⟩
  · obtain ⟨e, -, hrefused⟩ := run_applyVector_refused harrow hshape hx callee argument
      { m with noise := state }
    cases hrun.symm.trans hrefused

variable [Routines.Shaped K]

/-- **A term takes as many numbers as its type has dimensions**, and none if the covariance of the
belief about it has no root. -/
theorem drawsFor_sample (hm : Consistent c m) (p : TermPointer) :
    (sample source p).DrawsFor source c m [p] fun vs v ↦
      vs = [v] ∧ TypedVector.IsFunction c ⟨p.typeId, v⟩ := by
  intro state
  cases hb : m.embeddings.get? p with
  | none =>
    have hembedding : (embedding p).run { m with noise := state } =
        (.error (.noTerm p), { m with noise := state }) := run_embedding_none hb
    rw [sample, run_bind_error hembedding]
    exact drawn_of_error _ state
  | some b =>
    obtain ⟨a, t, n, k, harrow, hfits⟩ := hm.fits hb
    have hb' : Table.get? { m with noise := state }.embeddings p = some b := hb
    rw [sample, run_bind_ok (run_embedding_some hb'), run_bind_ok (run_get _)]
    cases hroot : Routines.inverse b.precision >>= Routines.lowerRoot with
    | error err =>
      rw [show b.sample source state = (.error err, state) by rw [Embedding.sample, hroot]]
      exact drawn_of_error _ state
    | ok root =>
      obtain ⟨v, next, hdraw, hshape⟩ := hfits.exists_sample hroot source state
      obtain ⟨hvector, hnext⟩ := Prod.mk.inj
        ((Embedding.sample_of_root hroot source state).symm.trans hdraw)
      rw [hdraw]
      change Drawn source c m [p] _ state (.ok v, { m with noise := next })
      refine ⟨[⟨p, (source.drawArray b.mean.shape state).1, v⟩], ?_, List.prefix_rfl, ?_, rfl, ?_⟩
      · rw [List.forall_mem_singleton]
        refine ⟨?_, b, hb, rfl, hvector⟩
        rw [Draw.size, Tensor.length_toList, NoiseSource.shape_drawArray, hfits.mean]
        simpa using harrow.full
      · rw [← hnext]
        simpa [Draw.size] using source.draws_drawArray b.mean.shape state
      · rintro _ ⟨⟩
        exact ⟨rfl, rfl, a, t, n, k, harrow, hshape⟩

end Model

section

open Operation

variable {source : NoiseSource K} {c : Context} {m : Model K} [Routines.Shaped K]

mutual

theorem Callee.drawsFor_simulate (hm : m.Consistent c) : (f : Callee K) →
    (f.simulate (Model.sample source) c).DrawsFor source c m f.terms fun vs v ↦
      f.expression.Yields c m vs v ∧ v.IsFunction c
  | .term p => by
    rw [Callee.simulate]
    refine (Model.drawsFor_sample hm p).bind_nil fun {vs v} hv ↦ drawsFor_pure ?_
    obtain ⟨rfl, hfunction⟩ := hv
    exact ⟨.term p v, hfunction⟩
  | .application f x => by
    rw [Callee.simulate, Callee.terms_application]
    refine (Callee.drawsFor_simulate hm f).bind fun {vs v} hv ↦ ?_
    refine (Expression.drawsFor_simulate hm x).bind_nil fun {ws y} hy ↦ ?_
    refine (Model.drawsFor_applyVector hm hv.2 f x).bind_nil fun {_ w} hw ↦ ?_
    refine DrawsFor.bind_nil (Q := fun _ b ↦ c.isVector w.typeId = .ok b) ?_ fun {_ b} hb ↦ ?_
    · exact drawsFor_of_look (within_type _) fun h ↦ (eq_of_run_type h).1
    · cases b with
      | true => exact drawsFor_throw _
      | false =>
        exact drawsFor_pure
          ⟨.application hv.1 hy hw.1, TypedVector.isFunction_of_isVector hw.2 hb⟩

/-- **A simulation draws for the terms of an expression**, and its outcome is what the expression
yields for the vectors that were drawn. -/
theorem Expression.drawsFor_simulate (hm : m.Consistent c) : (e : Expression K) →
    (e.simulate (Model.sample source) c).DrawsFor source c m e.terms fun vs v ↦ e.Yields c m vs v
  | .reference (.function p) => by
    rw [Expression.simulate]
    refine (Model.drawsFor_sample hm p).bind_nil fun {vs v} hv ↦ drawsFor_pure ?_
    obtain ⟨rfl, -⟩ := hv
    exact .term p v
  | .reference (.vector t xs o) => drawsFor_pure (.vector t xs o)
  | .application f x => by
    rw [Expression.simulate, Expression.terms_application]
    refine (Callee.drawsFor_simulate hm f).bind fun {vs v} hv ↦ ?_
    refine (Expression.drawsFor_simulate hm x).bind_nil fun {ws y} hy ↦ ?_
    exact (Model.drawsFor_applyVector hm hv.2 f x).imp fun hw ↦ .application hv.1 hy hw.1

end

end

end

namespace Model

/-- **A simulation draws for the terms of an expression and for nothing else.** There is one draw
for each occurrence of a term, of as many numbers as the type of the term has dimensions. The draws
follow each other as the references do in the text, and the numbers of each fill its noise row by
row. If the simulation answers, it has drawn for all occurrences, and its outcome is what the
expression yields when each of them stands for the vector of its own draw. If it fails, it has drawn
for the occurrences up to some place. Nothing else is changed in the model. -/
theorem simulate_draws [Routines Float] [Routines.Shaped Float] {source : NoiseSource Float}
    {c : Context} {m m' : Model Float} (h : Reachable source c m) {e : Expression Float}
    {outcome : Except (Failure Float) (TypedVector Float)}
    (hrun : (e.simulate (sample source) c).run m = (outcome, m')) :
    e.text.filter (!isBetween ·) = (e.references.flatMap (·.text)).filter (!isBetween ·) ∧
    ∃ ds : List (Draw Float), (∀ d ∈ ds, d.IsFrom c m) ∧ ds.map (·.term) <+: e.terms ∧
      m' = { m with noise := source.advance (ds.map (·.size)).sum m.noise } ∧
      (source.draws (ds.map (·.size)).sum m.noise).1 = ds.flatMap (·.noise.toList) ∧
      ∀ v, outcome = .ok v → ds.map (·.term) = e.terms ∧ e.Yields c m (ds.map (·.vector)) v := by
  have hdrawn : Operation.Drawn source c m e.terms (e.Yields c m) m.noise
      ((e.simulate (sample source) c).run m) := e.drawsFor_simulate h.consistent m.noise
  rw [hrun] at hdrawn
  obtain ⟨ds, hfrom, hterms, hdraws, hsame, hanswer⟩ := hdrawn
  refine ⟨e.filter_text, ds, hfrom, hterms, ?_, congrArg Prod.fst hdraws, hanswer⟩
  rw [← source.draws_snd, hdraws]
  exact hsame

/-- A number and the declared function of numbers, which is applied to it twice. -/
def lineIterated : Expression Float :=
  .application (.term ⟨1, .primitive 0⟩) (.application (.term ⟨1, .primitive 0⟩)
    (.reference (.vector 0 [1.0] .anywhere)))

/-- A term that occurs twice is drawn for twice, two numbers each time. -/
theorem simulate_draws_twice : ∃ m v, Reachable (.tape #[0.5, 1.5, 2.5]) .line m ∧
    (lineIterated.simulate (sample (.tape #[0.5, 1.5, 2.5])) .line).run m =
      (.ok v, { m with noise := m.noise + 4 }) := by
  have hanswers : (Model.fresh (.tape #[0.5, 1.5, 2.5]) .line .unspecified).toOption.map (fun m ↦
      ((lineIterated.simulate (sample (.tape #[0.5, 1.5, 2.5])) .line).run m).1.toOption.isSome) =
      some true := by
    decide +kernel
  obtain ⟨m, hfresh, hanswers⟩ := exists_of_map_toOption_eq_some hanswers
  rcases hrun : (lineIterated.simulate (sample (.tape #[0.5, 1.5, 2.5])) .line).run m with
    ⟨f | v, m'⟩
  · rw [hrun] at hanswers
    cases hanswers
  · obtain ⟨-, ds, hfrom, -, hm', -, hanswer⟩ := simulate_draws (.fresh hfresh) hrun
    have hterms : ds.map (·.term) = [⟨1, .primitive 0⟩, ⟨1, .primitive 0⟩] := (hanswer v rfl).1
    have hsize : ∀ d ∈ ds, d.size = 2 := by
      intro d hd
      have hterm : d.term ∈ ds.map (·.term) := List.mem_map_of_mem hd
      rw [hterms, List.mem_pair, or_self] at hterm
      have hfull := (hfrom d hd).full
      rw [hterm, show Context.line.full 1 = .ok 2 by decide +kernel] at hfull
      exact (Except.ok.inj hfull).symm
    have hlength : ds.length = 2 := by simpa using congrArg List.length hterms
    have hadvance : (NoiseSource.tape #[0.5, 1.5, 2.5]).advance 4 m.noise = m.noise + 4 := by
      simp only [NoiseSource.advance, NoiseSource.tape]
      omega
    rw [List.map_eq_replicate_iff.mpr hsize, List.sum_replicate, hlength] at hm'
    exact ⟨m, v, .fresh hfresh, hrun.trans (by rw [hm', ← hadvance]; rfl)⟩

end Model

end TermEmbedding
