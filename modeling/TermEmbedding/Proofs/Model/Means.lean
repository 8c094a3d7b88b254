import TermEmbedding.Proofs.Decimal.Equality
import TermEmbedding.Proofs.Model.Agreement

/-!
# What evaluation computes

Evaluation keeps results, and a result that was found once is not computed again. As long as beliefs
do not change this makes no difference: every result is what its application would be computed to be
now, and the vector that represents the outcome of an expression is the one that a simulation gives
in which every term stands for its mean.

## Where it would make a difference

A result is looked up by an application that counts as equal to the one it was computed for. The two
zeros count as equal, but a function need not map them alike once it divides. The arguments are
therefore taken from vectors no two of which differ in the signs of zeros alone.
-/

namespace TermEmbedding

variable {K : Type}

namespace Model

open Operation

section

variable [Zero K] [One K] [Add K] [Mul K] {c : Context} {m m' : Model K}

/-! ## Results that hold -/

/-- A reference is what an application is computed to be: its vector is the expanded one of what the
application maps to. -/
def Computes (c : Context) (m : Model K) (a : Application K) (r : TermReference K) : Prop :=
  ∃ v w, Maps c m a r.typeId v ∧ Expands c m r.typeId v w ∧ m.meanOf? r = some w

/-- Whether every result is what its application would be computed to be now. -/
def Current (c : Context) (m : Model K) : Prop :=
  ∀ row ∈ m.results, m.Computes c row.1 row.2

theorem Maps.mono (h : Extends m m') {a : Application K} {t : TypeId} {v : Tensor K}
    (hmaps : Maps c m a t v) : Maps c m' a t v := by
  obtain ⟨e, base, n, k, harrow, he, hbase, hshape, hv, hvshape⟩ := hmaps
  exact ⟨e, base, n, k, harrow, h.get?_embeddings he, h.meanOf? hbase, hshape, hv, hvshape⟩

theorem Computes.mono (h : Extends m m') {a : Application K} {r : TermReference K}
    (hr : m.Computes c a r) : m'.Computes c a r := by
  obtain ⟨v, w, hmaps, hexpands, hmean⟩ := hr
  exact ⟨v, w, hmaps.mono h, hexpands.congr h.elaborators, h.meanOf? hmean⟩

private theorem Computes.of_unmarked_eq {a b : Application K} {r : TermReference K}
    (hcallee : a.callee = b.callee) (hargument : a.argument.unmarked = b.argument.unmarked)
    (hr : m.Computes c a r) : m.Computes c b r := by
  obtain ⟨v, w, ⟨e, base, n, k, harrow, he, hbase, hrest⟩, hexpands, hmean⟩ := hr
  refine ⟨v, w, ⟨e, base, n, k, ?_, hcallee ▸ he, ?_, hrest⟩, hexpands, hmean⟩
  · rw [← hcallee, ← TermReference.typeId_unmarked b.argument, ← hargument,
      TermReference.typeId_unmarked]
    exact harrow
  · rw [← meanOf?_unmarked_right, ← hargument, meanOf?_unmarked_right]
    exact hbase

theorem Current.unmarked (h : m.Current c) : m.unmarked.Current c := by
  intro row hrow
  obtain ⟨row', hrow', rfl⟩ := List.mem_map.mp hrow
  obtain ⟨v, w, hmaps, hexpands, hmean⟩ :=
    Computes.of_unmarked_eq (a := row'.1) (b := row'.1.unmarked) rfl
      (TermReference.unmarked_unmarked _).symm (h row' hrow')
  refine ⟨v, w, ?_, ?_, ?_⟩
  · obtain ⟨e, base, n, k, harrow, he, hbase, hrest⟩ := hmaps
    rw [TermReference.typeId_unmarked]
    exact ⟨e, base, n, k, harrow, he, (meanOf?_unmarked m _).trans hbase, hrest⟩
  · rw [TermReference.typeId_unmarked]
    exact hexpands
  · rw [meanOf?_unmarked, meanOf?_unmarked_right]
    exact hmean

/-! ## Evaluation keeps results current -/

variable [Numbers K]

/-- The result of an application is what it is computed to be, unless it was looked up in the row of
an application with another argument. -/
theorem Step.computes (hm : Consistent c m) (hcurrent : m.Current c) {a : Application K}
    {r : TermReference K} (h : Step c m a (.ok r, m'))
    (hsame : ∀ k, (k, r) ∈ m.results → (k == a) = true →
      k.argument.unmarked = a.argument.unmarked) : m'.Computes c a r := by
  cases h with
  | known hget =>
    obtain ⟨k, hmem, hk⟩ := Table.exists_mem_of_get? hget
    exact (hcurrent _ hmem).of_unmarked_eq (Application.beq_iff.mp hk).1 (hsame k hmem hk)
  | @vector t v hnone hmaps hvec =>
    -- a result that is a vector is its own mean
    have hadds := (Step.vector (m := m) hnone hmaps hvec).extends
    refine ⟨v, v, hmaps.mono hadds, .inl ⟨hvec, rfl⟩, ?_⟩
    obtain ⟨e, base, n, k, -, -, -, -, -, hvshape⟩ := hmaps
    exact congrArg some (Tensor.ofList_toList hvshape)
  | @function t v w space mean hnone hmaps hfun hexpands hspace hmean haxes =>
    have hadds := (Step.function hnone hmaps hfun hexpands hspace hmean haxes).extends
    refine ⟨v, w, hmaps.mono hadds, hexpands.congr hadds.elaborators, ?_⟩
    obtain ⟨e, base, n, k, harrow, -, -, -, -, hvshape⟩ := hmaps
    obtain ⟨w', j, hexpands', -, hw'⟩ := hm.exists_expands harrow hvshape
    obtain rfl := hexpands.unique hexpands'
    -- the belief about the new term is the row behind all others
    have hget : Table.get? (m.embeddings ++ [(m.nextTerm t, Embedding.prior mean haxes)])
        (m.nextTerm t) = some (.prior mean haxes) := by
      rw [Table.get?_append, hm.get?_nextTerm t, Option.none_or, Table.get?,
        if_pos (beq_self_eq_true _)]
    change (Table.get? (m.embeddings ++ _) (m.nextTerm t)).map _ = _
    rw [hget]
    exact congrArg some (Tensor.flatten_of_reshape? hmean hw')

theorem Step.computes_of_new (hm : Consistent c m) (hcurrent : m.Current c) {a : Application K}
    {r : TermReference K} (hnone : m.results.get? a = none) (h : Step c m a (.ok r, m')) :
    m'.Computes c a r := by
  refine h.computes hm hcurrent fun k hmem hk ↦ ?_
  rw [Table.get?_eq_none_iff.mp hnone _ hmem] at hk
  cases hk

theorem Step.current (hm : Consistent c m) (hcurrent : m.Current c) {a : Application K}
    {r : Except (Failure K) (TermReference K)} (h : Step c m a (r, m')) : m'.Current c := by
  have hstep := h
  intro row hrow
  cases h with
  | known => exact hcurrent row hrow
  | refused => exact hcurrent row hrow
  | vector hnone =>
    rcases List.mem_append.mp hrow with hrow | hrow
    · exact (hcurrent row hrow).mono hstep.extends
    · obtain rfl := List.mem_singleton.mp hrow
      exact hstep.computes_of_new hm hcurrent hnone
  | function hnone =>
    rcases List.mem_append.mp hrow with hrow | hrow
    · exact (hcurrent row hrow).mono hstep.extends
    · obtain rfl := List.mem_singleton.mp hrow
      exact hstep.computes_of_new hm hcurrent hnone

/-- A model that is left where a consistent and current one was found: one that is both, and only
added to. -/
def Evolves (c : Context) (m m' : Model K) : Prop :=
  Consistent c m → m.Current c → Consistent c m' ∧ m'.Current c ∧ Extends m m'

instance : Std.Refl (Evolves c : Model K → Model K → Prop) :=
  ⟨fun m hm hcurrent ↦ ⟨hm, hcurrent, .refl m⟩⟩

instance : IsTrans (Model K) (Evolves c) where
  trans _ _ _ h h' hm hcurrent := by
    obtain ⟨hm', hcurrent', hadds⟩ := h hm hcurrent
    obtain ⟨hm'', hcurrent'', hadds'⟩ := h' hm' hcurrent'
    exact ⟨hm'', hcurrent'', hadds.trans hadds'⟩

theorem evolves_evaluate (p : TermPointer) (argument : TermReference K) :
    (evaluate c p argument).Within (Evolves c) := by
  intro m hm hcurrent
  have hstep := step_evaluate hm ⟨p, argument⟩
  exact ⟨hstep.consistent hm, hstep.current hm hcurrent, hstep.extends⟩

/-! ## Evaluation beside simulation with means -/

/-- The mean of the belief about a term. -/
def meanOfTerm (p : TermPointer) : Operation K (Tensor K) := meanVector (.function p)

/-- What counts as equal has the same entries, among the references with a property. -/
def Separates (P : TermReference K → Prop) : Prop :=
  ∀ r s, P r → P s → (r == s) = true → r.unmarked = s.unmarked

/-- Whether everything in the results of a model has a property. -/
def AllResults (P : TermReference K → Prop) (m : Model K) : Prop :=
  ∀ row ∈ m.results, P row.1.argument ∧ P row.2

omit [Zero K] [One K] [Add K] [Mul K] [Numbers K] in
theorem AllResults.of_extends {P : TermReference K → Prop} (h : AllResults P m')
    (hadds : Extends m m') : AllResults P m :=
  fun row hrow ↦ h row (hadds.results.subset hrow)

/-- The vectors of a function and of an argument give the vector of the result, in the model that
evaluation started from. -/
theorem mean_of_application {P : TermReference K → Prop} (hP : Separates P) {m₁ m₂ : Model K}
    (hm : Consistent c m) (hm₁ : Consistent c m₁) (hcurrent : m₁.Current c) (hadds : Extends m m₁)
    {p : TermPointer} {a r : TermReference K} (hrun : (evaluate c p a).run m₁ = (.ok r, m₂))
    (hall : AllResults P m₂) (ha : P a) {f x : Tensor K} (hf : m₁.meanOf? (.function p) = some f)
    (hx : m₁.meanOf? a = some x) (callee : Callee K) (argument : Expression K) :
    P r ∧ m₂.IsOutcome c r ∧ ∃ w, m₂.meanOf? r = some w ∧
      (applyVector c callee ⟨p.typeId, f⟩ argument ⟨a.typeId, x⟩).run m =
        (.ok ⟨r.typeId, w⟩, m) := by
  have hstep := step_evaluate hm₁ ⟨p, a⟩
  rw [hrun] at hstep
  have hadds₁ := hstep.extends
  have hm₂ := hstep.consistent hm₁
  obtain ⟨k, hmem, -, -⟩ := hstep.exists_row
  -- only here it matters that equal keys have equal entries
  have hcomputes : m₂.Computes c ⟨p, a⟩ r := by
    refine hstep.computes hm₁ hcurrent fun k hmem hk ↦ ?_
    exact hP _ _ (hall.of_extends hadds₁ _ hmem).1 ha (Application.beq_iff.mp hk).2
  obtain ⟨v, w, ⟨e, base, n, k, harrow, he, hbase, hshape, hv, hvshape⟩, hexpands, hmean⟩ :=
    hcomputes
  cases (hadds₁.meanOf? hx).symm.trans hbase
  obtain ⟨A, T, n', k', harrow', hfits⟩ := hm₂.fits he
  cases harrow.functionSpace.symm.trans harrow'.functionSpace
  -- the simulation was handed the flattened mean of the same belief
  have hfmean : e.mean.flatten = f := by
    have hf₂ := hadds₁.meanOf? hf
    rw [meanOf?, he] at hf₂
    exact Option.some.inj hf₂
  have hfshape : f.shape = [k * (n + 1)] := by
    rw [← hfmean, Tensor.shape_flatten, hfits.mean]
    simp
  obtain ⟨matrix, v', w', j, hmatrix, hv', hexpands', happly, -, -⟩ := run_applyVector_ok hm
    (f := ⟨p.typeId, f⟩) (x := ⟨a.typeId, x⟩) harrow hfshape hshape callee argument
  -- the mean comes back from its entries, so both runs multiply one matrix with one vector
  obtain rfl : e.mean = matrix := by
    rw [← hfmean, Tensor.reshape?_flatten hfits.mean] at hmatrix
    exact Option.some.inj hmatrix
  cases hv.symm.trans hv'
  have hsame : w' = w := (hexpands'.congr (hadds.trans hadds₁).elaborators).unique hexpands
  subst hsame
  exact ⟨(hall _ hmem).2, (hm₂.results _ hmem).result, w', hmean, happly⟩

end

end Model

/-! ## Expressions -/

section

open Operation

variable [Zero K] [One K] [Add K] [Mul K] [Numbers K] {c : Context} {m : Model K}

theorem Callee.evolves_evaluate (f : Callee K) : (f.evaluate c).Within (Model.Evolves c) :=
  f.within_of_step Model.evolves_evaluate

theorem Expression.evolves_evaluate (e : Expression K) :
    (e.evaluate c).Within (Model.Evolves c) :=
  e.within_of_step Model.evolves_evaluate

variable {P : TermReference K → Prop}

/-- A model that evaluation has made of another one, with results that hold. -/
structure Model.Ahead (c : Context) (m m₁ : Model K) : Prop where
  start : m.Consistent c
  grown : m₁.Consistent c
  current : m₁.Current c
  adds : m.Extends m₁

theorem Model.Ahead.of_run {α : Type} {x : Operation K α} (hx : x.Within (Model.Evolves c))
    {m₁ m₂ : Model K} {a : α} (h : m.Ahead c m₁) (hrun : x.run m₁ = (.ok a, m₂)) :
    m.Ahead c m₂ ∧ m₁.Extends m₂ := by
  have hevolves := hx m₁ h.grown h.current
  rw [hrun] at hevolves
  obtain ⟨hgrown, hcurrent, hadds⟩ := hevolves
  exact ⟨⟨h.start, hgrown, hcurrent, h.adds.trans hadds⟩, hadds⟩

private theorem Expression.mean_of_parts (hP : Model.Separates P) {f : Callee K} {x : Expression K}
    {m₁ m' : Model K} {r : TermReference K} (hahead : m.Ahead c m₁)
    (hrun : ((Expression.application f x).evaluate c).run m₁ = (.ok r, m'))
    (hall : m'.AllResults P)
    (hf : ∀ {m₂ p}, (f.evaluate c).run m₁ = (.ok p, m₂) → m₂.AllResults P →
      ∃ v, (f.simulate Model.meanOfTerm c).run m = (.ok ⟨p.typeId, v⟩, m) ∧
        m₂.meanOf? (.function p) = some v)
    (hx : ∀ {m₂ m₃ a}, m.Ahead c m₂ → (x.evaluate c).run m₂ = (.ok a, m₃) → m₃.AllResults P →
      ∃ v, (x.simulate Model.meanOfTerm c).run m = (.ok ⟨a.typeId, v⟩, m) ∧
        m₃.meanOf? a = some v ∧ P a) :
    m'.IsOutcome c r ∧ ∃ w,
      ((Expression.application f x).simulate Model.meanOfTerm c).run m = (.ok ⟨r.typeId, w⟩, m) ∧
        m'.meanOf? r = some w ∧ P r := by
  obtain ⟨p, m₂, a, m₃, hp, ha, hr⟩ := Expression.exists_of_run_application hrun
  obtain ⟨hahead₂, -⟩ := hahead.of_run f.evolves_evaluate hp
  obtain ⟨hahead₃, hadds₃⟩ := hahead₂.of_run x.evolves_evaluate ha
  obtain ⟨-, hadds'⟩ := hahead₃.of_run (Model.evolves_evaluate p a) hr
  have hall₃ := hall.of_extends hadds'
  obtain ⟨v, hfrun, hv⟩ := hf hp (hall₃.of_extends hadds₃)
  obtain ⟨y, hxrun, hy, hPa⟩ := hx hahead₂ ha hall₃
  obtain ⟨hPr, houtcome, w, hw, happly⟩ := Model.mean_of_application hP hahead.start hahead₃.grown
    hahead₃.current hahead₃.adds hr hall hPa (hadds₃.meanOf? hv) hy f x
  refine ⟨houtcome, w, ?_, hw, hPr⟩
  rw [Expression.simulate, run_bind_ok hfrun, run_bind_ok hxrun]
  exact happly

mutual

theorem Callee.mean_of_run (hP : Model.Separates P) : (f : Callee K) →
    (∀ r ∈ f.references, m.Offers c r ∧ P r) → ∀ {m₁ m' : Model K} {p : TermPointer},
      m.Ahead c m₁ → (f.evaluate c).run m₁ = (.ok p, m') → m'.AllResults P →
      ∃ v, (f.simulate Model.meanOfTerm c).run m = (.ok ⟨p.typeId, v⟩, m) ∧
        m'.meanOf? (.function p) = some v
  | .term p, hrefs, m₁, m', q, hahead, hrun, hall => by
    cases hrun
    have hp : m.Knows p := (hrefs _ (List.mem_singleton_self _)).1
    obtain ⟨v, n, hv, -, -⟩ := hahead.start.exists_meanOf (r := .function p) hp
    exact ⟨v, run_bind_ok (Model.run_meanVector_some hv) _, hahead.adds.meanOf? hv⟩
  | .application f x, hrefs, m₁, m', q, hahead, hrun, hall => by
    obtain ⟨houtcome, w, hw, hmean, -⟩ := Expression.mean_of_parts hP hahead
      (Callee.run_application_of_ok hrun) hall
      (Callee.mean_of_run hP f (fun r hr ↦ hrefs r (List.mem_append_left _ hr)) hahead)
      (Expression.mean_of_run hP x fun r hr ↦ hrefs r (List.mem_append_right _ hr))
    refine ⟨w, ?_, hmean⟩
    have hfun : c.isVector q.typeId = .ok false := houtcome.1
    rw [Callee.simulate_application, run_bind_ok hw]
    exact run_bind_ok (run_type_ok hfun m) _

/-- **The mean of what an expression evaluates to is what it is simulated to with means**, from any
model that evaluation has made of the one that is simulated in. -/
theorem Expression.mean_of_run (hP : Model.Separates P) : (e : Expression K) →
    (∀ r ∈ e.references, m.Offers c r ∧ P r) → ∀ {m₁ m' : Model K} {r : TermReference K},
      m.Ahead c m₁ → (e.evaluate c).run m₁ = (.ok r, m') → m'.AllResults P →
      ∃ v, (e.simulate Model.meanOfTerm c).run m = (.ok ⟨r.typeId, v⟩, m) ∧
        m'.meanOf? r = some v ∧ P r
  | .reference (.function p), hrefs, m₁, m', q, hahead, hrun, hall => by
    cases hrun
    obtain ⟨hp, hPp⟩ := hrefs _ (List.mem_singleton_self _)
    obtain ⟨v, n, hv, -, -⟩ := hahead.start.exists_meanOf (r := .function p) hp
    exact ⟨v, run_bind_ok (Model.run_meanVector_some hv) _, hahead.adds.meanOf? hv, hPp⟩
  | .reference (.vector t xs o), hrefs, m₁, m', q, hahead, hrun, hall => by
    cases hrun
    exact ⟨.ofList xs, rfl, rfl, (hrefs _ (List.mem_singleton_self _)).2⟩
  | .application f x, hrefs, m₁, m', r, hahead, hrun, hall => by
    obtain ⟨-, w, hw, hmean, hr⟩ := Expression.mean_of_parts hP hahead hrun hall
      (Callee.mean_of_run hP f (fun r hr ↦ hrefs r (List.mem_append_left _ hr)) hahead)
      (Expression.mean_of_run hP x fun r hr ↦ hrefs r (List.mem_append_right _ hr))
    exact ⟨w, hw, hmean, hr⟩

end

end

/-! ## Numbers -/

namespace TermReference

/-- Whether a reference is a term or a vector of finite numbers, which has no mark. -/
def IsPlain (r : TermReference Float) : Prop := r.unmarked = r ∧ r.IsFinite

/-- Whether two references are one term, or vectors that differ in the signs of zeros at most. -/
def SameUpToZeros : TermReference Float → TermReference Float → Prop
  | function p, function q => p = q
  | vector t xs _, vector u ys _ => t = u ∧
      List.Forall₂ (fun x y ↦ x = y ∨ (Decimal.IsZero x ∧ Decimal.IsZero y)) xs ys
  | _, _ => False

private theorem sameUpToZeros_of_beq {r s : TermReference Float} (hr : r.IsPlain) (hs : s.IsPlain)
    (h : (r == s) = true) : r.SameUpToZeros s := by
  cases s with
  | function q =>
    cases r with
    | function p => exact (of_decide_eq_true h : p = q)
    | vector t xs o => cases h
  | vector u ys o =>
    obtain rfl : Occurrence.anywhere = o := by injection hs.1
    obtain ⟨xs, o', rfl, hentries⟩ := exists_of_beq_vector h
    refine ⟨rfl, ?_⟩
    have hxs : ∀ x ∈ xs, x.isFinite = true := hr.2
    have hys : ∀ y ∈ ys, y.isFinite = true := hs.2
    -- entries that compare equal are equal or zeros, one by one
    clear h hr hs
    induction xs generalizing ys with
    | nil =>
      cases ys with
      | nil => exact .nil
      | cons y ys => cases hentries
    | cons x xs ih =>
      cases ys with
      | nil => cases hentries
      | cons y ys =>
        rw [List.cons_beq_cons, Bool.and_eq_true] at hentries
        rw [List.forall_mem_cons] at hxs hys
        exact .cons (Decimal.eq_or_isZero_of_beq hxs.1 hys.1 hentries.1)
          (ih ys hentries.2 hxs.2 hys.2)

/-- Without zeros there are no signs of zeros. -/
private theorem eq_of_sameUpToZeros {r s : TermReference Float} (hr : r.IsPlain) (hs : s.IsPlain)
    (hzeros : ∀ t xs o, r = .vector t xs o → ∀ x ∈ xs, ¬Decimal.IsZero x)
    (h : r.SameUpToZeros s) : r = s := by
  cases r with
  | function p =>
    cases s with
    | function q => exact congrArg TermReference.function h
    | vector u ys o => cases h
  | vector t xs o =>
    cases s with
    | function q => cases h
    | vector u ys o' =>
      obtain ⟨rfl, hentries⟩ := h
      obtain rfl : Occurrence.anywhere = o := by injection hr.1
      obtain rfl : Occurrence.anywhere = o' := by injection hs.1
      have hxs := hzeros t xs _ rfl
      clear hr hs hzeros
      congr 1
      induction hentries with
      | nil => rfl
      | cons hxy _ ih =>
        rw [List.forall_mem_cons] at hxs
        rw [hxy.resolve_right fun hzero ↦ hxs.1 hzero.1, ih hxs.2]

end TermReference

namespace Model

/-- The references in the results of a model. -/
def references (m : Model K) : List (TermReference K) :=
  m.results.flatMap fun row ↦ [row.1.argument, row.2]

section

variable [Routines Float]

private theorem separates_of_plain {run : List (TermReference Float)}
    (hplain : ∀ r ∈ run, r.IsPlain)
    (hzeros : ∀ r ∈ run, ∀ s ∈ run, r.SameUpToZeros s → r = s) : Separates (· ∈ run) := by
  intro r s hr hs h
  rw [hzeros r hr s hs (TermReference.sameUpToZeros_of_beq (hplain r hr) (hplain s hs) h)]

variable {source : NoiseSource Float} {c : Context} {m : Model Float}

theorem evolves_leave {a : Action} (ha : a.IsEvaluation) : Evolves c m (a.leave source c m) := by
  cases a with
  | evaluate p argument => exact evolves_evaluate p argument m
  | evaluateExpression e => exact e.evolves_evaluate m
  | sample p => cases ha
  | simulateExpression e => cases ha
  | learn => cases ha
  | clearPending => cases ha

private theorem evolves_foldl_leave {earlier : List Action}
    (hearlier : ∀ a ∈ earlier, a.IsEvaluation) :
    Evolves c m (earlier.foldl (Action.leave source c) m) := by
  induction earlier generalizing m with
  | nil => exact Std.Refl.refl m
  | cons a earlier ih =>
    rw [List.forall_mem_cons] at hearlier
    exact IsTrans.trans _ _ _ (evolves_leave hearlier.1) (ih hearlier.2)

/-- Results are current as long as nothing but evaluation happens. -/
theorem ReachableBy.current [Routines.Shaped Float]
    (h : ReachableBy Action.IsEvaluation source c m) : m.Current c := by
  induction h with
  | fresh h =>
    intro row hrow
    rw [results_of_fresh h] at hrow
    cases hrow
  | act h ha ih => exact (evolves_leave ha h.consistent ih).2.1
  | checkout h hs hm' ih =>
    -- what is taken up again is the model without its marks
    obtain ⟨-, rfl⟩ := (h.consistent.toModel_ofModel hs _).mp hm'
    exact ih.unmarked

/-- **Evaluation finds what a simulation with means finds.** If beliefs never changed, the vectors
in a run are finite and no two of them differ in the signs of zeros alone, then an expression
evaluates to a reference whose mean is, entry for entry, the vector that the expression is simulated
to with means for draws, and it has the same type. What was evaluated before makes no difference. -/
theorem evaluate_eq_simulate_means [Routines.Shaped Float]
    (h : ReachableBy Action.IsEvaluation source c m) {earlier : List Action}
    (hearlier : ∀ a ∈ earlier, a.IsEvaluation) {e : Expression Float}
    (hknown : ∀ p, .function p ∈ e.references → m.Knows p) {r : TermReference Float}
    {m' : Model Float}
    (hrun : (e.evaluate c).run (earlier.foldl (Action.leave source c) m) = (.ok r, m'))
    (hplain : ∀ s ∈ e.references ++ m'.references, s.IsPlain)
    (hzeros : ∀ s ∈ e.references ++ m'.references, ∀ t ∈ e.references ++ m'.references,
      s.SameUpToZeros t → s = t) :
    ∃ v, (e.simulate (fun p ↦ meanVector (.function p)) c).run m = (.ok ⟨r.typeId, v⟩, m) ∧
      (meanVector r).run m' = (.ok v, m') := by
  have hm := h.consistent
  have hoffers : ∀ s ∈ e.references, m.Offers c s := by
    intro s hs
    cases s with
    | function p => exact hknown p hs
    | vector t xs o =>
      left
      -- finite vectors carry no mark
      injection (hplain _ (List.mem_append_left _ hs)).1 with _ _ ho
      exact ho.symm
  obtain ⟨hgrown, hcurrent, hadds⟩ := evolves_foldl_leave hearlier hm h.current
  have hall : m'.AllResults (· ∈ e.references ++ m'.references) := by
    intro row hrow
    refine ⟨List.mem_append_right _ (List.mem_flatMap.mpr ⟨row, hrow, ?_⟩),
      List.mem_append_right _ (List.mem_flatMap.mpr ⟨row, hrow, ?_⟩)⟩
    · exact List.mem_cons_self
    · exact List.mem_cons_of_mem _ (List.mem_singleton_self _)
  obtain ⟨v, hsimulate, hmean, -⟩ := Expression.mean_of_run (separates_of_plain hplain hzeros) e
    (fun s hs ↦ ⟨hoffers s hs, List.mem_append_left _ hs⟩) ⟨hm, hgrown, hcurrent, hadds⟩ hrun hall
  exact ⟨v, hsimulate, run_meanVector_some hmean⟩

end

/-- In a new model a function maps a number to the one that it is simulated to with means. -/
theorem evaluate_eq_simulate_means_line : ∃ m m',
    ReachableBy Action.IsEvaluation (.tape #[20.0]) .line m ∧
    ((lineApplication 1.0).evaluate .line).run m = (.ok (.vector 0 [4.0] .anywhere), m') ∧
    ∃ v, ((lineApplication 1.0).simulate (fun p ↦ meanVector (.function p)) .line).run m =
        (.ok ⟨0, v⟩, m) ∧
      (meanVector (.vector 0 [4.0] .anywhere)).run m' = (.ok v, m') := by
  have hfacts : (Model.fresh (.tape #[20.0]) .line .unspecified).toOption.map (fun m ↦
      (m.embeddings.map (·.1), (((lineApplication 1.0).evaluate .line).run m).1.toOption,
        (((lineApplication 1.0).evaluate .line).run m).2.references)) =
      some ([⟨1, .primitive 0⟩], some (.vector 0 [4.0] .anywhere),
        [.vector 0 [1.0] .anywhere, .vector 0 [4.0] .anywhere]) := by
    decide +kernel
  have hnumbers : ∀ x ∈ [(1.0 : Float), 4.0], x ≠ 0.0 ∧ x ≠ -0.0 ∧ x.isFinite = true := by
    decide +kernel
  obtain ⟨m, hfresh, hfacts⟩ := exists_of_map_toOption_eq_some hfacts
  obtain ⟨hterms, hfacts⟩ := Prod.mk.inj hfacts
  obtain ⟨hresult, hrefs⟩ := Prod.mk.inj hfacts
  rcases hrun : ((lineApplication 1.0).evaluate .line).run m with ⟨f | r, m'⟩
  · rw [hrun] at hresult
    cases hresult
  · rw [hrun] at hresult hrefs
    cases hresult
    have hvector : ∀ x ∈ [(1.0 : Float), 4.0],
        (TermReference.vector 0 [x] .anywhere).IsPlain ∧ ¬Decimal.IsZero x := by
      intro x hx
      obtain ⟨hpositive, hnegative, hfinite⟩ := hnumbers x hx
      exact ⟨⟨rfl, List.forall_mem_singleton.mpr hfinite⟩, not_or.mpr ⟨hpositive, hnegative⟩⟩
    have hall : ∀ s ∈ (lineApplication 1.0).references ++ m'.references,
        s.IsPlain ∧ ∀ t xs o, s = .vector t xs o → ∀ x ∈ xs, ¬Decimal.IsZero x := by
      intro s hs
      have hs' : s = .function ⟨1, .primitive 0⟩ ∨
          ∃ x ∈ [(1.0 : Float), 4.0], s = .vector 0 [x] .anywhere := by
        change m'.references = _ at hrefs
        rw [hrefs] at hs
        simpa [Expression.references, Callee.references, lineApplication, or_assoc] using hs
      rcases hs' with rfl | ⟨x, hx, rfl⟩
      · exact ⟨⟨rfl, trivial⟩, by rintro t xs o ⟨⟩⟩
      · refine ⟨(hvector x hx).1, ?_⟩
        rintro _ _ _ ⟨⟩
        exact List.forall_mem_singleton.mpr (hvector x hx).2
    refine ⟨m, m', .fresh hfresh, hrun, ?_⟩
    refine evaluate_eq_simulate_means (.fresh hfresh) (List.forall_mem_nil _) ?_ hrun
      (fun s hs ↦ (hall s hs).1) fun s hs t ht ↦
        TermReference.eq_of_sameUpToZeros (hall s hs).1 (hall t ht).1 (hall s hs).2
    intro p hp
    rw [Knows, Table.isSome_get?_iff, hterms]
    simpa [Expression.references, Callee.references, lineApplication] using hp

end Model

end TermEmbedding
