import TermEmbedding.Proofs.Model.Recall

/-!
# Where terms come from

A term that evaluation brought into being is listed with the application that it is the result of.
The function of this application and its argument may be such terms themselves, so a term stands for
the tree that is found when each of them is replaced in turn.

## The order of rows

Nothing in a model forbids that a term comes from itself, by way of others. It does not happen since
an application is evaluated only after what it mentions is there: every term that is mentioned in a
row of results is declared, or it is the result of a row before this one. Rows are added at the end
and never taken away or reordered, so replacing goes back in the table and comes to an end.

The tree that is left has declared terms and vectors only, and each application in it has a row. It
is evaluated by looking up and gives back the term that it was made for.
-/

namespace TermEmbedding

variable {K : Type}

/-- Whether a term is the function of an application or its argument. -/
def Application.Mentions (a : Application K) (p : TermPointer) : Prop :=
  a.callee = p ∨ a.argument = .function p

private theorem Application.mentions_unmarked {a : Application K} {p : TermPointer} :
    a.unmarked.Mentions p ↔ a.Mentions p :=
  or_congr_right TermReference.unmarked_eq_function

/-- Whether a reference is a term that is declared, or a vector as a literal. -/
def TermReference.IsBasic (c : Context) : TermReference K → Prop
  | .function ⟨t, .primitive i⟩ => i < (c.primitiveNames t).length
  | .function ⟨_, .nonprimitive _⟩ => False
  | .vector _ _ o => o = .anywhere

private theorem Expression.recall?_of_callee? [BEq K] {m : Model K} {e : Expression K}
    {f : Callee K}
    {p : TermPointer} (h : e.callee? = some f) (hp : e.recall? m = some (.function p)) :
    f.recall? m = some p := by
  cases e with
  | application g x =>
    cases h
    rw [Callee.recall?_application, hp]
    rfl
  | reference r =>
    cases hp
    cases h
    rfl

namespace Model

/-! ## Terms that others come from -/

/-- Whether a term is mentioned in the application that another one came from. -/
def Uses (m : Model K) (q p : TermPointer) : Prop :=
  ∃ j a, p.index = .nonprimitive j ∧ (m.originsOf p.typeId)[j]? = some a ∧ a.Mentions q

/-- Rows of results in an order in which they can have come about: each of them mentions only terms
that are declared or that are results of rows before it. -/
inductive InOrder : Table (Application K) (TermReference K) → Prop
  | nil : InOrder []
  | snoc {rows : Table (Application K) (TermReference K)} (h : InOrder rows) {a : Application K}
      (r : TermReference K) (ha : ∀ t j, a.Mentions ⟨t, .nonprimitive j⟩ →
        ∃ b, (b, .function ⟨t, .nonprimitive j⟩) ∈ rows) : InOrder (rows ++ [(a, r)])

theorem InOrder.unmarked {rows : Table (Application K) (TermReference K)} (h : InOrder rows) :
    InOrder (rows.map fun row ↦ (row.1.unmarked, row.2.unmarked)) := by
  induction h with
  | nil => exact .nil
  | snoc _ r ha ih =>
    rw [List.map_append]
    refine ih.snoc r.unmarked fun t j hmentions ↦ ?_
    obtain ⟨b, hb⟩ := ha t j (Application.mentions_unmarked.mp hmentions)
    exact ⟨b.unmarked, List.mem_map.mpr ⟨_, hb, rfl⟩⟩

private theorem acc_primitive (m : Model K) (t : TypeId) (i : Nat) :
    Acc m.Uses ⟨t, .primitive i⟩ := by
  refine .intro _ fun q hq ↦ ?_
  obtain ⟨j, a, hindex, -⟩ := hq
  cases hindex

private theorem knows_of_mentions {c : Context} {m : Model K} {a : Application K} {p : TermPointer}
    (hcallee : m.Knows a.callee) (hargument : m.Denotes c a.argument) (h : a.Mentions p) :
    m.Knows p := by
  rcases h with rfl | harg
  · exact hcallee
  · rw [harg] at hargument
    exact hargument

section

variable [BEq K] {c : Context} {m : Model K}

private theorem InOrder.acc (hm : Consistent c m) {rows : Table (Application K) (TermReference K)}
    (h : InOrder rows) (hrows : rows ⊆ m.results) {a : Application K} {t : TypeId} {j : Nat}
    (ha : (a, .function ⟨t, .nonprimitive j⟩) ∈ rows) : Acc m.Uses ⟨t, .nonprimitive j⟩ := by
  induction h generalizing a t j with
  | nil => cases ha
  | @snoc rows _ b r hb ih =>
    have hbefore : rows ⊆ m.results := fun row hrow ↦ hrows (List.mem_append_left _ hrow)
    rcases List.mem_append.mp ha with ha | hlast
    · exact ih hbefore ha
    · have hrow := hrows ha
      obtain ⟨rfl, rfl⟩ := Prod.mk.inj (List.mem_singleton.mp hlast)
      refine .intro _ fun q hq ↦ ?_
      -- the term is listed with the application of this row and with no other one
      obtain ⟨i, a', hindex, hget, hmentions⟩ := hq
      cases hindex
      cases ((hm.origins t j a).mpr hrow).symm.trans hget
      obtain ⟨u, index⟩ := q
      cases index with
      | primitive i => exact acc_primitive m u i
      | nonprimitive i =>
        obtain ⟨b, hrow'⟩ := hb u i hmentions
        exact ih hbefore hrow'

/-- **No term comes from itself**, not even by way of others. -/
theorem Consistent.wellFounded_uses (hm : Consistent c m) (h : InOrder m.results) :
    WellFounded m.Uses := by
  refine ⟨fun p ↦ .intro _ fun q hq ↦ ?_⟩
  have huses := hq
  obtain ⟨j, a, hindex, hget, -⟩ := hq
  obtain ⟨t, index⟩ := p
  obtain rfl : index = .nonprimitive j := hindex
  exact (h.acc hm (fun _ hrow ↦ hrow) ((hm.origins t j a).mp hget)).inv huses

/-! ## Rows are in order -/

theorem Consistent.exists_row (hm : Consistent c m) {t : TypeId} {j : Nat}
    (h : m.Knows ⟨t, .nonprimitive j⟩) :
    ∃ a, (a, .function ⟨t, .nonprimitive j⟩) ∈ m.results := by
  have hcounts : j < (m.originsOf t).length := (hm.terms _).mp h
  exact ⟨_, (hm.origins t j _).mp (List.getElem?_eq_getElem hcounts)⟩

end

section

variable [Zero K] [One K] [Add K] [Mul K] [Numbers K] {c : Context} {m m' : Model K}

/-- **A step keeps rows in order**, since it adds a row only when what is mentioned is known. -/
theorem Step.inOrder (hm : Consistent c m) (h : InOrder m.results) {a : Application K}
    {r : Except (Failure K) (TermReference K)} (hstep : Step c m a (r, m')) :
    InOrder m'.results := by
  have hadd : ∀ {t : TypeId} {v : Tensor K}, Maps c m a t v → ∀ s,
      InOrder (m.results ++ [(a, s)]) := by
    intro t v hmaps s
    obtain ⟨hcallee, hargument, -⟩ := hmaps.argument
    exact h.snoc s fun t j hmentions ↦
      hm.exists_row (knows_of_mentions hcallee hargument hmentions)
  cases hstep with
  | known => exact h
  | refused => exact h
  | vector _ hmaps => exact hadd hmaps _
  | function _ hmaps => exact hadd hmaps _

end

section

variable [Routines Float] [Routines.Shaped Float] {allowed : Action → Prop}
  {source : NoiseSource Float} {c : Context} {m : Model Float}
  {P : Table (Application Float) (TermReference Float) →
    Table TypeId (List (Application Float)) → Prop}

/-- **What each step of evaluation keeps of the results and the origins is so in every model that
can be reached**, if it is so of none and with marks or without them. Nothing else that is done to a
model touches these tables. -/
theorem ReachableBy.of_steps (h : ReachableBy allowed source c m) (hnone : P [] [])
    (hstep : ∀ {m m' : Model Float} {a : Application Float}
      {r : Except (Failure Float) (TermReference Float)}, Consistent c m →
      P m.results m.origins → Step c m a (r, m') → P m'.results m'.origins)
    (hmarks : ∀ {m : Model Float}, P m.results m.origins →
      P m.unmarked.results m.unmarked.origins) : P m.results m.origins := by
  induction h with
  | fresh h =>
    rw [results_of_fresh h, origins_of_fresh h]
    exact hnone
  | @act m h a _ ih =>
    have hm := h.consistent
    cases a with
    | evaluate p argument => exact hstep hm ih (step_evaluate hm ⟨p, argument⟩)
    | evaluateExpression e =>
      exact e.keeps_of_step (P := fun m ↦ P m.results m.origins) hstep hm ih
    | _ =>
      rw [(tables_leave id m).1, (tables_leave id m).2]
      exact ih
  | checkout h hs hm' ih =>
    obtain ⟨-, rfl⟩ := (h.consistent.toModel_ofModel hs _).mp hm'
    exact hmarks ih

/-- **In every model that can be reached the rows of results are in order.** -/
theorem ReachableBy.inOrder (h : ReachableBy allowed source c m) : InOrder m.results :=
  h.of_steps (P := fun results _ ↦ InOrder results) .nil
    (fun hm horder hstep ↦ hstep.inOrder hm horder) (fun horder ↦ horder.unmarked)

end

/-! ## What a term stands for -/

/-- What is left of a reference when each term that evaluation brought into being is replaced by the
application that it is listed with. Vectors are written as literals. -/
inductive Unfolds (m : Model K) : TermReference K → Expression K → Prop
  | vector (t : TypeId) (xs : List K) (o : Occurrence) :
    Unfolds m (.vector t xs o) (.reference (.vector t xs .anywhere))
  | primitive (t : TypeId) (i : Nat) :
    Unfolds m (.function ⟨t, .primitive i⟩) (.reference (.function ⟨t, .primitive i⟩))
  | applied {t : TypeId} {j : Nat} {a : Application K} {e x : Expression K} {f : Callee K}
    (hget : (m.originsOf t)[j]? = some a) (hcallee : Unfolds m (.function a.callee) e)
    (he : e.callee? = some f) (hargument : Unfolds m a.argument x) :
    Unfolds m (.function ⟨t, .nonprimitive j⟩) (.application f x)

theorem Unfolds.unique {m : Model K} {r : TermReference K} {e e' : Expression K}
    (h : m.Unfolds r e) (h' : m.Unfolds r e') : e = e' := by
  induction h generalizing e' with
  | vector t xs o =>
    cases h'
    rfl
  | primitive t i =>
    cases h'
    rfl
  | applied hget _ he _ ihcallee ihargument =>
    cases h' with
    | applied hget' hcallee' he' hargument' =>
      cases hget.symm.trans hget'
      cases ihcallee hcallee'
      cases ihargument hargument'
      cases he.symm.trans he'
      rfl

/-- What a term stands for can be applied. -/
private theorem Unfolds.exists_callee {m : Model K} {p : TermPointer} {e : Expression K}
    (h : m.Unfolds (.function p) e) : ∃ f, e.callee? = some f := by
  cases h with
  | primitive t i => exact ⟨_, rfl⟩
  | applied => exact ⟨_, rfl⟩

section

variable [BEq K] {c : Context} {m : Model K}

/-- **Every known reference stands for something.** -/
theorem Consistent.exists_unfolds (hm : Consistent c m) (hwf : WellFounded m.Uses)
    {r : TermReference K} (hr : m.Denotes c r) : ∃ e, m.Unfolds r e := by
  have hterm : ∀ p, m.Knows p → ∃ e, m.Unfolds (.function p) e := by
    intro p
    induction p using hwf.induction with
    | _ p ih =>
      intro hp
      obtain ⟨t, index⟩ := p
      cases index with
      | primitive i => exact ⟨_, .primitive t i⟩
      | nonprimitive j =>
        obtain ⟨a, hrow⟩ := hm.exists_row hp
        have hget := (hm.origins t j a).mpr hrow
        have htyped := hm.results _ hrow
        obtain ⟨e, he⟩ := ih a.callee ⟨j, a, rfl, hget, .inl rfl⟩ htyped.callee
        obtain ⟨f, hf⟩ := he.exists_callee
        obtain ⟨x, hx⟩ : ∃ x, m.Unfolds a.argument x := by
          cases hargument : a.argument with
          | vector u xs o => exact ⟨_, .vector u xs o⟩
          | function q =>
            exact ih q ⟨j, a, rfl, hget, .inr hargument⟩
              (knows_of_mentions htyped.callee htyped.argument (.inr hargument))
        exact ⟨_, .applied hget he hf hx⟩
  cases r with
  | function p => exact hterm p hr
  | vector t xs o => exact ⟨_, .vector t xs o⟩

private theorem Consistent.typedRow_of_origin (hm : Consistent c m) {t : TypeId} {j : Nat}
    {a : Application K} (h : (m.originsOf t)[j]? = some a) :
    m.TypedRow c (a, .function ⟨t, .nonprimitive j⟩) :=
  hm.results _ ((hm.origins t j a).mp h)

/-- **Nothing but declared terms and literals is left.** -/
theorem Unfolds.isBasic (hm : Consistent c m) {r : TermReference K} {e : Expression K}
    (h : m.Unfolds r e) (hr : m.Denotes c r) : ∀ s ∈ e.references, s.IsBasic c := by
  induction h with
  | vector t xs o =>
    intro s hs
    rw [List.mem_singleton.mp hs]
    exact rfl
  | primitive t i =>
    intro s hs
    rw [List.mem_singleton.mp hs]
    exact (hm.terms _).mp hr
  | applied hget _ he _ ihcallee ihargument =>
    have htyped := hm.typedRow_of_origin hget
    intro s hs
    rcases List.mem_append.mp hs with hs | hs
    · rw [Expression.references_of_callee? he] at hs
      exact ihcallee htyped.callee s hs
    · exact ihargument htyped.argument s hs

end

section

variable {c : Context} {m : Model Float}

private theorem Consistent.get?_unmarked (hm : Consistent c m) (hfinite : m.IsFinite)
    {a : Application Float} {r : TermReference Float} (hrow : (a, r) ∈ m.results) :
    m.results.get? a.unmarked = some r := by
  refine Table.get?_of_pairwise hm.resultsOnce hrow ?_ ?_
  · exact Application.beq_iff.mpr ⟨rfl, TermReference.beq_unmarked_of_isFinite (hfinite _ hrow).1⟩
  · intro k hk
    obtain ⟨hcallee, hargument⟩ := Application.beq_iff.mp hk
    exact Application.beq_iff.mpr ⟨hcallee, TermReference.beq_of_beq_unmarked_right hargument⟩

/-- **What a reference stands for is recalled as the reference.** -/
theorem Unfolds.recall?_eq (hm : Consistent c m) (hfinite : m.IsFinite) {r : TermReference Float}
    {e : Expression Float} (h : m.Unfolds r e) : e.recall? m = some r.unmarked := by
  induction h with
  | vector t xs o => rfl
  | primitive t i => rfl
  | @applied t j a e x f hget _ he _ ihcallee ihargument =>
    rw [Expression.recall?_application_eq_some]
    refine ⟨a.callee, a.argument.unmarked, ?_, ihargument, ?_⟩
    · exact Expression.recall?_of_callee? he ihcallee
    · exact hm.get?_unmarked hfinite ((hm.origins t j a).mp hget)

/-- **Where a term comes from is a finite tree, and the tree evaluates to the term.** In every model
that can be reached with finite vectors, no term comes from itself by way of others. So each term
that evaluation brought into being stands for exactly one expression, in which there are no terms
but declared ones and otherwise only literals, and this expression evaluates to the term and leaves
the model as it is. -/
theorem evaluate_unfolded [Routines Float] [Routines.Shaped Float]
    {source : NoiseSource Float} (h : Reachable source c m) (hfinite : m.IsFinite) :
    WellFounded m.Uses ∧
    ∀ t j, j < (m.originsOf t).length →
      ∃ e, (∀ e', m.Unfolds (.function ⟨t, .nonprimitive j⟩) e' ↔ e' = e) ∧
        (∀ s ∈ e.references, s.IsBasic c) ∧
        (e.evaluate c).run m = (.ok (.function ⟨t, .nonprimitive j⟩), m) := by
  have hm := h.consistent
  have hwf := hm.wellFounded_uses h.inOrder
  refine ⟨hwf, fun t j hj ↦ ?_⟩
  have hknown : m.Knows ⟨t, .nonprimitive j⟩ := (hm.terms _).mpr hj
  obtain ⟨e, he⟩ := hm.exists_unfolds hwf (r := .function ⟨t, .nonprimitive j⟩) hknown
  refine ⟨e, fun e' ↦ ⟨fun he' ↦ he'.unique he, ?_⟩, he.isBasic hm hknown,
    e.run_of_recall? (he.recall?_eq hm hfinite)⟩
  rintro rfl
  exact he

end

end Model

/-- Numbers, their functions, and functions of two and of three numbers, which are applied to one
after the other. A function of three numbers is declared. -/
def Context.curried : Context where
  kinds := [.vector 1, .function 0 0 none, .function 0 1 none, .function 0 2 none]
  primitives := [(3, [Json.name "h"])]
  wellFormed := by
    refine @Kind.WellFormed.snoc [.vector 1, .function 0 0 none, .function 0 1 none]
      (.function 0 2 none) (@Kind.WellFormed.snoc [.vector 1, .function 0 0 none]
        (.function 0 1 none) (@Kind.WellFormed.snoc [.vector 1] (.function 0 0 none)
          (.snoc .nil (Nat.le_refl 1)) ?_) ?_) ?_
    all_goals
      refine ⟨by decide, by decide, ?_⟩
      rintro _ ⟨⟩
  ascending := by decide
  functional := by
    rintro _ (_ | _)
    · exact ⟨.function 0 2 none, rfl, rfl⟩
    · contradiction

namespace Model

/-- The declared function of three numbers, which is applied to two of them. -/
def curriedApplication : Expression Float :=
  .application (.application (.term ⟨3, .primitive 0⟩) (.reference (.vector 0 [1.0] .anywhere)))
    (.reference (.vector 0 [2.0] .anywhere))

/-- The rows that its evaluation adds to a new model. -/
def curriedResults : Table (Application Float) (TermReference Float) :=
  [(⟨⟨3, .primitive 0⟩, .vector 0 [1.0] .anywhere⟩, .function ⟨2, .nonprimitive 0⟩),
    (⟨⟨2, .nonprimitive 0⟩, .vector 0 [2.0] .anywhere⟩, .function ⟨1, .nonprimitive 0⟩)]

theorem isFinite_of_curriedResults {m : Model Float} (h : m.results = curriedResults) :
    m.IsFinite := by
  have hnumbers : (1.0 : Float).isFinite = true ∧ (2.0 : Float).isFinite = true := by
    decide +kernel
  intro row hrow
  rw [h] at hrow
  rcases List.mem_cons.mp hrow with rfl | hrow
  · exact ⟨List.forall_mem_singleton.mpr hnumbers.1, trivial⟩
  · rw [List.mem_singleton.mp hrow]
    exact ⟨List.forall_mem_singleton.mpr hnumbers.2, trivial⟩

/-- A term that comes from another one stands for an expression with the declared term alone. -/
theorem evaluate_unfolded_curried : ∃ m e, Reachable (.tape #[20.0]) .curried m ∧
    m.originsOf 1 = [⟨⟨2, .nonprimitive 0⟩, .vector 0 [2.0] .anywhere⟩] ∧
    m.Unfolds (.function ⟨1, .nonprimitive 0⟩) e ∧ (∀ s ∈ e.references, s.IsBasic .curried) ∧
    (e.evaluate .curried).run m = (.ok (.function ⟨1, .nonprimitive 0⟩), m) := by
  have hfacts : (Model.fresh (.tape #[20.0]) .curried .unspecified).toOption.map (fun m ↦
      (((curriedApplication.evaluate .curried).run m).2.results,
        ((curriedApplication.evaluate .curried).run m).2.originsOf 1)) =
      some (curriedResults, [⟨⟨2, .nonprimitive 0⟩, .vector 0 [2.0] .anywhere⟩]) := by
    decide +kernel
  obtain ⟨m, hfresh, hfacts⟩ := exists_of_map_toOption_eq_some hfacts
  obtain ⟨hresults, horigins⟩ := Prod.mk.inj hfacts
  have h : Reachable (.tape #[20.0]) .curried
      ((Action.evaluateExpression curriedApplication).leave (.tape #[20.0]) .curried m) :=
    .act (.fresh hfresh) trivial
  have hfinite : ((Action.evaluateExpression curriedApplication).leave (.tape #[20.0]) .curried
      m).IsFinite := isFinite_of_curriedResults hresults
  have hlisted : 0 < (originsOf ((Action.evaluateExpression curriedApplication).leave
      (.tape #[20.0]) .curried m) 1).length := by
    rw [Action.leave, horigins]
    exact Nat.one_pos
  obtain ⟨e, hunfolds, hbasic, hrun⟩ := (evaluate_unfolded h hfinite).2 1 0 hlisted
  exact ⟨_, e, h, horigins, (hunfolds e).mpr rfl, hbasic, hrun⟩

end Model

end TermEmbedding
