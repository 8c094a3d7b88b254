import Mathlib.Data.List.Nodup
import TermEmbedding.Proofs.Model.Folding
import TermEmbedding.Proofs.Model.Reachable

/-!
# The order in which results are folded in

Results are folded into beliefs group by group, and each group finds the beliefs that the groups
before it have left. It asks for few of them: the belief about its own function, and those about
functions among its arguments and results. It changes one, the belief about its own function. So two
groups of which neither asks for the function of the other can change places, and with them whole
lists of such groups.

Groups come from a queue. A group is made of the applications of its function, in their order, and
nothing else in the queue matters to it. If the applications of every function keep their order, a
queue that is rearranged has the same groups, though they may come in another order.
-/

namespace TermEmbedding

variable {K : Type}

/-! ## Operations that see the same -/

namespace Operation

variable {α β : Type} {m m₂ : Model K}

/-- An operation has one outcome in two models, and leaves both as they are. -/
def SeesSame (m m₂ : Model K) (x : Operation K α) : Prop :=
  ∃ r, x.run m = (r, m) ∧ x.run m₂ = (r, m₂)

private theorem seesSame_pure (a : α) : (pure a : Operation K α).SeesSame m m₂ := ⟨.ok a, rfl, rfl⟩

private theorem seesSame_throw (e : Failure K) : (throw e : Operation K α).SeesSame m m₂ :=
  ⟨.error e, rfl, rfl⟩

private theorem seesSame_get_bind {f : Model K → Operation K α} (hsame : f m₂ = f m)
    (hf : (f m).SeesSame m m₂) : (get >>= f).SeesSame m m₂ := by
  obtain ⟨r, hm, hm₂⟩ := hf
  refine ⟨r, (run_bind_ok (run_get m) f).trans hm, (run_bind_ok (run_get m₂) f).trans ?_⟩
  rw [hsame]
  exact hm₂

private theorem seesSame_type (x : Except Context.TypeFault α) :
    (liftM x : Operation K α).SeesSame m m₂ := ⟨_, rfl, rfl⟩

private theorem seesSame_linear (x : Except LinearError α) :
    (liftM x : Operation K α).SeesSame m m₂ :=
  ⟨_, rfl, rfl⟩

private theorem seesSame_except (x : Except (Failure K) α) :
    (liftM x : Operation K α).SeesSame m m₂ :=
  ⟨_, rfl, rfl⟩

/-- After an operation that sees the same, two runs go on with one answer or end with one
failure. -/
private theorem SeesSame.run_bind {x : Operation K α} (hx : x.SeesSame m m₂) {f : α → Operation K β}
    {P : Except (Failure K) β × Model K → Except (Failure K) β × Model K → Prop}
    (herror : ∀ e, P (.error e, m) (.error e, m₂))
    (hf : ∀ a, x.run m = (.ok a, m) → P ((f a).run m) ((f a).run m₂)) :
    P ((x >>= f).run m) ((x >>= f).run m₂) := by
  obtain ⟨r, hm, hm₂⟩ := hx
  cases r with
  | error e =>
    rw [run_bind_error hm, run_bind_error hm₂]
    exact herror e
  | ok a =>
    rw [run_bind_ok hm, run_bind_ok hm₂]
    exact hf a hm

theorem SeesSame.bind {x : Operation K α} (hx : x.SeesSame m m₂) {f : α → Operation K β}
    (hf : ∀ a, (f a).SeesSame m m₂) : (x >>= f).SeesSame m m₂ :=
  hx.run_bind (P := fun outcome outcome₂ ↦ ∃ r, outcome = (r, m) ∧ outcome₂ = (r, m₂))
    (fun e ↦ ⟨.error e, rfl, rfl⟩) fun a _ ↦ hf a

private theorem seesSame_mapM {f : α → Operation K β} {xs : List α}
    (hf : ∀ x ∈ xs, (f x).SeesSame m m₂) : (xs.mapM f).SeesSame m m₂ := by
  induction xs with
  | nil => exact seesSame_pure _
  | cons x xs ih =>
    rw [List.forall_mem_cons] at hf
    rw [List.mapM_cons]
    exact hf.1.bind fun _ ↦ (ih hf.2).bind fun _ ↦ seesSame_pure _

end Operation

namespace Model

open Operation

variable {c : Context} {m m₂ m' : Model K}

/-! ## What a group asks for -/

/-- Two models with the same results and matrices, and with the same beliefs about some terms. -/
structure Alike (terms : TermPointer → Prop) (m m₂ : Model K) : Prop where
  results : m₂.results = m.results
  elaborators : m₂.elaborators = m.elaborators
  embeddings : ∀ q, terms q → m₂.embeddings.get? q = m.embeddings.get? q

variable {terms : TermPointer → Prop}

theorem Alike.symm (h : Alike terms m m₂) : Alike terms m₂ m :=
  ⟨h.results.symm, h.elaborators.symm, fun q hq ↦ (h.embeddings q hq).symm⟩

theorem Alike.embedding (h : Alike terms m m₂) {p : TermPointer} (hp : terms p) :
    (embedding p).SeesSame m m₂ := by
  refine seesSame_get_bind (by rw [h.embeddings p hp]) ?_
  split
  · exact seesSame_pure _
  · exact seesSame_throw _

theorem Alike.elaborator (h : Alike terms m m₂) (t : TypeId) : (elaborator t).SeesSame m m₂ := by
  refine seesSame_get_bind (by rw [h.elaborators]) ?_
  split
  · exact seesSame_pure _
  · exact seesSame_throw _

theorem Alike.meanVector (h : Alike terms m m₂) {r : TermReference K}
    (hr : ∀ q, r = .function q → terms q) : (meanVector r).SeesSame m m₂ := by
  cases r with
  | function p => exact (h.embedding (hr p rfl)).bind fun _ ↦ seesSame_pure _
  | vector t xs o => exact seesSame_pure _

theorem Alike.observedFeatures [One K] (h : Alike terms m m₂) (space : Context.FeatureSpace)
    {argument : TermReference K} (hargument : ∀ q, argument = .function q → terms q) :
    (observedFeatures space argument).SeesSame m m₂ :=
  (h.meanVector hargument).bind fun _ ↦ seesSame_except _

/-- The terms whose beliefs a group asks for. -/
inductive Consults [BEq K] (results : Table (Application K) (TermReference K))
    (group : TermPointer × List (TermReference K)) : TermPointer → Prop
  /-- The function that was applied. -/
  | callee : Consults results group group.1
  /-- A function that it was applied to. -/
  | argument {q : TermPointer} (h : .function q ∈ group.2) : Consults results group q
  /-- A function that came out. -/
  | result {q : TermPointer} {argument : TermReference K} (h : argument ∈ group.2)
      (hresult : results.get? ⟨group.1, argument⟩ = some (.function q)) : Consults results group q

/-- What a group does not ask for makes no difference to it. -/
private theorem alike_revise [BEq K] {group : TermPointer × List (TermReference K)}
    {p : TermPointer} (hp : ¬Consults m.results group p) (e : Embedding K) :
    Alike (Consults m.results group) m (m.revise p e) := by
  refine ⟨rfl, rfl, fun q hq ↦ ?_⟩
  have hne : p ≠ q := by
    rintro rfl
    exact hp hq
  rw [revise, Table.get?_insert, if_neg hne]

section

variable [Zero K] [Add K] [Mul K] [Numbers K]

theorem Alike.compress (h : Alike terms m m₂) (t : TypeId) (v : Tensor K) :
    (compress c t v).SeesSame m m₂ := by
  refine (seesSame_type _).bind fun b ↦ ?_
  split
  · exact seesSame_pure v
  · exact (h.elaborator t).bind fun _ ↦ (seesSame_linear _).bind fun _ ↦ seesSame_linear _

theorem Alike.observedTarget (h : Alike terms m m₂) (t : TypeId) {p : TermPointer}
    {argument : TermReference K}
    (hresult : ∀ q, m.results.get? ⟨p, argument⟩ = some (.function q) → terms q) :
    (observedTarget c t p argument).SeesSame m m₂ := by
  refine seesSame_get_bind (by rw [h.results]) ?_
  split
  · exact seesSame_throw _
  · rename_i result hget
    exact (h.meanVector fun q hq ↦ hresult q (hq ▸ hget)).bind fun v ↦ h.compress t v

end

section

variable [Zero K] [One K] [Add K] [Mul K] [Div K] [Numbers K]

/-- What comes of folding a group into the belief about a term of two models. -/
inductive ObservedAlike (m m₂ : Model K) (p : TermPointer) :
    Except (Failure K) Unit × Model K → Except (Failure K) Unit × Model K → Prop
  | failed (f : Failure K) : ObservedAlike m m₂ p (.error f, m) (.error f, m₂)
  | folded (e : Embedding K) (hp : m.Knows p) :
    ObservedAlike m m₂ p (.ok (), m.revise p e) (.ok (), m₂.revise p e)

/-- **A group makes the same of what it asks for in two models that agree on it.** -/
theorem observedAlike_observe {group : TermPointer × List (TermReference K)}
    (h : Alike (Consults m.results group) m m₂) :
    ObservedAlike m m₂ group.1 ((observe c group.1 group.2).run m)
      ((observe c group.1 group.2).run m₂) := by
  refine (seesSame_type _).run_bind .failed fun s _ ↦ ?_
  refine (seesSame_type _).run_bind .failed fun space _ ↦ ?_
  refine (seesSame_mapM fun argument hargument ↦ h.observedFeatures space fun q hq ↦
    .argument (hq ▸ hargument)).run_bind .failed fun _ _ ↦ ?_
  refine (seesSame_linear _).run_bind .failed fun features _ ↦ ?_
  refine (seesSame_mapM fun argument hargument ↦ h.observedTarget s.2 fun q hq ↦
    .result hargument hq).run_bind .failed fun _ _ ↦ ?_
  refine (seesSame_linear _).run_bind .failed fun targets _ ↦ ?_
  refine (h.embedding .callee).run_bind .failed fun e he ↦ ?_
  refine (seesSame_linear _).run_bind .failed fun updated _ ↦ ?_
  refine .folded updated ?_
  rw [Knows, (eq_of_run_embedding he).1]
  rfl

end

/-! ## Groups that change places -/

/-- Neither of two groups asks for the function of the other. -/
def Independent [BEq K] (results : Table (Application K) (TermReference K))
    (group other : TermPointer × List (TermReference K)) : Prop :=
  ¬Consults results group other.1 ∧ ¬Consults results other group.1

theorem Independent.symm [BEq K] {results : Table (Application K) (TermReference K)}
    {group other : TermPointer × List (TermReference K)} (h : Independent results group other) :
    Independent results other group :=
  ⟨h.2, h.1⟩

private theorem eq_of_revise_eq {p : TermPointer} {e e' : Embedding K}
    (h : m.revise p e = m.revise p e') : e = e' := by
  have hget : ∀ e, (m.revise p e).embeddings.get? p = some e := fun e ↦ by
    rw [revise, Table.get?_insert, if_pos rfl]
  exact Option.some.inj ((hget e).symm.trans (h ▸ hget e'))

private theorem revise_comm {p q : TermPointer} (hne : p ≠ q) (hp : m.Knows p) (hq : m.Knows q)
    (e e' : Embedding K) : (m.revise p e).revise q e' = (m.revise q e').revise p e := by
  rw [revise, revise, revise, revise]
  exact congrArg (fun embeddings ↦ { m with embeddings }) (Table.insert_comm hne hp hq e e')

section

variable [Zero K] [One K] [Add K] [Mul K] [Div K] [Numbers K]
  {group other : TermPointer × List (TermReference K)}
  {groups others : Table TermPointer (List (TermReference K))}

/-- A group that is folded in changes the belief about its function, and would have made the same of
it in every model that agrees on what the group asks for. -/
theorem exists_of_run_observe (h : (observe c group.1 group.2).run m = (.ok (), m')) :
    ∃ e, m.Knows group.1 ∧ m' = m.revise group.1 e ∧
      ∀ m₂, Alike (Consults m.results group) m m₂ →
        (observe c group.1 group.2).run m₂ = (.ok (), m₂.revise group.1 e) := by
  have hstep := observed_observe (c := c) group.1 group.2 m
  rw [h] at hstep
  cases hstep with
  | folded e hknows =>
    refine ⟨e, hknows, rfl, fun m₂ hm₂ ↦ ?_⟩
    have hboth := observedAlike_observe (c := c) hm₂
    rw [h] at hboth
    generalize hrun₂ : (observe c group.1 group.2).run m₂ = outcome at hboth ⊢
    generalize hm' : m.revise group.1 e = m' at hboth
    cases hboth with
    | folded e' _ => rw [eq_of_revise_eq hm']

theorem run_observeAll_cons_iff :
    (observeAll c (group :: groups)).run m = (.ok (), m') ↔
      ∃ m₁, (observe c group.1 group.2).run m = (.ok (), m₁) ∧
        (observeAll c groups).run m₁ = (.ok (), m') := by
  constructor
  · intro h
    rcases hrun : (observe c group.1 group.2).run m with ⟨f | ⟨⟩, m₁⟩
    · have herror : (observeAll c (group :: groups)).run m = (.error f, m₁) :=
        run_bind_error hrun _
      rw [herror] at h
      cases h
    · exact ⟨m₁, rfl, (run_bind_ok hrun _).symm.trans h⟩
  · rintro ⟨m₁, hrun, h⟩
    exact (run_bind_ok hrun _).trans h

/-- **Two groups that do not ask for each other's functions can change places.** -/
theorem run_observeAll_swap (h : Independent m.results group other)
    (hrun : (observeAll c (group :: other :: groups)).run m = (.ok (), m')) :
    (observeAll c (other :: group :: groups)).run m = (.ok (), m') := by
  simp only [run_observeAll_cons_iff] at hrun ⊢
  obtain ⟨m₁, hgroup, m₂, hother, hrest⟩ := hrun
  obtain ⟨e, hknows, rfl, hsecond⟩ := exists_of_run_observe hgroup
  obtain ⟨e', -, rfl, hfirst⟩ := exists_of_run_observe hother
  have hother := hfirst m (alike_revise h.2 e).symm
  obtain ⟨-, hknows', -⟩ := exists_of_run_observe hother
  refine ⟨_, hother, _, hsecond _ (alike_revise h.1 e'), ?_⟩
  have hne : group.1 ≠ other.1 := fun heq ↦ h.1 (heq ▸ .callee)
  rwa [← revise_comm hne hknows hknows']

/-- **Groups that do not ask for each other's functions can be folded in in any order.** -/
theorem run_observeAll_of_perm (hperm : groups.Perm others)
    (h : groups.Pairwise (Independent m.results))
    (hrun : (observeAll c groups).run m = (.ok (), m')) :
    (observeAll c others).run m = (.ok (), m') := by
  induction hperm generalizing m with
  | nil => exact hrun
  | cons group _ ih =>
    rw [run_observeAll_cons_iff] at hrun ⊢
    obtain ⟨m₁, hgroup, hrest⟩ := hrun
    obtain ⟨e, -, rfl, -⟩ := exists_of_run_observe hgroup
    exact ⟨_, hgroup, ih (List.pairwise_cons.mp h).2 hrest⟩
  | swap group other groups =>
    have hfirst := (List.pairwise_cons.mp h).1 group List.mem_cons_self
    exact run_observeAll_swap hfirst hrun
  | trans hperm _ ih ih' =>
    exact ih' ((hperm.pairwise_iff Independent.symm).mp h) (ih h hrun)

private theorem run_observeAll_pending (queue : List (Application K))
    (hrun : (observeAll c groups).run m = (.ok (), m')) :
    (observeAll c groups).run { m with pending := queue } =
      (.ok (), { m' with pending := queue }) := by
  induction groups generalizing m with
  | nil =>
    cases hrun
    rfl
  | cons group groups ih =>
    rw [run_observeAll_cons_iff] at hrun ⊢
    obtain ⟨m₁, hgroup, hrest⟩ := hrun
    obtain ⟨e, -, rfl, hsame⟩ := exists_of_run_observe hgroup
    exact ⟨_, hsame _ ⟨rfl, rfl, fun _ _ ↦ rfl⟩, ih hrest⟩

/-- Groups change beliefs about their own functions only. -/
private theorem get?_of_run_observeAll {p : TermPointer}
    (hrun : (observeAll c groups).run m = (.ok (), m')) (hp : ∀ group ∈ groups, group.1 ≠ p) :
    m'.embeddings.get? p = m.embeddings.get? p := by
  induction groups generalizing m with
  | nil =>
    cases hrun
    rfl
  | cons group groups ih =>
    rw [List.forall_mem_cons] at hp
    rw [run_observeAll_cons_iff] at hrun
    obtain ⟨m₁, hgroup, hrest⟩ := hrun
    obtain ⟨e, -, rfl, -⟩ := exists_of_run_observe hgroup
    rw [ih hrest hp.2, revise, Table.get?_insert, if_neg hp.1]

end

/-! ## Queues that are rearranged -/

section

variable {applications queue : List (Application K)}

/-- If the applications of every function keep their order, the groups stay what they are. -/
private theorem perm_grouped_of_filter_eq
    (h : ∀ p, queue.filter (·.callee = p) = applications.filter (·.callee = p)) :
    (grouped applications).Perm (grouped queue) := by
  refine (List.perm_ext_iff_of_nodup (List.Nodup.of_map _ (nodup_grouped _))
    (List.Nodup.of_map _ (nodup_grouped _))).mpr fun group ↦ ?_
  rw [mem_grouped_iff, mem_grouped_iff, h]

private theorem filter_swap {a b : Application K} (hne : a.callee ≠ b.callee)
    (applications : List (Application K)) (p : TermPointer) :
    (b :: a :: applications).filter (·.callee = p) =
      (a :: b :: applications).filter (·.callee = p) := by
  by_cases ha : a.callee = p
  · have hb : b.callee ≠ p := fun hb ↦ hne (ha.trans hb.symm)
    simp [ha, hb]
  · simp [List.filter_cons, ha]

/-- Where no function that was applied is an argument or a result, no group asks for the function of
another one. -/
private theorem pairwise_independent_grouped [BEq K]
    {results : Table (Application K) (TermReference K)} (h : ∀ a ∈ applications, ∀ b ∈ applications,
      a.argument ≠ .function b.callee ∧ results.get? a ≠ some (.function b.callee)) :
    (grouped applications).Pairwise (Independent results) := by
  have hasked : ∀ {group other}, group ∈ grouped applications → other ∈ grouped applications →
      group.1 ≠ other.1 → ¬Consults results group other.1 := by
    intro group other hgroup hother hne hasks
    obtain ⟨argument, hargument⟩ := List.exists_mem_of_ne_nil _ (ne_nil_of_mem_grouped hother)
    have happlied := mem_of_mem_grouped hother hargument
    generalize hq : other.1 = q at hasks hne happlied
    cases hasks with
    | callee => exact hne rfl
    | argument h' => exact (h _ (mem_of_mem_grouped hgroup h') _ happlied).1 rfl
    | result h' hresult => exact (h _ (mem_of_mem_grouped hgroup h') _ happlied).2 hresult
  have hkeys := nodup_grouped applications
  rw [List.Nodup, List.pairwise_map] at hkeys
  exact hkeys.imp_of_mem fun hgroup hother hne ↦
    ⟨hasked hgroup hother hne, hasked hother hgroup hne.symm⟩

end

section

variable [Zero K] [One K] [Add K] [Mul K] [Div K] [Numbers K]

/-- **Results can be folded in in any order.** Let all pending applications be folded in. Nothing
but beliefs changes, and these only about functions whose applications are pending. If in addition
none of these functions is an argument or a result of a pending application, the beliefs that come
of it are the same for every queue in which the applications of every single function are in the
same order. -/
theorem learn_in_any_order (h : (learn c).run m = (.ok (), m')) :
    m.SameButBeliefs m' ∧
    (∀ p, (∀ a ∈ m.pending, a.callee ≠ p) → m'.embeddings.get? p = m.embeddings.get? p) ∧
    ((∀ a ∈ m.pending, ∀ b ∈ m.pending,
        a.argument ≠ .function b.callee ∧ m.results.get? a ≠ some (.function b.callee)) →
      ∀ queue : List (Application K),
        (∀ p, queue.filter (·.callee = p) = m.pending.filter (·.callee = p)) →
        (learn c).run { m with pending := queue } = (.ok (), { m' with pending := queue })) := by
  have hlearn : ∀ m : Model K, (learn c : Operation K Unit).run m =
      (observeAll c (grouped m.pending)).run m := fun m ↦ run_bind_ok (run_get m) _
  have hsame := sameButBeliefs_learn (c := c) m
  rw [h] at hsame
  rw [hlearn] at h
  refine ⟨hsame, fun p hp ↦ ?_, fun happart queue hqueue ↦ ?_⟩
  · refine get?_of_run_observeAll h fun group hgroup ↦ ?_
    obtain ⟨argument, hargument⟩ := List.exists_mem_of_ne_nil _ (ne_nil_of_mem_grouped hgroup)
    exact hp _ (mem_of_mem_grouped hgroup hargument)
  · rw [hlearn]
    exact run_observeAll_pending queue (run_observeAll_of_perm (perm_grouped_of_filter_eq hqueue)
      (pairwise_independent_grouped happart) h)

end

end Model

/-- Numbers, pairs of numbers, and their functions that have numbers for results. One function of
each kind is declared. -/
def Context.pair : Context where
  kinds := [.vector 1, .vector 2, .function 0 0 none, .function 1 0 none]
  primitives := [(2, [Json.name "f"]), (3, [Json.name "g"])]
  wellFormed := by
    refine @Kind.WellFormed.snoc [.vector 1, .vector 2, .function 0 0 none] (.function 1 0 none)
      (@Kind.WellFormed.snoc [.vector 1, .vector 2] (.function 0 0 none)
        (@Kind.WellFormed.snoc [.vector 1] (.vector 2) (.snoc .nil (Nat.le_refl 1))
          (Nat.le_succ 1)) ?_) ?_
    all_goals
      refine ⟨by decide, by decide, ?_⟩
      rintro _ ⟨⟩
  ascending := by decide
  functional := by
    rintro _ (_ | ⟨_, _ | _⟩)
    · exact ⟨.function 0 0 none, rfl, rfl⟩
    · exact ⟨.function 1 0 none, rfl, rfl⟩
    · contradiction

namespace Model

/-- The first function, applied to a number. -/
def pairFirst (x : Float) : Application Float := ⟨⟨2, .primitive 0⟩, .vector 0 [x] .anywhere⟩

/-- The second function, applied to a pair of numbers. -/
def pairSecond (x y : Float) : Application Float :=
  ⟨⟨3, .primitive 0⟩, .vector 1 [x, y] .anywhere⟩

/-- Three applications of the two functions. -/
def pairQueue : List (Application Float) := [pairFirst 1.0, pairSecond 2.0 0.5, pairFirst 3.0]

/-- The model that they leave when they are evaluated. -/
def pairApplied (m : Model Float) : Model Float :=
  (pairQueue.map fun a ↦ .evaluate a.callee a.argument).foldl (Action.leave (.tape #[0.0]) .pair) m

/-- A queue in which an application of the other function has come to the front. -/
theorem learn_in_any_order_pair : ∃ m m' : Model Float, Reachable (.tape #[0.0]) .pair m ∧
    m.pending = pairQueue ∧ (learn .pair).run m = (.ok (), m') ∧
    let queue := [pairSecond 2.0 0.5, pairFirst 1.0, pairFirst 3.0]
    (learn .pair).run { m with pending := queue } = (.ok (), { m' with pending := queue }) := by
  have hfacts : (Model.fresh (.tape #[0.0]) .pair .unspecified).toOption.map (fun start ↦
      let m := start.pairApplied
      (m.pending, ((learn .pair).run m).1.toOption,
        m.pending.all fun a ↦ m.pending.all fun b ↦
          a.argument ≠ .function b.callee ∧ m.results.get? a ≠ some (.function b.callee))) =
      some (pairQueue, some (), true) := by
    decide +kernel
  obtain ⟨start, hfresh, hfacts⟩ := exists_of_map_toOption_eq_some hfacts
  have hreach : Reachable (.tape #[0.0]) .pair start.pairApplied :=
    Reachable.foldl_leave (.fresh hfresh) _
  generalize start.pairApplied = m at hfacts hreach
  simp only [Prod.mk.injEq, List.all_eq_true, decide_eq_true_eq, toOption_eq_some_iff] at hfacts
  obtain ⟨hpending, hok, happart⟩ := hfacts
  have hlearn : (learn .pair).run m = (.ok (), ((learn .pair).run m).2) := Prod.ext hok rfl
  refine ⟨m, _, hreach, hpending, hlearn, ?_⟩
  refine (learn_in_any_order hlearn).2.2 happart _ fun p ↦ ?_
  rw [hpending, pairQueue]
  exact filter_swap (by decide) _ p

end Model

end TermEmbedding
