import TermEmbedding.Proofs.Model.Evaluation
import TermEmbedding.Proofs.Model.Folding
import TermEmbedding.Proofs.Model.Fresh
import TermEmbedding.Proofs.Model.Simulation
import TermEmbedding.Proofs.Snapshot.RoundTrip

/-!
# Models that can be reached

A live model begins as a new one. From then on it is worked on, or it is put away and taken up
again. Work that fails counts as work: what it leaves behind is a model that can be reached.

Consistency holds in a new model and is kept by each kind of work, so it holds in every model that
can be reached. What it says is spelled out at the end.
-/

namespace TermEmbedding

/-- What can be done to a live model. -/
inductive Action where
  | evaluate (p : TermPointer) (argument : TermReference Float)
  | evaluateExpression (e : Expression Float)
  | sample (p : TermPointer)
  | simulateExpression (e : Expression Float)
  | learn
  | clearPending

namespace Action

variable [Routines Float]

/-- The model that is left after something was done, whether it went well or not. -/
def leave (source : NoiseSource Float) (c : Context) (m : Model Float) : Action → Model Float
  | evaluate p argument => ((Model.evaluate c p argument).run m).2
  | evaluateExpression e => ((e.evaluate c).run m).2
  | sample p => ((Model.sample source p).run m).2
  | simulateExpression e => ((e.simulate (Model.sample source) c).run m).2
  | learn => ((Model.learn c).run m).2
  | clearPending => (Model.clearPending.run m).2

/-- Whether something that is done is an evaluation. -/
def IsEvaluation : Action → Prop
  | evaluate _ _ | evaluateExpression _ => True
  | sample _ | simulateExpression _ | learn | clearPending => False

end Action

namespace Model

section

variable [Routines Float]

/-- The models that are reached when things of some kinds are done. -/
inductive ReachableBy (allowed : Action → Prop) (source : NoiseSource Float) (c : Context) :
    Model Float → Prop
  | fresh {seed : Seed} {m : Model Float} (h : Model.fresh source c seed = .ok m) :
    ReachableBy allowed source c m
  | act {m : Model Float} (h : ReachableBy allowed source c m) {a : Action} (ha : allowed a) :
    ReachableBy allowed source c (a.leave source c m)
  | checkout {m m' : Model Float} {s : Snapshot} (h : ReachableBy allowed source c m)
    (hs : Snapshot.ofModel m = .ok s) (hm' : s.toModel = .ok m') :
    ReachableBy allowed source c m'

/-- The models that are reached when anything is done. -/
abbrev Reachable (source : NoiseSource Float) (c : Context) : Model Float → Prop :=
  ReachableBy (fun _ ↦ True) source c

variable {allowed : Action → Prop} {source : NoiseSource Float} {c : Context} {m : Model Float}

/-- **Whatever is done to a consistent model leaves a consistent one.** -/
theorem Consistent.leave [Routines.Shaped Float] (hm : Consistent c m) (a : Action) :
    Consistent c (a.leave source c m) := by
  cases a with
  | evaluate p argument => exact (within_evaluate p argument m hm).1
  | evaluateExpression e => exact (e.within_evaluate m hm).1
  | sample p => exact hm.sameButNoise (within_sample source p m)
  | simulateExpression e => exact hm.sameButNoise (e.within_simulate (within_sample source) m)
  | learn => exact within_learn m hm
  | clearPending => exact hm.replace List.nil_suffix m.noise

theorem tables_leave {a : Action} (ha : ¬a.IsEvaluation) (m : Model Float) :
    (a.leave source c m).results = m.results ∧ (a.leave source c m).origins = m.origins := by
  cases a with
  | evaluate | evaluateExpression => exact absurd trivial ha
  | sample p =>
    obtain ⟨state, hstate⟩ := within_sample source p m
    rw [Action.leave, hstate]
    exact ⟨rfl, rfl⟩
  | simulateExpression e =>
    obtain ⟨state, hstate⟩ := e.within_simulate (c := c) (within_sample source) m
    rw [Action.leave, hstate]
    exact ⟨rfl, rfl⟩
  | learn =>
    rw [Action.leave, (sameButBeliefs_learn (c := c) m).1]
    exact ⟨rfl, rfl⟩
  | clearPending => exact ⟨rfl, rfl⟩

theorem ReachableBy.consistent [Routines.Shaped Float] (h : ReachableBy allowed source c m) :
    Consistent c m := by
  induction h with
  | fresh h => exact consistent_of_fresh h
  | act _ _ ih => exact ih.leave _
  | checkout _ hs hm' ih =>
    -- the model that comes back is the one that was put away, without its marks
    obtain ⟨-, rfl⟩ := (ih.toModel_ofModel hs _).mp hm'
    exact ih.unmarked

theorem Reachable.foldl_leave (h : Reachable source c m) (actions : List Action) :
    Reachable source c (actions.foldl (Action.leave source c) m) := by
  induction actions generalizing m with
  | nil => exact h
  | cons a actions ih => exact ih (.act h trivial)

end

end Model

/-! ## Work that is made of actions -/

section

variable [Routines Float]

/-- Whether all that an operation does to a model is a list of actions. -/
def Operation.IsDone {α : Type} (source : NoiseSource Float) (c : Context)
    (operation : Operation Float α) : Prop :=
  ∀ m, ∃ actions : List Action, (operation.run m).2 = actions.foldl (Action.leave source c) m

namespace Operation

variable {source : NoiseSource Float} {c : Context}

theorem isDone_evaluate (e : Expression Float) : IsDone source c (e.evaluate c) :=
  fun _ ↦ ⟨[.evaluateExpression e], rfl⟩

theorem isDone_simulate (e : Expression Float) :
    IsDone source c (e.simulate (Model.sample source) c) :=
  fun _ ↦ ⟨[.simulateExpression e], rfl⟩

theorem isDone_update : IsDone source c (Model.update c : Operation Float Unit) := by
  intro m
  rw [Model.update]
  -- if learning fails, the applications stay pending
  rcases hrun : (Model.learn c).run m with ⟨f | ⟨⟩, m'⟩
  · refine ⟨[.learn], ?_⟩
    rw [run_bind_error hrun, List.foldl_cons, List.foldl_nil, Action.leave, hrun]
  · refine ⟨[.learn, .clearPending], ?_⟩
    rw [run_bind_ok hrun, List.foldl_cons, List.foldl_cons, List.foldl_nil, Action.leave,
      Action.leave, hrun]

theorem IsDone.reachable {α : Type} {operation : Operation Float α}
    (h : operation.IsDone source c) {m : Model Float} (hm : Model.Reachable source c m) :
    Model.Reachable source c (operation.run m).2 := by
  obtain ⟨actions, hactions⟩ := h m
  rw [hactions]
  exact hm.foldl_leave actions

end Operation

end

namespace Model

variable {source : NoiseSource Float} {c : Context} {m : Model Float}

/-! ## What the tables of a model say about each other -/

/-- **The tables of every model that can be reached agree.** There are beliefs about exactly the
terms that are declared or listed; beliefs and matrices have the shapes of their types; results have
the types that the applied functions ask for; a term is listed with an application exactly if it is
the result of this application; and what is pending has results, each application once. -/
theorem tables_agree [Routines Float] [Routines.Shaped Float] (h : Reachable source c m) :
    ((∀ p, p ∈ m.embeddings.map (·.1) ↔ m.Counts c p) ∧ (m.embeddings.map (·.1)).Nodup) ∧
    ((∀ row ∈ m.embeddings, ∃ space, c.functionSpace row.1.typeId = .ok space ∧
        row.2.mean.shape = [space.output, space.features] ∧
        row.2.precision.shape = [space.features, space.features]) ∧
      ∀ t, c.isVector t = .ok false → ∃ matrix n k, m.elaborators.get? t = some matrix ∧
        c.full t = .ok n ∧ c.compressed t = .ok k ∧ matrix.shape = [n, k]) ∧
    (∀ row ∈ m.results, m.TypedRow c row) ∧
    (∀ t j a, (m.originsOf t)[j]? = some a ↔
      (a, .function ⟨t, .nonprimitive j⟩) ∈ m.results) ∧
    (m.results.Pairwise (fun x y ↦ (x.1 == y.1) = false) ∧
      m.pending <:+ m.results.map (·.1)) := by
  have hm := h.consistent
  refine ⟨⟨?_, hm.termsOnce⟩, ⟨?_, ?_⟩, hm.results, hm.origins, hm.resultsOnce, hm.pending⟩
  · intro p
    rw [← Table.isSome_get?_iff]
    exact hm.terms p
  · intro row hrow
    obtain ⟨space, hspace, hfits⟩ := hm.beliefs row hrow
    exact ⟨space, hspace, hfits.mean, hfits.precision⟩
  · intro t ht
    obtain ⟨matrix, hget, -, n, k, hfull, hcompressed, hshape⟩ := hm.exists_elaborator ht
    exact ⟨matrix, n, k, hget, hfull, hcompressed, hshape⟩

end Model

/-- Numbers and their functions, one of which is declared. -/
def Context.line : Context where
  kinds := [.vector 1, .function 0 0 none]
  primitives := [(1, [Json.name "f"])]
  wellFormed := by
    refine @Kind.WellFormed.snoc [.vector 1] (.function 0 0 none) (.snoc .nil (Nat.le_refl 1)) ?_
    refine ⟨by decide, by decide, ?_⟩
    rintro _ ⟨⟩
  ascending := by decide
  functional := by
    rintro _ (_ | _)
    · exact ⟨.function 0 0 none, rfl, rfl⟩
    · contradiction

namespace Model

/-- A number and the declared function of numbers, which is applied to it. -/
def lineApplication (x : Float) : Expression Float :=
  .application (.term ⟨1, .primitive 0⟩) (.reference (.vector 0 [x] .anywhere))

/-- A new model has a result after an evaluation, and its tables agree. -/
theorem tables_agree_line : ∃ m, Reachable (.tape #[20.0]) .line m ∧ m.results.length = 1 ∧
    (∀ p, p ∈ m.embeddings.map (·.1) ↔ m.Counts .line p) ∧
    ∀ row ∈ m.results, m.TypedRow .line row := by
  have hlength : (Model.fresh (.tape #[20.0]) .line .unspecified).toOption.map
      (fun m ↦ (((lineApplication 1.0).evaluate .line).run m).2.results.length) = some 1 := by
    decide +kernel
  obtain ⟨m, hfresh, hlength⟩ := exists_of_map_toOption_eq_some hlength
  have h : Reachable (.tape #[20.0]) .line
      ((Action.evaluateExpression (lineApplication 1.0)).leave (.tape #[20.0]) .line m) :=
    .act (.fresh hfresh) trivial
  exact ⟨_, h, hlength, (tables_agree h).1.1, (tables_agree h).2.2.1⟩

end Model

end TermEmbedding
