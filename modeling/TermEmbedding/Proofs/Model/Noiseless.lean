import TermEmbedding.Model.Evaluation
import TermEmbedding.Proofs.Model.Runs

/-!
# Operations that draw no noise

Evaluation computes with means, and so does the folding of results into beliefs. Neither asks the
source of noise for anything: run in two models that differ in the state of the source, they give
one answer, and the models they leave differ in the state of the source again and in nothing else.
-/

namespace TermEmbedding

variable {K α β : Type}

def Model.withNoise (m : Model K) (state : Int) : Model K := { m with noise := state }

namespace Operation

/-- Whether an operation neither looks at the state of the source of noise nor changes it. -/
def IgnoresNoise (x : Operation K α) : Prop :=
  ∀ m state, x.run (m.withNoise state) = ((x.run m).1, (x.run m).2.withNoise state)

/-! ## Sequences -/

private theorem ignoresNoise_pure (a : α) : (pure a : Operation K α).IgnoresNoise := fun _ _ ↦ rfl

private theorem ignoresNoise_throw (e : Failure K) : (throw e : Operation K α).IgnoresNoise :=
  fun _ _ ↦ rfl

private theorem ignoresNoise_type (x : Except Context.TypeFault α) :
    (liftM x : Operation K α).IgnoresNoise := fun _ _ ↦ rfl

private theorem ignoresNoise_linear (x : Except LinearError α) :
    (liftM x : Operation K α).IgnoresNoise := fun _ _ ↦ rfl

private theorem ignoresNoise_except (x : Except (Failure K) α) :
    (liftM x : Operation K α).IgnoresNoise := fun _ _ ↦ rfl

theorem IgnoresNoise.bind {x : Operation K α} {f : α → Operation K β} (hx : x.IgnoresNoise)
    (hf : ∀ a, (f a).IgnoresNoise) : (x >>= f).IgnoresNoise := by
  intro m state
  have hfirst := hx m state
  rcases hrun : x.run m with ⟨e | a, m₁⟩
  · rw [hrun] at hfirst
    rw [run_bind_error hfirst, run_bind_error hrun]
  · rw [hrun] at hfirst
    rw [run_bind_ok hfirst, run_bind_ok hrun]
    exact hf a m₁ state

/-- To look at the model is harmless if what is done next does not depend on the state. -/
private theorem ignoresNoise_get_bind {f : Model K → Operation K α}
    (hsame : ∀ m state, f (m.withNoise state) = f m) (hf : ∀ m, (f m).IgnoresNoise) :
    (get >>= f).IgnoresNoise := by
  intro m state
  rw [run_bind_ok (run_get _), run_bind_ok (run_get m), hsame]
  exact hf m m state

private theorem ignoresNoise_modify {f : Model K → Model K}
    (hf : ∀ m state, f (m.withNoise state) = (f m).withNoise state) :
    (modify f : Operation K Unit).IgnoresNoise := by
  intro m state
  rw [run_modify, run_modify, hf]

private theorem ignoresNoise_mapM {f : α → Operation K β} (hf : ∀ a, (f a).IgnoresNoise)
    (xs : List α) : (xs.mapM f).IgnoresNoise := by
  induction xs with
  | nil => exact ignoresNoise_pure _
  | cons x xs ih =>
    rw [List.mapM_cons]
    exact (hf x).bind fun _ ↦ ih.bind fun _ ↦ ignoresNoise_pure _

end Operation

namespace Model

open Operation

variable {c : Context}

/-! ## Looking things up -/

private theorem ignoresNoise_embedding (p : TermPointer) :
    (embedding p : Operation K (Embedding K)).IgnoresNoise := by
  refine ignoresNoise_get_bind (fun _ _ ↦ rfl) fun m ↦ ?_
  split
  · exact ignoresNoise_pure _
  · exact ignoresNoise_throw _

private theorem ignoresNoise_elaborator (t : TypeId) :
    (elaborator t : Operation K (Tensor K)).IgnoresNoise := by
  refine ignoresNoise_get_bind (fun _ _ ↦ rfl) fun m ↦ ?_
  split
  · exact ignoresNoise_pure _
  · exact ignoresNoise_throw _

private theorem ignoresNoise_meanVector (r : TermReference K) : (meanVector r).IgnoresNoise := by
  cases r with
  | function p => exact (ignoresNoise_embedding p).bind fun _ ↦ ignoresNoise_pure _
  | vector t xs o => exact ignoresNoise_pure _

section

variable [Zero K] [Add K] [Mul K]

private theorem ignoresNoise_expand (t : TypeId) (v : Tensor K) : (expand c t v).IgnoresNoise := by
  refine (ignoresNoise_type _).bind fun b ↦ ?_
  split
  · exact ignoresNoise_pure v
  · exact (ignoresNoise_elaborator t).bind fun _ ↦ ignoresNoise_linear _

private theorem ignoresNoise_compress [Routines K] (t : TypeId) (v : Tensor K) :
    (compress c t v).IgnoresNoise := by
  refine (ignoresNoise_type _).bind fun b ↦ ?_
  split
  · exact ignoresNoise_pure v
  · exact (ignoresNoise_elaborator t).bind fun _ ↦ (ignoresNoise_linear _).bind fun _ ↦
      ignoresNoise_linear _

end

/-! ## Evaluation -/

private theorem ignoresNoise_checkArgument (p : TermPointer) (argument : TermReference K) :
    (checkArgument c p argument).IgnoresNoise := by
  refine (ignoresNoise_type _).bind fun s ↦ ?_
  dsimp only
  split
  · exact (ignoresNoise_type _).bind fun _ ↦ ignoresNoise_throw _
  · exact ignoresNoise_pure _

section

variable [Zero K] [One K]

private theorem ignoresNoise_addTerm (t : TypeId) (origin : Application K) (v : Tensor K) :
    (addTerm c t origin v).IgnoresNoise := by
  refine ignoresNoise_get_bind (fun _ _ ↦ rfl) fun m ↦ ?_
  refine (ignoresNoise_modify fun _ _ ↦ rfl).bind fun _ ↦ (ignoresNoise_type _).bind fun space ↦ ?_
  split
  · exact ignoresNoise_throw _
  · exact (ignoresNoise_modify fun _ _ ↦ rfl).bind fun _ ↦ ignoresNoise_pure _

variable [Add K] [Mul K] [Numbers K]

private theorem ignoresNoise_compute (p : TermPointer) (argument : TermReference K) :
    (compute c p argument).IgnoresNoise := by
  refine (ignoresNoise_checkArgument p argument).bind fun _ ↦
    (ignoresNoise_embedding p).bind fun e ↦ (ignoresNoise_type _).bind fun s ↦ ?_
  refine (ignoresNoise_type _).bind fun space ↦ (ignoresNoise_meanVector argument).bind fun _ ↦
    (ignoresNoise_except _).bind fun _ ↦ (ignoresNoise_linear _).bind fun v ↦
    (ignoresNoise_type _).bind fun isVector ↦ ?_
  split
  · split
    · exact ignoresNoise_get_bind (fun _ _ ↦ rfl) fun _ ↦ ignoresNoise_pure _
    · exact ignoresNoise_throw _
  · exact (ignoresNoise_expand _ v).bind fun _ ↦ (ignoresNoise_addTerm _ _ _).bind fun _ ↦
      ignoresNoise_pure _

theorem ignoresNoise_evaluate (p : TermPointer) (argument : TermReference K) :
    (evaluate c p argument).IgnoresNoise := by
  refine ignoresNoise_get_bind (fun _ _ ↦ rfl) fun m ↦ ?_
  split
  · exact ignoresNoise_pure _
  · exact (ignoresNoise_compute p argument).bind fun _ ↦
      (ignoresNoise_modify fun _ _ ↦ rfl).bind fun _ ↦ ignoresNoise_pure _

end

/-! ## Folding results into beliefs -/

private theorem ignoresNoise_observedFeatures [One K] (space : Context.FeatureSpace)
    (argument : TermReference K) :
    (observedFeatures space argument).IgnoresNoise :=
  (ignoresNoise_meanVector argument).bind fun _ ↦ ignoresNoise_except _

section

variable [Zero K] [Add K] [Mul K] [Numbers K]

private theorem ignoresNoise_observedTarget (t : TypeId) (p : TermPointer)
    (argument : TermReference K) : (observedTarget c t p argument).IgnoresNoise := by
  refine ignoresNoise_get_bind (fun _ _ ↦ rfl) fun m ↦ ?_
  split
  · exact ignoresNoise_throw _
  · exact (ignoresNoise_meanVector _).bind fun v ↦ ignoresNoise_compress t v

variable [One K] [Div K]

private theorem ignoresNoise_observe (p : TermPointer) (arguments : List (TermReference K)) :
    (observe c p arguments).IgnoresNoise := by
  refine (ignoresNoise_type _).bind fun s ↦ (ignoresNoise_type _).bind fun space ↦ ?_
  refine (ignoresNoise_mapM (ignoresNoise_observedFeatures space) _).bind fun _ ↦
    (ignoresNoise_linear _).bind fun _ ↦ ?_
  refine (ignoresNoise_mapM (ignoresNoise_observedTarget _ p) _).bind fun _ ↦
    (ignoresNoise_linear _).bind fun _ ↦ ?_
  exact (ignoresNoise_embedding p).bind fun _ ↦ (ignoresNoise_linear _).bind fun _ ↦
    ignoresNoise_modify fun _ _ ↦ rfl

private theorem ignoresNoise_observeAll (groups : Table TermPointer (List (TermReference K))) :
    (observeAll c groups).IgnoresNoise := by
  induction groups with
  | nil => exact ignoresNoise_pure _
  | cons group rest ih => exact (ignoresNoise_observe group.1 group.2).bind fun _ ↦ ih

/-- **Folding results into beliefs draws no noise.** -/
theorem ignoresNoise_update : (update c : Operation K Unit).IgnoresNoise := by
  refine IgnoresNoise.bind ?_ fun _ ↦ ignoresNoise_modify fun _ _ ↦ rfl
  exact ignoresNoise_get_bind (fun _ _ ↦ rfl) fun m ↦ ignoresNoise_observeAll (grouped m.pending)

end

end Model

/-! ## Expressions -/

section

open Operation

variable [Zero K] [One K] [Add K] [Mul K] [Numbers K] {c : Context}

mutual

theorem Callee.ignoresNoise_evaluate : (f : Callee K) → (f.evaluate c).IgnoresNoise
  | .term p => ignoresNoise_pure p
  | .application f x => by
    rw [Callee.evaluate]
    refine (Callee.ignoresNoise_evaluate f).bind fun p ↦
      (Expression.ignoresNoise_evaluate x).bind fun a ↦
      (Model.ignoresNoise_evaluate p a).bind fun r ↦ ?_
    split
    · exact ignoresNoise_pure _
    · exact ignoresNoise_throw _

/-- **Evaluation draws no noise.** -/
theorem Expression.ignoresNoise_evaluate : (e : Expression K) → (e.evaluate c).IgnoresNoise
  | .reference r => ignoresNoise_pure r
  | .application f x => by
    rw [Expression.evaluate]
    exact (Callee.ignoresNoise_evaluate f).bind fun p ↦
      (Expression.ignoresNoise_evaluate x).bind fun a ↦ Model.ignoresNoise_evaluate p a

end

end

end TermEmbedding
