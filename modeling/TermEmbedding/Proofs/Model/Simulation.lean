import TermEmbedding.Model.Simulation
import TermEmbedding.Proofs.Model.Consistent

/-!
# What a simulation leaves behind

A simulation looks at a model and draws noise, and that is all it does to it. Whatever is known of
the way in which terms are given vectors is therefore known of simulations: if this only looks, so
do they, and if it draws noise, they draw noise and nothing else.
-/

namespace TermEmbedding

variable {K : Type} {c : Context}

namespace Model

open Operation

variable {m : Model K}

/-- Two models that differ in the state of the source of noise at most. -/
def SameButNoise (m m' : Model K) : Prop := ∃ state, m' = { m with noise := state }

instance : Std.Refl (SameButNoise : Model K → Model K → Prop) := ⟨fun m ↦ ⟨m.noise, rfl⟩⟩

instance : IsTrans (Model K) SameButNoise where
  trans := by
    rintro m _ _ ⟨s, rfl⟩ ⟨s', rfl⟩
    exact ⟨s', rfl⟩

theorem Consistent.sameButNoise [BEq K] {m' : Model K} (h : SameButNoise m m')
    (hm : Consistent c m) : Consistent c m' := by
  obtain ⟨state, rfl⟩ := h
  exact hm.replace hm.pending state

section

variable [Zero K] [Add K] [Mul K]

theorem within_sample [Routines K] (source : NoiseSource K) (p : TermPointer) :
    (sample source p).Within SameButNoise := by
  refine (within_embedding p).bind fun e ↦ within_get.bind fun m ↦ ?_
  refine Within.bind (fun m' ↦ ⟨_, rfl⟩) fun _ ↦ within_linear _

theorem within_applyVector [One K] {R : Model K → Model K → Prop} [Std.Refl R]
    [IsTrans (Model K) R] (callee : Callee K) (f : TypedVector K) (argument : Expression K)
    (x : TypedVector K) : (applyVector c callee f argument x).Within R := by
  refine (within_type _).bind fun s ↦ ?_
  dsimp only
  split
  · exact (within_type _).bind fun text ↦ within_throw_bind _ _
  · refine (within_type _).bind fun space ↦ (within_type _).bind fun features ↦ ?_
    cases f.entries.reshape? [space.output, space.features] with
    | none => exact within_throw _
    | some matrix =>
      exact (within_except _).bind fun _ ↦ (within_linear _).bind fun v ↦
        (within_expand c s.2 v).bind fun w ↦ within_pure _

end

end Model

section

open Operation

variable [Zero K] [One K] [Add K] [Mul K] {R : Model K → Model K → Prop} [Std.Refl R]
  [IsTrans (Model K) R] {vectorOf : TermPointer → Operation K (Tensor K)}

mutual

theorem Callee.within_simulate (hvector : ∀ p, (vectorOf p).Within R) :
    (f : Callee K) → (f.simulate vectorOf c).Within R
  | .term p => (hvector p).bind fun _ ↦ within_pure _
  | .application f x => by
    rw [Callee.simulate]
    refine (Callee.within_simulate hvector f).bind fun function ↦
      (Expression.within_simulate hvector x).bind fun argument ↦
      (Model.within_applyVector f function x argument).bind fun result ↦
      (within_type _).bind fun b ↦ ?_
    cases b with
    | true => exact within_throw_bind _ _
    | false => exact within_pure result

/-- **A simulation does to a model what giving vectors to terms does to it.** -/
theorem Expression.within_simulate (hvector : ∀ p, (vectorOf p).Within R) :
    (e : Expression K) → (e.simulate vectorOf c).Within R
  | .reference (.function p) => (hvector p).bind fun _ ↦ within_pure _
  | .reference (.vector _ _ _) => within_pure _
  | .application f x => by
    rw [Expression.simulate]
    exact (Callee.within_simulate hvector f).bind fun function ↦
      (Expression.within_simulate hvector x).bind fun argument ↦
      Model.within_applyVector f function x argument

end

end

end TermEmbedding
