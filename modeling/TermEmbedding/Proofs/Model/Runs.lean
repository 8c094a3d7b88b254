import Mathlib.Data.List.Forall2
import Mathlib.Order.Defs.Unbundled
import TermEmbedding.Model.Simulation
import TermEmbedding.Model.Update

/-!
# Running operations

An operation runs on a model to an answer or a failure, beside the model it leaves. A sequence of
operations runs its first one and goes on in the model that was left, or stops there. The parts that
only look at a model leave it as it is, and are described here by what they see.
-/

namespace TermEmbedding

namespace Operation

variable {K α β : Type} {m m' : Model K}

/-! ## Sequences -/

theorem run_bind_ok {x : Operation K α} {a : α} (h : x.run m = (.ok a, m'))
    (f : α → Operation K β) : (x >>= f).run m = (f a).run m' := by
  change (match x.run m with | (r, s) => (ExceptT.bindCont f r : StateM (Model K) _) s) = _
  rw [h]
  rfl

theorem run_bind_error {x : Operation K α} {e : Failure K} (h : x.run m = (.error e, m'))
    (f : α → Operation K β) : (x >>= f).run m = (.error e, m') := by
  change (match x.run m with | (r, s) => (ExceptT.bindCont f r : StateM (Model K) _) s) = _
  rw [h]
  rfl

theorem run_pure (a : α) (m : Model K) : (pure a : Operation K α).run m = (.ok a, m) := rfl

private theorem run_throw (e : Failure K) (m : Model K) :
    (throw e : Operation K α).run m = (.error e, m) := rfl

theorem run_get (m : Model K) : (get : Operation K (Model K)).run m = (.ok m, m) := rfl

theorem run_modify (f : Model K → Model K) (m : Model K) :
    (modify f : Operation K Unit).run m = (.ok (), f m) := rfl

/-! ## Answers from elsewhere -/

theorem run_type_ok {x : Except Context.TypeFault α} {a : α} (h : x = .ok a) (m : Model K) :
    (liftM x : Operation K α).run m = (.ok a, m) := by
  rw [h]
  rfl

theorem run_type_error {x : Except Context.TypeFault α} {e : Context.TypeFault}
    (h : x = .error e) (m : Model K) :
    (liftM x : Operation K α).run m = (.error (.type e), m) := by
  rw [h]
  rfl

theorem run_linear_ok {x : Except LinearError α} {a : α} (h : x = .ok a) (m : Model K) :
    (liftM x : Operation K α).run m = (.ok a, m) := by
  rw [h]
  rfl

theorem run_except_ok {x : Except (Failure K) α} {a : α} (h : x = .ok a) (m : Model K) :
    (liftM x : Operation K α).run m = (.ok a, m) := by
  rw [h]
  rfl

theorem run_except_error {x : Except (Failure K) α} {e : Failure K} (h : x = .error e)
    (m : Model K) : (liftM x : Operation K α).run m = (.error e, m) := by
  rw [h]
  rfl

theorem eq_of_run_type {x : Except Context.TypeFault α} {a : α}
    (h : (liftM x : Operation K α).run m = (.ok a, m')) : x = .ok a ∧ m = m' := by
  cases x with
  | error e => cases h
  | ok b =>
    cases h
    exact ⟨rfl, rfl⟩

theorem eq_of_run_linear {x : Except LinearError α} {a : α}
    (h : (liftM x : Operation K α).run m = (.ok a, m')) : x = .ok a ∧ m = m' := by
  cases x with
  | error e => cases h
  | ok b =>
    cases h
    exact ⟨rfl, rfl⟩

/-! ## What operations may do to a model -/

/-- Whatever the outcome, an operation leaves a model that is related to the one it found. -/
def Within (R : Model K → Model K → Prop) (x : Operation K α) : Prop := ∀ m, R m (x.run m).2

variable {R : Model K → Model K → Prop}

theorem within_pure [Std.Refl R] (a : α) : (pure a : Operation K α).Within R :=
  fun m ↦ Std.Refl.refl m

theorem within_throw [Std.Refl R] (e : Failure K) : (throw e : Operation K α).Within R :=
  fun m ↦ Std.Refl.refl m

theorem within_throw_bind [Std.Refl R] (e : Failure K) (f : α → Operation K β) :
    (throw e >>= f).Within R := by
  intro m
  rw [run_bind_error (run_throw e m)]
  exact Std.Refl.refl m

theorem within_type [Std.Refl R] (x : Except Context.TypeFault α) :
    (liftM x : Operation K α).Within R :=
  fun m ↦ Std.Refl.refl m

theorem within_linear [Std.Refl R] (x : Except LinearError α) :
    (liftM x : Operation K α).Within R :=
  fun m ↦ Std.Refl.refl m

theorem within_except [Std.Refl R] (x : Except (Failure K) α) :
    (liftM x : Operation K α).Within R :=
  fun m ↦ Std.Refl.refl m

theorem within_get [Std.Refl R] : (get : Operation K (Model K)).Within R :=
  fun m ↦ Std.Refl.refl m

theorem Within.bind [IsTrans (Model K) R] {x : Operation K α} {f : α → Operation K β}
    (hx : x.Within R) (hf : ∀ a, (f a).Within R) : (x >>= f).Within R := by
  intro m
  have hfirst := hx m
  cases hrun : x.run m with
  | mk result m₁ =>
    rw [hrun] at hfirst
    cases result with
    | error e =>
      rw [run_bind_error hrun]
      exact hfirst
    | ok a =>
      rw [run_bind_ok hrun]
      exact IsTrans.trans _ _ _ hfirst (hf a m₁)

/-- An operation that only looks at a model either fails there or goes on with what it saw. -/
theorem run_bind_of_look {P : Except (Failure K) β × Model K → Prop} {x : Operation K α}
    {f : α → Operation K β} (hx : x.Within (· = ·)) (herror : ∀ e, P (.error e, m))
    (hf : ∀ a, x.run m = (.ok a, m) → P ((f a).run m)) : P ((x >>= f).run m) := by
  have hsame := hx m
  cases hrun : x.run m with
  | mk result m₁ =>
    rw [hrun] at hsame
    obtain rfl : m = m₁ := hsame
    cases result with
    | error e =>
      rw [run_bind_error hrun]
      exact herror e
    | ok a =>
      rw [run_bind_ok hrun]
      exact hf a hrun

theorem after_look {P : Model K → Prop} {x : Operation K α} {f : α → Operation K β}
    (hx : x.Within (· = ·)) (hm : P m)
    (hf : ∀ a, x.run m = (.ok a, m) → P ((f a).run m).2) : P ((x >>= f).run m).2 :=
  run_bind_of_look (P := fun outcome ↦ P outcome.2) hx (fun _ ↦ hm) hf

theorem exists_of_run_bind_ok {x : Operation K α} {f : α → Operation K β} {b : β}
    (h : (x >>= f).run m = (.ok b, m')) :
    ∃ a m₁, x.run m = (.ok a, m₁) ∧ (f a).run m₁ = (.ok b, m') := by
  cases hrun : x.run m with
  | mk result m₁ =>
    cases result with
    | error e =>
      rw [run_bind_error hrun] at h
      cases h
    | ok a =>
      rw [run_bind_ok hrun] at h
      exact ⟨a, m₁, rfl, h⟩

theorem within_mapM [Std.Refl R] [IsTrans (Model K) R] {f : α → Operation K β}
    (hf : ∀ a, (f a).Within R) (xs : List α) : (xs.mapM f).Within R := by
  induction xs with
  | nil => exact within_pure _
  | cons x xs ih =>
    rw [List.mapM_cons]
    exact (hf x).bind fun _ ↦ ih.bind fun _ ↦ within_pure _

theorem run_mapM_ok {f : α → Operation K β} {P : α → β → Prop} {xs : List α}
    (h : ∀ x ∈ xs, ∃ y, (f x).run m = (.ok y, m) ∧ P x y) :
    ∃ ys, (xs.mapM f).run m = (.ok ys, m) ∧ List.Forall₂ P xs ys := by
  induction xs with
  | nil => exact ⟨[], rfl, .nil⟩
  | cons x xs ih =>
    rw [List.forall_mem_cons] at h
    obtain ⟨⟨y, hy, hP⟩, hrest⟩ := h
    obtain ⟨ys, hys, hall⟩ := ih hrest
    refine ⟨y :: ys, ?_, .cons hP hall⟩
    rw [List.mapM_cons, run_bind_ok hy, run_bind_ok hys]
    rfl

theorem answers_of_run_mapM {f : α → Operation K β} (hf : ∀ a, (f a).Within (· = ·)) {xs : List α}
    {ys : List β} (h : (xs.mapM f).run m = (.ok ys, m')) :
    ys.length = xs.length ∧ ∀ y ∈ ys, ∃ x, (f x).run m = (.ok y, m) := by
  induction xs generalizing ys with
  | nil =>
    cases h
    exact ⟨rfl, fun y hy ↦ by cases hy⟩
  | cons x xs ih =>
    rw [List.mapM_cons] at h
    obtain ⟨y, m₁, hy, h⟩ := exists_of_run_bind_ok h
    obtain rfl : m = m₁ := by
      have := hf x m
      rw [hy] at this
      exact this
    -- every item sees the model that the first one saw
    obtain ⟨rest, m₂, hrest, h⟩ := exists_of_run_bind_ok h
    have hsame := within_mapM hf xs m
    rw [hrest] at hsame
    obtain rfl : m = m₂ := hsame
    cases h
    obtain ⟨hlength, hall⟩ := ih hrest
    refine ⟨by rw [List.length_cons, List.length_cons, hlength], ?_⟩
    intro z hz
    rcases List.mem_cons.mp hz with rfl | hz
    · exact ⟨x, hy⟩
    · exact hall z hz

end Operation

namespace Model

open Operation

variable {K : Type} {m : Model K}

/-! ## Looking things up -/

theorem within_embedding {R : Model K → Model K → Prop} [Std.Refl R] [IsTrans (Model K) R]
    (p : TermPointer) : (embedding p).Within R := by
  refine within_get.bind fun m ↦ ?_
  cases m.embeddings.get? p with
  | none => exact within_throw _
  | some e => exact within_pure e

theorem within_elaborator {R : Model K → Model K → Prop} [Std.Refl R] [IsTrans (Model K) R]
    (t : TypeId) : (elaborator t : Operation K (Tensor K)).Within R := by
  refine within_get.bind fun m ↦ ?_
  cases m.elaborators.get? t with
  | none => exact within_throw _
  | some matrix => exact within_pure matrix

theorem within_meanVector {R : Model K → Model K → Prop} [Std.Refl R] [IsTrans (Model K) R]
    (r : TermReference K) : (meanVector r).Within R := by
  cases r with
  | vector t xs o => exact within_pure _
  | function p => exact (within_embedding p).bind fun e ↦ within_pure _

theorem run_embedding_some {p : TermPointer} {e : Embedding K}
    (h : m.embeddings.get? p = some e) : (embedding p).run m = (.ok e, m) := by
  rw [embedding, run_bind_ok (run_get m), h]
  rfl

theorem run_embedding_none {p : TermPointer} (h : m.embeddings.get? p = none) :
    (embedding p).run m = (.error (.noTerm p), m) := by
  rw [embedding, run_bind_ok (run_get m), h]
  rfl

theorem run_elaborator_some {t : TypeId} {matrix : Tensor K}
    (h : m.elaborators.get? t = some matrix) : (elaborator t).run m = (.ok matrix, m) := by
  rw [elaborator, run_bind_ok (run_get m), h]
  rfl

theorem eq_of_run_embedding {p : TermPointer} {e : Embedding K} {m' : Model K}
    (h : (embedding p).run m = (.ok e, m')) : m.embeddings.get? p = some e ∧ m = m' := by
  cases hget : m.embeddings.get? p with
  | none =>
    rw [run_embedding_none hget] at h
    cases h
  | some e' =>
    rw [run_embedding_some hget] at h
    cases h
    exact ⟨rfl, rfl⟩

theorem eq_of_run_elaborator {t : TypeId} {matrix : Tensor K} {m' : Model K}
    (h : (elaborator t).run m = (.ok matrix, m')) :
    m.elaborators.get? t = some matrix ∧ m = m' := by
  rw [elaborator, run_bind_ok (run_get m)] at h
  cases hget : m.elaborators.get? t with
  | none =>
    rw [hget] at h
    cases h
  | some matrix' =>
    rw [hget] at h
    cases h
    exact ⟨rfl, rfl⟩

/-- The vector of a reference in a model, if the model knows the reference. -/
def meanOf? (m : Model K) : TermReference K → Option (Tensor K)
  | .vector _ entries _ => some (.ofList entries)
  | .function p => (m.embeddings.get? p).map (·.meanVector)

theorem run_meanVector_some {r : TermReference K} {v : Tensor K} (h : m.meanOf? r = some v) :
    (meanVector r).run m = (.ok v, m) := by
  cases r with
  | vector t xs o =>
    cases h
    rfl
  | function p =>
    obtain ⟨e, he, rfl⟩ := Option.map_eq_some_iff.mp h
    rw [meanVector, run_bind_ok (run_embedding_some he)]
    rfl

theorem run_meanVector_none {r : TermReference K} (h : m.meanOf? r = none) :
    ∃ p, r = .function p ∧ (meanVector r).run m = (.error (.noTerm p), m) := by
  cases r with
  | vector t xs o => cases h
  | function p =>
    refine ⟨p, rfl, ?_⟩
    rw [meanVector, run_bind_error (run_embedding_none (Option.map_eq_none_iff.mp h))]

theorem eq_of_run_meanVector {r : TermReference K} {v : Tensor K} {m' : Model K}
    (h : (meanVector r).run m = (.ok v, m')) : m.meanOf? r = some v ∧ m = m' := by
  cases hmean : m.meanOf? r with
  | none =>
    obtain ⟨p, -, hrun⟩ := run_meanVector_none hmean
    rw [hrun] at h
    cases h
  | some v' =>
    rw [run_meanVector_some hmean] at h
    cases h
    exact ⟨rfl, rfl⟩

/-! ## Between the two spaces of a type -/

section

variable [Zero K] [Add K] [Mul K]

/-- A compressed vector of a type and the vector that it is expanded to. -/
def Expands (c : Context) (m : Model K) (t : TypeId) (v w : Tensor K) : Prop :=
  (c.isVector t = .ok true ∧ w = v) ∨
    (c.isVector t = .ok false ∧
      ∃ matrix, m.elaborators.get? t = some matrix ∧ matrix.matmul v = .ok w)

theorem Expands.congr {c : Context} {m' : Model K} (h : m'.elaborators = m.elaborators)
    {t : TypeId} {v w : Tensor K} (hexpands : Expands c m t v w) : Expands c m' t v w := by
  rw [Expands, h]
  exact hexpands

theorem Expands.unique {c : Context} {t : TypeId} {v w w' : Tensor K} (h : Expands c m t v w)
    (h' : Expands c m t v w') : w = w' := by
  rcases h with ⟨hvec, rfl⟩ | ⟨hfun, matrix, hget, hmul⟩
  · rcases h' with ⟨-, rfl⟩ | ⟨hfun, -⟩
    · rfl
    · cases hvec.symm.trans hfun
  · rcases h' with ⟨hvec, -⟩ | ⟨-, matrix', hget', hmul'⟩
    · cases hvec.symm.trans hfun
    · cases hget.symm.trans hget'
      cases hmul.symm.trans hmul'
      rfl

theorem within_expand {R : Model K → Model K → Prop} [Std.Refl R] [IsTrans (Model K) R]
    (c : Context) (t : TypeId) (v : Tensor K) : (expand c t v).Within R := by
  refine (within_type _).bind fun b ↦ ?_
  cases b with
  | true => exact within_pure v
  | false => exact (within_elaborator t).bind fun matrix ↦ within_linear _

theorem run_expand {c : Context} {t : TypeId} {v w : Tensor K} (h : Expands c m t v w) :
    (expand c t v).run m = (.ok w, m) := by
  rw [expand]
  rcases h with ⟨hvec, rfl⟩ | ⟨hfun, matrix, hget, hmul⟩
  · rw [run_bind_ok (run_type_ok hvec m)]
    rfl
  · rw [run_bind_ok (run_type_ok hfun m)]
    change (elaborator t >>= fun matrix ↦ _).run m = _
    rw [run_bind_ok (run_elaborator_some hget)]
    exact run_linear_ok hmul m

end

end Model

end TermEmbedding
