import Mathlib.Data.List.Forall2
import Mathlib.Tactic.Tauto

/-!
# Computations that may fail

A sequence of computations that has an answer has had one at each step, and a computation that is
done for each item of a list has an answer if it has one for every item.
-/

namespace TermEmbedding

variable {ε ε' α β : Type}

theorem exists_of_bind_eq_ok {x : Except ε α} {f : α → Except ε β} {b : β}
    (h : x >>= f = .ok b) : ∃ a, x = .ok a ∧ f a = .ok b := by
  cases x with
  | error e => cases h
  | ok a => exact ⟨a, rfl, h⟩

theorem bind_ok {x : Except ε α} {a : α} (h : x = .ok a) (f : α → Except ε β) :
    x >>= f = f a := by
  rw [h]
  rfl

theorem mapError_eq_ok {f : ε → ε'} {x : Except ε α} {a : α} :
    x.mapError f = .ok a ↔ x = .ok a := by
  cases x with
  | error e =>
    constructor
    · rintro ⟨⟩
    · rintro ⟨⟩
  | ok b =>
    constructor
    · rintro ⟨⟩
      rfl
    · rintro ⟨⟩
      rfl

theorem exists_of_map_toOption_eq_some {x : Except ε α} {f : α → β} {b : β}
    (h : x.toOption.map f = some b) : ∃ a, x = .ok a ∧ f a = b := by
  cases x with
  | error e => cases h
  | ok a => exact ⟨a, rfl, Option.some.inj h⟩

theorem toOption_eq_some_iff {x : Except ε α} {a : α} : x.toOption = some a ↔ x = .ok a := by
  cases x with
  | error e => exact iff_of_false (by rintro ⟨⟩) (by rintro ⟨⟩)
  | ok b =>
    exact ⟨fun h ↦ congrArg Except.ok (Option.some.inj h),
      fun h ↦ congrArg some (Except.ok.inj h)⟩

theorem mapM_eq_ok_iff {f : α → Except ε β} {xs : List α} {ys : List β} :
    xs.mapM f = .ok ys ↔ List.Forall₂ (fun x y ↦ f x = .ok y) xs ys := by
  induction xs generalizing ys with
  | nil =>
    rw [List.mapM_nil, List.forall₂_nil_left_iff]
    constructor
    · rintro ⟨⟩
      rfl
    · rintro rfl
      rfl
  | cons x xs ih =>
    rw [List.mapM_cons]
    constructor
    · intro h
      obtain ⟨y, hy, h⟩ := exists_of_bind_eq_ok h
      obtain ⟨rest, hrest, h⟩ := exists_of_bind_eq_ok h
      cases h
      exact .cons hy (ih.mp hrest)
    · rintro (_ | ⟨hy, hrest⟩)
      rw [bind_ok hy, bind_ok (ih.mpr hrest)]
      rfl

theorem exists_mapM_eq_ok_iff {f : α → Except ε β} {xs : List α} :
    (∃ ys, xs.mapM f = .ok ys) ↔ ∀ x ∈ xs, ∃ y, f x = .ok y := by
  simp only [mapM_eq_ok_iff]
  induction xs with
  | nil => simp
  | cons x xs ih =>
    rw [List.forall_mem_cons, ← ih]
    constructor
    · rintro ⟨_, hy | ⟨hy, hys⟩⟩
      exact ⟨⟨_, hy⟩, _, hys⟩
    · rintro ⟨⟨y, hy⟩, ys, hys⟩
      exact ⟨y :: ys, .cons hy hys⟩

theorem exists_of_mem_of_mapM {f : α → Except ε β} {xs : List α} {ys : List β}
    (h : xs.mapM f = .ok ys) {y : β} (hy : y ∈ ys) : ∃ x ∈ xs, f x = .ok y := by
  rw [mapM_eq_ok_iff] at h
  induction h with
  | nil => cases hy
  | @cons x _ xs _ hx _ ih =>
    rcases List.mem_cons.mp hy with rfl | hy
    · exact ⟨x, List.mem_cons_self, hx⟩
    · obtain ⟨x', hmem, hx'⟩ := ih hy
      exact ⟨x', List.mem_cons_of_mem _ hmem, hx'⟩

theorem mapM_map {γ : Type} (g : γ → α) (f : α → Except ε β) (xs : List γ) :
    (xs.map g).mapM f = xs.mapM fun x ↦ f (g x) := by
  induction xs with
  | nil => rfl
  | cons x xs ih => rw [List.map_cons, List.mapM_cons, List.mapM_cons, ih]

theorem map_of_bind {γ : Type} (g : β → γ) (x : Except ε α) (f : α → Except ε β) :
    (x >>= f).map g = x >>= fun a ↦ (f a).map g := by
  cases x <;> rfl

/-! ## The first error -/

theorem bind_eq_error_iff {x : Except ε α} {f : α → Except ε β} {e : ε} :
    x >>= f = .error e ↔ x = .error e ∨ ∃ a, x = .ok a ∧ f a = .error e := by
  cases x with
  | error e' =>
    constructor
    · rintro ⟨⟩
      exact .inl rfl
    · rintro (⟨⟨⟩⟩ | ⟨a, ⟨⟩, -⟩)
      rfl
  | ok a =>
    constructor
    · exact fun h ↦ .inr ⟨a, rfl, h⟩
    · rintro (⟨⟨⟩⟩ | ⟨_, ⟨⟩, h⟩)
      exact h

/-- An item of a list breaks, and those before it pass. -/
inductive First (passes breaks : α → Prop) : List α → Prop
  | here {x : α} {xs : List α} : breaks x → First passes breaks (x :: xs)
  | behind {x : α} {xs : List α} : passes x → First passes breaks xs → First passes breaks (x :: xs)

theorem first_cons_iff {passes breaks : α → Prop} {x : α} {xs : List α} :
    First passes breaks (x :: xs) ↔ breaks x ∨ passes x ∧ First passes breaks xs := by
  constructor
  · rintro (h | ⟨hx, hxs⟩)
    · exact .inl h
    · exact .inr ⟨hx, hxs⟩
  · rintro (h | ⟨hx, hxs⟩)
    · exact .here h
    · exact .behind hx hxs

theorem first_and_iff {passes breaks : α → Prop} {Q : Prop} {xs : List α} :
    First passes (fun x ↦ Q ∧ breaks x) xs ↔ Q ∧ First passes breaks xs := by
  induction xs with
  | nil => exact iff_of_false (by rintro ⟨⟩) (by rintro ⟨-, ⟨⟩⟩)
  | cons x xs ih =>
    rw [first_cons_iff, first_cons_iff, ih]
    tauto

theorem exists_first_iff {passes : α → Prop} {breaks : β → α → Prop} {xs : List α} :
    (∃ b, First passes (breaks b) xs) ↔ First passes (fun x ↦ ∃ b, breaks b x) xs := by
  induction xs with
  | nil => exact iff_of_false (by rintro ⟨b, ⟨⟩⟩) (by rintro ⟨⟩)
  | cons x xs ih =>
    simp only [first_cons_iff, exists_or, exists_and_left, ih]

theorem First.exists_mem {passes breaks : α → Prop} {xs : List α}
    (h : First passes breaks xs) : ∃ x ∈ xs, breaks x := by
  induction h with
  | here hx => exact ⟨_, List.mem_cons_self, hx⟩
  | behind _ _ ih =>
    obtain ⟨x, hmem, hx⟩ := ih
    exact ⟨x, List.mem_cons_of_mem _ hmem, hx⟩

/-- A computation that is done for each item of a list fails as it does for the first item for which
it fails. -/
theorem mapM_eq_error_iff {f : α → Except ε β} {xs : List α} {e : ε} :
    xs.mapM f = .error e ↔ First (fun x ↦ ∃ b, f x = .ok b) (fun x ↦ f x = .error e) xs := by
  induction xs with
  | nil => exact iff_of_false (by rintro ⟨⟩) (by rintro ⟨⟩)
  | cons x xs ih =>
    rw [List.mapM_cons, bind_eq_error_iff, first_cons_iff, ← ih]
    refine or_congr_right ⟨?_, ?_⟩
    · rintro ⟨b, hb, h⟩
      rcases bind_eq_error_iff.mp h with h | ⟨_, _, ⟨⟩⟩
      exact ⟨⟨b, hb⟩, h⟩
    · rintro ⟨⟨b, hb⟩, h⟩
      exact ⟨b, hb, bind_eq_error_iff.mpr (.inl h)⟩

theorem forM_eq_error_iff {f : α → Except ε Unit} {xs : List α} {e : ε} :
    forM xs f = .error e ↔ First (fun x ↦ f x = .ok ()) (fun x ↦ f x = .error e) xs := by
  induction xs with
  | nil => exact iff_of_false (by rintro ⟨⟩) (by rintro ⟨⟩)
  | cons x xs ih =>
    rw [List.forM_cons, bind_eq_error_iff, first_cons_iff, ← ih]
    refine or_congr_right ⟨?_, ?_⟩
    · rintro ⟨⟨⟩, hx, h⟩
      exact ⟨hx, h⟩
    · rintro ⟨hx, h⟩
      exact ⟨⟨⟩, hx, h⟩

/-! ## Errors of some kinds -/

/-- All errors that a computation may end with have a property. -/
def ErrorsOnly (P : ε → Prop) (x : Except ε α) : Prop := ∀ e, x = .error e → P e

section

variable {P R : ε → Prop}

theorem errorsOnly_pure (a : α) : ErrorsOnly P (pure a : Except ε α) := by
  rintro e ⟨⟩

theorem errorsOnly_error {e : ε} (h : P e) : ErrorsOnly P (.error e : Except ε α) := by
  rintro _ ⟨⟩
  exact h

theorem errorsOnly_ite {c : Prop} [Decidable c] {x y : Except ε α} (hx : ErrorsOnly P x)
    (hy : ErrorsOnly P y) : ErrorsOnly P (if c then x else y) := by
  by_cases hc : c
  · rwa [if_pos hc]
  · rwa [if_neg hc]

theorem ErrorsOnly.imp {x : Except ε α} (h : ErrorsOnly P x) (hPR : ∀ e, P e → R e) :
    ErrorsOnly R x := fun e he ↦ hPR e (h e he)

theorem ErrorsOnly.bind {x : Except ε α} {f : α → Except ε β} (hx : ErrorsOnly P x)
    (hf : ∀ a, x = .ok a → ErrorsOnly P (f a)) : ErrorsOnly P (x >>= f) := by
  cases x with
  | error e =>
    rintro _ ⟨⟩
    exact hx e rfl
  | ok a => exact hf a rfl

theorem errorsOnly_mapError {x : Except ε' α} {f : ε' → ε} (h : ∀ e, x = .error e → P (f e)) :
    ErrorsOnly P (x.mapError f) := by
  cases x with
  | error e =>
    rintro _ ⟨⟩
    exact h e rfl
  | ok a => rintro _ ⟨⟩

theorem errorsOnly_mapM {f : α → Except ε β} {xs : List α} (h : ∀ x ∈ xs, ErrorsOnly P (f x)) :
    ErrorsOnly P (xs.mapM f) := by
  induction xs with
  | nil => exact errorsOnly_pure []
  | cons x xs ih =>
    rw [List.forall_mem_cons] at h
    rw [List.mapM_cons]
    exact h.1.bind fun _ _ ↦ (ih h.2).bind fun _ _ ↦ errorsOnly_pure _

theorem errorsOnly_foldlM {f : β → α → Except ε β} (h : ∀ b x, ErrorsOnly P (f b x)) (b : β)
    (xs : List α) : ErrorsOnly P (xs.foldlM f b) := by
  induction xs generalizing b with
  | nil => exact errorsOnly_pure b
  | cons x xs ih =>
    rw [List.foldlM_cons]
    exact (h b x).bind fun b' _ ↦ ih b'

end

/-! ## Answers on a condition -/

/-- A computation has one answer if a condition holds, and none otherwise. -/
def AnswersIf (x : Except ε α) (condition : Prop) (answer : α) : Prop :=
  ∀ a, x = .ok a ↔ condition ∧ a = answer

variable {x : Except ε α} {P Q : Prop} {a : α}

theorem answersIf_pure (a : α) : AnswersIf (pure a : Except ε α) True a := by
  intro b
  rw [true_and]
  constructor
  · rintro ⟨⟩
    rfl
  · rintro rfl
    rfl

theorem answersIf_error {e : ε} (hP : ¬P) (a : α) : AnswersIf (.error e) P a := by
  intro b
  constructor
  · rintro ⟨⟩
  · rintro ⟨h, -⟩
    exact absurd h hP

theorem AnswersIf.congr (h : AnswersIf x P a) (hPQ : P ↔ Q) : AnswersIf x Q a :=
  fun b ↦ (h b).trans (and_congr_left' hPQ)

theorem AnswersIf.eq_ok (h : AnswersIf x P a) (hP : P) : x = .ok a := (h a).mpr ⟨hP, rfl⟩

theorem AnswersIf.ne_ok (h : AnswersIf x P a) (hP : ¬P) (b : α) : x ≠ .ok b :=
  fun hb ↦ hP ((h b).mp hb).1

theorem AnswersIf.bind {f : α → Except ε β} {b : β} (hx : AnswersIf x P a)
    (hf : AnswersIf (f a) Q b) : AnswersIf (x >>= f) (P ∧ Q) b := by
  intro d
  constructor
  · intro h
    obtain ⟨a', ha', h⟩ := exists_of_bind_eq_ok h
    obtain ⟨hP, rfl⟩ := (hx a').mp ha'
    obtain ⟨hQ, rfl⟩ := (hf d).mp h
    exact ⟨⟨hP, hQ⟩, rfl⟩
  · rintro ⟨⟨hP, hQ⟩, rfl⟩
    rw [bind_ok (hx.eq_ok hP)]
    exact hf.eq_ok hQ

/-- What is written item by item is read item by item. -/
theorem AnswersIf.mapM {write : α → Except ε β} {read : β → Except ε' α}
    {condition : α → Prop} (back : α → α) {xs : List α} {ys : List β}
    (hwrite : xs.mapM write = .ok ys)
    (hread : ∀ x ∈ xs, ∀ y, write x = .ok y → AnswersIf (read y) (condition x) (back x)) :
    AnswersIf (ys.mapM read) (∀ x ∈ xs, condition x) (xs.map back) := by
  rw [mapM_eq_ok_iff] at hwrite
  induction hwrite with
  | nil => exact (answersIf_pure []).congr (by simp)
  | @cons x y xs ys hy _ ih =>
    rw [List.mapM_cons, List.forall_mem_cons, List.map_cons]
    have hrest := ih fun x hx ↦ hread x (List.mem_cons_of_mem _ hx)
    have hitems := (hread _ List.mem_cons_self _ hy).bind
      (f := fun x ↦ ys.mapM read >>= fun rest ↦ pure (x :: rest))
      (hrest.bind (answersIf_pure _))
    exact hitems.congr (by rw [and_true])

end TermEmbedding
