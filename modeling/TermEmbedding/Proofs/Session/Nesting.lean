import TermEmbedding.Proofs.Session.Reached
import TermEmbedding.Proofs.Snapshot.Lossless

/-!
# Work within work

Work on a model may turn to the workspace that the model was taken from and try to work on its model
again, any number of times and however deep. All that is there is the empty snapshot, so the attempt
fails before anything is done, and nothing of it is left but the error, which may be handled or
passed on.

Here such work is a tree. Where an attempt stands in it, there is other work of the same kind and
what is done with the outcome; between attempts the live model may be changed in any way, into one
that cannot be put away included. The tree is run as work on a live model, attempts and all, and
this comes to the same as a run in which every attempt is answered by the error.

What the work answers with may be anything at all, so a failure of a kind that models do not know of
is an answer like any other one.
-/

namespace TermEmbedding

/-- Work on a live model that may try to work on the stored model meanwhile. -/
inductive Work : Type → Type 1 where
  /-- The work ends with an answer or a failure. -/
  | done {α : Type} (outcome : Except ModelError α) : Work α
  /-- The live model is changed, and what follows depends on what was found in it. -/
  | change {α β : Type} (f : Model Float → β × Model Float) (next : β → Work α) : Work α
  /-- Other work is tried on the stored model, and what follows depends on what comes of it. -/
  | attempt {α β : Type} (inner : Work β) (next : Except ModelError β → Work α) : Work α

namespace Work

variable {α : Type}

/-- Runs work on a live model. What is tried meanwhile takes the model out of the same place. -/
def toLive {α : Type} : Work α → Live α
  | done outcome => ExceptT.mk (pure outcome)
  | change f next => ExceptT.mk (modifyGet f >>= fun b ↦ (next b).toLive.run)
  | attempt inner next =>
    ExceptT.mk ((Live.ofResting (checkout inner.toLive)).run >>= fun answer ↦
      (next answer).toLive.run)

/-- What comes of work if nothing that it tries is done. -/
def refused {α : Type} : Work α → Model Float → Except ModelError α × Model Float
  | done outcome, m => (outcome, m)
  | change f next, m => (next (f m).1).refused (f m).2
  | attempt _ next, m => (next (.error (.snapshot .noModel))).refused m

/-- The most models that are live at a time in the course of work on one of them. -/
def mostLive {α : Type} : Work α → Model Float → Snapshot → Nat
  | done _, _, _ => 1
  | change f next, m, place => (next (f m).1).mostLive (f m).2 place
  | attempt inner next, m, place =>
    let within := match place.toModel with
      | .error _ => 0
      | .ok taken => inner.mostLive taken .empty
    let (answer, left) := (checkout inner.toLive).run place
    max (1 + within) ((next answer).mostLive m left)

/-- An operation of a model, which tries nothing else. -/
def ofOperation (operation : Operation Float α) : Work α :=
  .change (fun m ↦ operation.run m) fun result ↦ .done (result.mapError .failure)

theorem toLive_ofOperation (operation : Operation Float α) :
    (ofOperation operation).toLive = Live.ofOperation operation := rfl

/-! ## Attempts -/

/-- **Nothing can be taken out of the place of a model that is out**, and the place stays empty. -/
theorem run_checkout_empty (work : Live α) :
    (checkout work).run .empty = (.error (.snapshot .noModel), .empty) := rfl

/-- **Work comes to what it comes to if all that it tries is refused**, and it leaves the place of
the model empty. -/
theorem run_toLive (work : Work α) (m : Model Float) :
    work.toLive.run m .empty = (work.refused m, .empty) := by
  induction work generalizing m with
  | done outcome => rfl
  | change f next ih => exact ih (f m).1 (f m).2
  | attempt inner next _ ih => exact ih _ m

private theorem mostLive_empty (work : Work α) (m : Model Float) : work.mostLive m .empty = 1 := by
  induction work generalizing m with
  | done outcome => rfl
  | change f next ih => exact ih (f m).1 (f m).2
  | attempt inner next _ ih =>
    change max (1 + 0) ((next (.error (.snapshot .noModel))).mostLive m .empty) = 1
    rw [ih]
    rfl

end Work

namespace Workspace

variable {α : Type} {w : Workspace}

private theorem perform_toLive_of_ok {m : Model Float} (h : w.model.toModel = .ok m)
    (work : Work α) : w.perform work.toLive =
      match Snapshot.ofModel (work.refused m).2 with
      | .ok s => ((work.refused m).1, { w with model := s })
      | .error e => (.error (.snapshot e), w) := by
  simp only [perform, checkout, ExceptT.run_mk, StateT.run, h]
  rw [work.run_toLive m]
  dsimp only
  cases Snapshot.ofModel (work.refused m).2 with
  | ok s => rfl
  | error e => rfl

/-- **A model is worked on by one at a time and is always put back.** If it cannot be taken out,
then no work is done, and if what is left of it cannot be put away, then the snapshot that was taken
out is put back; the error is passed on in both cases. Otherwise what the work has left of the model
is put away, whether the work has answered or failed, and its own outcome is passed on. Whatever the
work tries on the stored model in the meantime is refused without being done, and leaves no trace.
So no second model is live at any time, and the empty snapshot is never left behind. The operations
that a workspace evaluates, simulates and updates with are such work, without attempts. -/
theorem perform_toLive (w : Workspace) (work : Work α) :
    (∀ e, w.model.toModel = .error e → w.perform work.toLive = (.error (.snapshot e), w)) ∧
    (∀ m, w.model.toModel = .ok m →
      (∀ s, Snapshot.ofModel (work.refused m).2 = .ok s →
        w.perform work.toLive = ((work.refused m).1, { w with model := s })) ∧
      (∀ e, Snapshot.ofModel (work.refused m).2 = .error e →
        w.perform work.toLive = (.error (.snapshot e), w)) ∧
      work.toLive.run m .empty = (work.refused m, .empty) ∧ work.mostLive m .empty = 1) ∧
    (∀ {β : Type} (inner : Work β),
      (checkout inner.toLive).run .empty = (.error (.snapshot .noModel), .empty)) ∧
    (w.model.isEmpty = false → (w.perform work.toLive).2.model.isEmpty = false) ∧
    ∀ operation : Operation Float α,
      w.perform (.ofOperation operation) = w.perform (Work.ofOperation operation).toLive := by
  have hfailed : ∀ e, w.model.toModel = .error e →
      w.perform work.toLive = (.error (.snapshot e), w) := by
    intro e h
    simp only [perform, checkout, ExceptT.run_mk, StateT.run, h]
  refine ⟨hfailed, fun m h ↦ ⟨?_, ?_, work.run_toLive m, work.mostLive_empty m⟩,
    fun inner ↦ Work.run_checkout_empty inner.toLive, ?_, ?_⟩
  · intro s hs
    rw [perform_toLive_of_ok h, hs]
  · intro e he
    rw [perform_toLive_of_ok h, he]
  · intro hstored
    cases h : w.model.toModel with
    | error e =>
      rw [hfailed e h]
      exact hstored
    | ok m =>
      rw [perform_toLive_of_ok h]
      cases hput : Snapshot.ofModel (work.refused m).2 with
      | error e => exact hstored
      | ok s => exact Snapshot.isEmpty_ofModel hput
  · intro operation
    rw [Work.toLive_ofOperation]

/-- An application that cannot be written if the number is too large. -/
def longApplication (n : Nat) : Application Float := ⟨⟨n, .primitive 0⟩, .vector 0 [] .anywhere⟩

private theorem ofApplication_longApplication {n : Nat} (hn : 10 ^ numeralLimit ≤ n) :
    Snapshot.ofApplication (longApplication n) = .error .unwritable := by
  have htext : ¬(longApplication n).callee.hasText = true := fun h ↦
    hn.not_gt (hasNumeral_iff.mp (TermPointer.hasText_iff.mp h).1)
  rw [Snapshot.ofApplication, Snapshot.ofPointer, if_neg htext]
  rfl

private theorem ofModel_longApplication {n : Nat} (hn : 10 ^ numeralLimit ≤ n) {m : Model Float}
    {s : Snapshot} (h : Snapshot.ofModel m = .ok s) :
    Snapshot.ofModel { m with pending := [longApplication n] } = .error .unwritable := by
  obtain ⟨_, _, _, _, _, hresults, horigins, hembeddings, helaborators, -⟩ :=
    Snapshot.ofModel_eq_ok_iff.mp h
  rw [Snapshot.ofModel, bind_ok hresults, bind_ok horigins, bind_ok hembeddings,
    bind_ok helaborators, List.mapM_cons, ofApplication_longApplication hn]
  rfl

/-- Three kinds of work on one workspace: an attempt within an attempt is refused, which is passed
on after the model was changed; a model is left that cannot be put away; and nothing is there to
work on. -/
theorem perform_toLive_line : ∃ (w : Workspace) (m : Model Float) (s : Snapshot),
    w.model.toModel = .ok m ∧ Snapshot.ofModel (m.withNoise 7) = .ok s ∧
    w.perform (Work.toLive (.change (fun m ↦ ((), m.withNoise 7)) fun _ ↦
      .attempt (.attempt (.done (.ok ())) .done) .done)) =
        (.error (.snapshot .noModel), { w with model := s }) ∧
    w.perform (Work.toLive (.change (fun m ↦
      ((), { m with pending := [longApplication (10 ^ numeralLimit)] })) fun _ ↦
        .done (.ok ()))) = (.error (.snapshot .unwritable), w) ∧
    ({ w with model := .empty } : Workspace).perform (Work.toLive (.done (.ok ()))) =
      (.error (.snapshot .noModel), { w with model := .empty }) := by
  have hfacts : (Model.fresh (.tape #[20.0]) .line .unspecified).toOption.map (fun m ↦
      (Snapshot.ofModel m).toOption.map fun s ↦ s.toModel.toOption.isSome) = some (some true) := by
    decide +kernel
  obtain ⟨m₀, hfresh, hfacts⟩ := exists_of_map_toOption_eq_some hfacts
  obtain ⟨s₀, hput, htaken⟩ := exists_of_map_toOption_eq_some hfacts
  obtain ⟨m, hm⟩ := Option.isSome_iff_exists.mp htaken
  have hmodel := toOption_eq_some_iff.mp hm
  obtain ⟨-, rfl⟩ := ((Model.consistent_of_fresh hfresh).toModel_ofModel hput m).mp hmodel
  have hback : Snapshot.ofModel m₀.unmarked = .ok s₀ := (Snapshot.ofModel_unmarked m₀).trans hput
  have hnoise : Snapshot.ofModel (m₀.unmarked.withNoise 7) = .ok (s₀.withNoise 7) := by
    rw [Snapshot.ofModel_withNoise, hback]
    rfl
  let w : Workspace := ⟨.line, [], s₀⟩
  refine ⟨w, m₀.unmarked, s₀.withNoise 7, hmodel, hnoise, ?_, ?_, ?_⟩
  · exact ((perform_toLive w _).2.1 _ hmodel).1 _ hnoise
  · exact ((perform_toLive w _).2.1 _ hmodel).2.1 _ (ofModel_longApplication le_rfl hback)
  · exact (perform_toLive { w with model := .empty } _).1 _ rfl

end Workspace

end TermEmbedding
