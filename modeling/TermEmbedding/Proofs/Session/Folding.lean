import TermEmbedding.Proofs.Model.Recall
import TermEmbedding.Proofs.Session.Workspaces

/-!
# How often a result is folded in

An update folds the pending applications into the beliefs and then declares that nothing is pending.
If a group of applications cannot be folded in, the update fails. By then the groups before it have
been folded in, and the model is put away as it is: with beliefs that have changed, and with all
applications still pending. The next update folds the same results in again.

A log of what is folded in counts this. An evaluation adds applications to the pending ones that are
in no earlier row of results, and so they are not in the log. A pending application is in the log at
most once for each update that has failed, and when an update goes well it is in the log once more
and pending no longer. So no application is folded in more often than updates have failed and once
more; without failures, each is folded in once at most.
-/

namespace TermEmbedding

namespace Model

variable {K : Type} {m m' : Model K}

/-! ## Rows that are pending -/

/-- A model has rows of results that another one has not, and their applications are pending. -/
def Records (m m' : Model K) : Prop :=
  ∃ new, m'.results = m.results ++ new ∧ m'.pending = m.pending ++ new.map (·.1)

instance : Std.Refl (Records : Model K → Model K → Prop) :=
  ⟨fun _ ↦ ⟨[], (List.append_nil _).symm, (List.append_nil _).symm⟩⟩

instance : IsTrans (Model K) Records where
  trans m m₁ m₂ h h' := by
    obtain ⟨new, hresults, hpending⟩ := h
    obtain ⟨new', hresults', hpending'⟩ := h'
    refine ⟨new ++ new', ?_, ?_⟩
    · rw [hresults', hresults, List.append_assoc]
    · rw [hpending', hpending, List.append_assoc, List.map_append]

private theorem records_record (m : Model K) (a : Application K) (r : TermReference K) :
    m.Records (m.record a r) :=
  ⟨[(a, r)], rfl, rfl⟩

theorem Records.unmarked (h : m.Records m') : m.unmarked.Records m'.unmarked := by
  obtain ⟨new, hresults, hpending⟩ := h
  refine ⟨new.map fun row ↦ (row.1.unmarked, row.2.unmarked), ?_, ?_⟩
  · rw [Model.unmarked, hresults, List.map_append]
    rfl
  · rw [Model.unmarked, hpending, List.map_append, List.map_map, List.map_map]
    rfl

section

variable [Zero K] [One K] [Add K] [Mul K] [Numbers K] {c : Context}

private theorem Step.records {a : Application K} {r : Except (Failure K) (TermReference K)}
    (h : Step c m a (r, m')) : m.Records m' := by
  cases h with
  | known => exact Std.Refl.refl m
  | refused => exact Std.Refl.refl m
  | vector => exact records_record m a _
  | function => exact records_record m a _

theorem Consistent.records_evaluate (hm : Consistent c m) (e : Expression K) :
    m.Records ((e.evaluate c).run m).2 :=
  e.keeps_of_step (P := m.Records) (fun _ h hstep ↦ IsTrans.trans _ _ _ h hstep.records) hm
    (Std.Refl.refl m)

private theorem records_simulate [Div K] (source : NoiseSource K) (e : Expression K) (m : Model K) :
    m.Records ((e.simulate (sample source) c).run m).2 := by
  obtain ⟨state, hstate⟩ := e.within_simulate (c := c) (within_sample source) m
  rw [hstate]
  exact ⟨[], (List.append_nil _).symm, (List.append_nil _).symm⟩

end

theorem Consistent.nodup_keys [BEq K] {c : Context} (hm : Consistent c m) (hself : m.Recognizes) :
    (m.results.map (·.1)).Nodup := by
  rw [List.Nodup, List.pairwise_map]
  refine hm.resultsOnce.imp_of_mem fun {x y} hx _ hxy heq ↦ ?_
  rw [← heq, hself x hx] at hxy
  cases hxy

theorem SameButBeliefs.unmarked_eq (h : m.SameButBeliefs m') (hm : m.unmarked = m) :
    m'.unmarked = m' := by
  rw [h.1]
  exact congrArg (fun x : Model K ↦ { x with embeddings := m'.embeddings }) hm

private theorem SameButBeliefs.results_eq (h : m.SameButBeliefs m') : m'.results = m.results := by
  rw [h.1]

private theorem IsFinite.of_results_eq {m m' : Model Float} (h : m.IsFinite)
    (hsame : m'.results = m.results) : m'.IsFinite := by
  rw [IsFinite, hsame]
  exact h

end Model

namespace Workspace

section

variable [Routines Float] {settings : Settings} {w : Workspace}

/-! ## What an update leaves -/

/-- The applications that an update of a workspace folds into beliefs, whether it goes well or
not. -/
def folded (w : Workspace) : List (Application Float) :=
  match w.model.toModel with
  | .error _ => []
  | .ok m => Model.folded w.context (Model.grouped m.pending) m

private theorem folded_of_ok {m : Model Float} (h : w.model.toModel = .ok m) :
    w.folded = Model.folded w.context (Model.grouped m.pending) m := by
  rw [folded, h]

private theorem folded_of_error {f : SnapshotError} (h : w.model.toModel = .error f) :
    w.folded = [] := by
  rw [folded, h]

/-- What comes of an update of a workspace. -/
inductive Updated (w : Workspace) : Except ModelError Unit × Workspace → Prop
  /-- There is no model to update. -/
  | absent {f : SnapshotError} (htaken : w.model.toModel = .error f) :
      Updated w (.error (.snapshot f), w)
  /-- Everything was folded in, and nothing is pending. -/
  | cleared {m m' : Model Float} {s : Snapshot} (htaken : w.model.toModel = .ok m)
      (hsame : m.SameButBeliefs m') (hleft : s.toModel = .ok { m' with pending := [] })
      (hfolded : w.folded = (Model.grouped m.pending).flatMap Model.applicationsOf) :
      Updated w (.ok (), { w with model := s })
  /-- A group could not be folded in. The groups before it were, and everything is pending. -/
  | stopped {m m' : Model Float} {s : Snapshot}
      {before after : Table TermPointer (List (TermReference Float))}
      {group : TermPointer × List (TermReference Float)} {f : Failure Float}
      (htaken : w.model.toModel = .ok m)
      (hgroups : Model.grouped m.pending = before ++ group :: after)
      (hbefore : (Model.observeAll w.context before).run m = (.ok (), m'))
      (hfail : (Model.observe w.context group.1 group.2).run m' = (.error f, m'))
      (hsame : m.SameButBeliefs m') (hput : Snapshot.ofModel m' = .ok s)
      (hleft : s.toModel = .ok m')
      (hfolded : w.folded = before.flatMap Model.applicationsOf) :
      Updated w (.error (.failure f), { w with model := s })

variable [Routines.Shaped Float]

theorem AtRest.updated (hw : w.AtRest settings) : w.Updated w.update := by
  cases htaken : w.model.toModel with
  | error f =>
    rw [Workspace.update, perform_of_error htaken]
    exact .absent htaken
  | ok m =>
    obtain ⟨hm, hfinite, hunmarked, hs⟩ := hw.taken htaken
    have hreached := Operation.isDone_update.reachable hm
    rcases Model.update_cases (c := w.context) m with ⟨m', hrun, hsame, hfolded⟩ |
      ⟨before, group, after, m', f, hgroups, hbefore, hfail, hrun, hsame, hfolded⟩
    · rw [hrun] at hreached
      have hunmarked' : Model.unmarked { m' with pending := [] } = { m' with pending := [] } :=
        congrArg (fun x : Model Float ↦ { x with pending := [] }) (hsame.unmarked_eq hunmarked)
      obtain ⟨s, hput⟩ : ∃ s, Snapshot.ofModel { m' with pending := [] } = .ok s := by
        rw [hsame.1]
        exact Snapshot.exists_ofModel_of_beliefs hs hsame.2 (List.nil_subset _)
      rw [Workspace.update, perform_of_ok htaken (by rw [hrun]; exact hput), hrun]
      exact .cleared htaken hsame (toModel_of_put hreached.consistent
        (hfinite.of_results_eq hsame.results_eq) hunmarked' hput)
        ((folded_of_ok htaken).trans hfolded)
    · rw [hrun] at hreached
      obtain ⟨s, hput⟩ : ∃ s, Snapshot.ofModel m' = .ok s := by
        rw [hsame.1]
        exact Snapshot.exists_ofModel_of_beliefs hs hsame.2 (List.Subset.refl _)
      rw [Workspace.update, perform_of_ok htaken (by rw [hrun]; exact hput), hrun]
      exact .stopped htaken hgroups hbefore hfail hsame hput
        (toModel_of_put hreached.consistent (hfinite.of_results_eq hsame.results_eq)
          (hsame.unmarked_eq hunmarked) hput)
        ((folded_of_ok htaken).trans hfolded)

/-- Every group is pending, so what an update folds in is pending before it, each application as
often as it is pending. -/
theorem AtRest.countP_folded_le (hw : w.AtRest settings) {m : Model Float}
    (htaken : w.model.toModel = .ok m) (a : Application Float) :
    w.folded.countP (· = a) ≤ m.pending.countP (· = a) := by
  have hall : ((Model.grouped m.pending).flatMap Model.applicationsOf).countP (· = a) =
      m.pending.countP (· = a) := (Model.perm_grouped m.pending).countP_eq _
  have hupdated := hw.updated
  generalize w.update = outcome at hupdated
  cases hupdated with
  | absent herror => cases herror.symm.trans htaken
  | cleared htaken' _ _ hfolded =>
    cases htaken'.symm.trans htaken
    rw [hfolded, hall]
  | stopped htaken' hgroups _ _ _ _ _ hfolded =>
    cases htaken'.symm.trans htaken
    rw [← hall, hfolded, hgroups, List.flatMap_append, List.countP_append]
    exact Nat.le_add_right _ _

theorem AtRest.countP_pending_le_one (hw : w.AtRest settings) {m : Model Float}
    (htaken : w.model.toModel = .ok m) (a : Application Float) :
    m.pending.countP (· = a) ≤ 1 := by
  obtain ⟨hm, hfinite, -, -⟩ := hw.taken htaken
  have hnodup := (hm.consistent.nodup_keys (Model.recognizes_of_isFinite hfinite)).sublist
    hm.consistent.pending.sublist
  exact (@List.nodup_iff_count_le_one _ instBEqOfDecidableEq _ m.pending).mp hnodup a

/-! ## Runs -/

/-- A workspace after evaluations, simulations and updates, with the applications that the updates
have folded into beliefs, one after the other, and the number of updates that have failed. -/
inductive Run (settings : Settings) : Workspace → List (Application Float) → Nat → Prop
  | new {contents : Bytes} {c : Context} {w : Workspace} (h : new settings contents c = .ok w) :
      Run settings w [] 0
  | evaluate {w : Workspace} {log : List (Application Float)} {failures : Nat}
      (h : Run settings w log failures) (e : Expression Float) :
      Run settings (w.evaluate e).2 log failures
  | simulate {w : Workspace} {log : List (Application Float)} {failures : Nat}
      (h : Run settings w log failures) (e : Expression Float) :
      Run settings (w.simulate settings.source e).2 log failures
  | updated {w w' : Workspace} {log : List (Application Float)} {failures : Nat}
      (h : Run settings w log failures) (hok : w.update = (.ok (), w')) :
      Run settings w' (log ++ w.folded) failures
  | failed {w w' : Workspace} {log : List (Application Float)} {failures : Nat} {e : ModelError}
      (h : Run settings w log failures) (herror : w.update = (.error e, w')) :
      Run settings w' (log ++ w.folded) (failures + 1)

/-- **What the log of a workspace says about its model.** -/
structure Tally (settings : Settings) (w : Workspace) (log : List (Application Float))
    (failures : Nat) : Prop where
  atRest : w.AtRest settings
  /-- No application is in the log more often than updates have failed and once more. -/
  bound : ∀ a, log.countP (· = a) ≤ failures + 1
  /-- What is pending is in the log once at most for each update that has failed. -/
  pending : ∀ m, w.model.toModel = .ok m → ∀ a ∈ m.pending, log.countP (· = a) ≤ failures
  /-- What is in the log has a result. -/
  results : ∀ m, w.model.toModel = .ok m → ∀ a ∈ log, a ∈ m.results.map (·.1)

variable {log : List (Application Float)} {failures : Nat}

omit [Routines.Shaped Float] in
private theorem tally_of_new {contents : Bytes} {c : Context}
    (h : new settings contents c = .ok w) : w.Tally settings [] 0 where
  atRest := atRest_of_new h
  bound _ := Nat.zero_le _
  pending _ _ _ _ := Nat.zero_le _
  results _ _ _ ha := by cases ha

/-- What is taken up after work that makes pending what it adds to the results has the rows of
before and new ones behind them, and no two rows with one key. -/
theorem AtRest.records_of_put (hw : w.AtRest settings) {α : Type} {operation : Operation Float α}
    (hoperation : operation.IsDone settings.source w.context) {m m' : Model Float} {s : Snapshot}
    (hrecords : m.Records (operation.run m).2) (htaken : w.model.toModel = .ok m)
    (hput : Snapshot.ofModel (operation.run m).2 = .ok s) (hm' : s.toModel = .ok m') :
    m.Records m' ∧ (m'.results.map (·.1)).Nodup := by
  obtain ⟨hm, -, hunmarked, -⟩ := hw.taken htaken
  have hleft := hoperation.reachable hm
  have hrest : AtRest settings { w with model := s } := ⟨_, hleft, hput⟩
  obtain ⟨hnext, hfinite, -, -⟩ := hrest.taken hm'
  refine ⟨?_, hnext.consistent.nodup_keys (Model.recognizes_of_isFinite hfinite)⟩
  obtain ⟨-, rfl⟩ := (hleft.consistent.toModel_ofModel hput m').mp hm'
  have hadded := hrecords.unmarked
  rwa [hunmarked] at hadded

theorem Tally.perform (h : w.Tally settings log failures) {α : Type} {operation : Operation Float α}
    (hoperation : operation.IsDone settings.source w.context)
    (hrecords : ∀ m, Model.Consistent w.context m → m.Records (operation.run m).2) :
    (w.perform (.ofOperation operation)).2.Tally settings log failures := by
  have hrest := h.atRest.perform hoperation
  rcases w.perform_cases operation with hsame | ⟨m, s, htaken, hput, hleft⟩
  · rw [hsame]
    exact h
  · rw [hleft] at hrest ⊢
    obtain ⟨hm, -, -, -⟩ := h.atRest.taken htaken
    have hnext : ∀ m', s.toModel = .ok m' → m.Records m' ∧ (m'.results.map (·.1)).Nodup :=
      fun m' ↦ h.atRest.records_of_put hoperation (hrecords m hm.consistent) htaken hput
    refine ⟨hrest, h.bound, ?_, ?_⟩
    · intro m' hm' a ha
      obtain ⟨⟨new, hresults, hpending⟩, hnodup⟩ := hnext m' hm'
      rw [hpending] at ha
      rcases List.mem_append.mp ha with ha | ha
      · exact h.pending m htaken a ha
      · -- a new row is in the log not even once, since what is in the log has a row already
        rw [hresults, List.map_append, List.nodup_append] at hnodup
        have hnone : log.countP (· = a) = 0 := by
          refine List.countP_eq_zero.mpr fun b hb hsame ↦ ?_
          exact hnodup.2.2 b (h.results m htaken b hb) a ha (of_decide_eq_true hsame)
        rw [hnone]
        exact Nat.zero_le _
    · intro m' hm' a ha
      obtain ⟨⟨new, hresults, -⟩, -⟩ := hnext m' hm'
      rw [hresults, List.map_append]
      exact List.mem_append_left _ (h.results m htaken a ha)

/-- With what an update folds in, an application is in the log once more at most than updates have
failed before. -/
private theorem Tally.countP_append_folded_le (h : w.Tally settings log failures)
    (a : Application Float) : (log ++ w.folded).countP (· = a) ≤ failures + 1 := by
  rw [List.countP_append]
  cases htaken : w.model.toModel with
  | error f =>
    rw [folded_of_error htaken]
    exact h.bound a
  | ok m =>
    have hfolded := h.atRest.countP_folded_le htaken a
    by_cases ha : a ∈ m.pending
    · have hlog := h.pending m htaken a ha
      have honce := h.atRest.countP_pending_le_one htaken a
      omega
    · have hlog := h.bound a
      have hnone : m.pending.countP (· = a) = 0 := by
        refine List.countP_eq_zero.mpr fun b hb hsame ↦ ha ?_
        rwa [← of_decide_eq_true hsame]
      omega

private theorem Tally.mem_results (h : w.Tally settings log failures) {m' : Model Float}
    (hm' : w.update.2.model.toModel = .ok m') {a : Application Float}
    (ha : a ∈ log ++ w.folded) : a ∈ m'.results.map (·.1) := by
  have hmodel : ∃ m, w.model.toModel = .ok m ∧ m'.results = m.results := by
    have hupdated := h.atRest.updated
    generalize w.update = outcome at hupdated hm'
    cases hupdated with
    | absent htaken => cases htaken.symm.trans hm'
    | cleared htaken hsame hleft =>
      cases hleft.symm.trans hm'
      exact ⟨_, htaken, hsame.results_eq⟩
    | stopped htaken _ _ _ hsame _ hleft =>
      cases hleft.symm.trans hm'
      exact ⟨_, htaken, hsame.results_eq⟩
  obtain ⟨m, htaken, hresults⟩ := hmodel
  rw [hresults]
  rcases List.mem_append.mp ha with ha | ha
  · exact h.results m htaken a ha
  · obtain ⟨hm, -, -, -⟩ := h.atRest.taken htaken
    refine hm.consistent.pending.subset ?_
    have hcount := h.atRest.countP_folded_le htaken a
    have hfolded : 0 < w.folded.countP (· = a) :=
      List.countP_pos_iff.mpr ⟨a, ha, decide_eq_true rfl⟩
    obtain ⟨b, hb, hsame⟩ := List.countP_pos_iff.mp (Nat.lt_of_lt_of_le hfolded hcount)
    rwa [← of_decide_eq_true hsame]

theorem AtRest.pending_of_update (hw : w.AtRest settings) {w' : Workspace}
    (hok : w.update = (.ok (), w')) {m' : Model Float} (hm' : w'.model.toModel = .ok m') :
    m'.pending = [] := by
  have hupdated := hw.updated
  rw [hok] at hupdated
  cases hupdated with
  | cleared _ _ hleft =>
    cases hleft.symm.trans hm'
    rfl

/-- An update moves applications from the queue to the log, or leaves them in both. So the log holds
only applications with results, and how often it holds one has grown by one at most. -/
private theorem Tally.update (h : w.Tally settings log failures) :
    w.update.2.AtRest settings ∧
      (∀ a, (log ++ w.folded).countP (· = a) ≤ failures + 1) ∧
      ∀ m', w.update.2.model.toModel = .ok m' →
        ∀ a ∈ log ++ w.folded, a ∈ m'.results.map (·.1) :=
  ⟨h.atRest.update, h.countP_append_folded_le, fun _ hm' _ ha ↦ h.mem_results hm' ha⟩

theorem Run.tally (h : Run settings w log failures) : w.Tally settings log failures := by
  induction h with
  | new h => exact tally_of_new h
  | evaluate _ e ih =>
    exact ih.perform (Operation.isDone_evaluate e) fun m hm ↦ hm.records_evaluate e
  | simulate _ e ih =>
    exact ih.perform (Operation.isDone_simulate e) fun m _ ↦ Model.records_simulate _ e m
  | @updated w w' log failures _ hok ih =>
    obtain ⟨hrest, hcount, hresults⟩ := ih.update
    rw [hok] at hrest hresults
    refine ⟨hrest, hcount, fun m' hm' a ha ↦ ?_, hresults⟩
    rw [ih.atRest.pending_of_update hok hm'] at ha
    cases ha
  | @failed w w' log failures e _ herror ih =>
    obtain ⟨hrest, hcount, hresults⟩ := ih.update
    rw [herror] at hrest hresults
    exact ⟨hrest, fun a ↦ Nat.le_succ_of_le (hcount a), fun _ _ a _ ↦ hcount a, hresults⟩

/-- **What a failed update leaves, and how often an application is folded in.** If an update of a
workspace fails, then either there was no model to update, or one group of pending applications
could not be folded in. In this case the groups before it have been, what is put away is the model
that this has led to, with all applications still pending, and the workspace is the one it was only
if nothing has changed in the beliefs. So an application may be folded in again, but it is folded in
no more often than updates have failed and once more. -/
theorem folds_of_failed_updates (h : Run settings w log failures) :
    (∀ e w', w.update = (.error e, w') →
      (∃ f, w.model.toModel = .error f ∧ e = .snapshot f ∧ w' = w) ∨
      ∃ m before group after m' f, w.model.toModel = .ok m ∧
        Model.grouped m.pending = before ++ group :: after ∧
        (Model.observeAll w.context before).run m = (.ok (), m') ∧
        (Model.observe w.context group.1 group.2).run m' = (.error f, m') ∧
        e = .failure f ∧ w' = { w with model := w'.model } ∧ w'.model.toModel = .ok m' ∧
        m' = { m with embeddings := m'.embeddings } ∧ (w' = w ↔ m' = m)) ∧
    ∀ a, log.countP (· = a) ≤ failures + 1 := by
  refine ⟨fun e w' herror ↦ ?_, h.tally.bound⟩
  have hw := h.tally.atRest
  have hupdated := hw.updated
  rw [herror] at hupdated
  cases hupdated with
  | absent htaken => exact .inl ⟨_, htaken, rfl, rfl⟩
  | @stopped m m' s before after group f htaken hgroups hbefore hfail hsame hput hleft =>
    refine .inr ⟨m, before, group, after, m', f, htaken, hgroups, hbefore, hfail, rfl, rfl, hleft,
      hsame.1, ?_⟩
    obtain ⟨-, -, -, hs⟩ := hw.taken htaken
    constructor
    · intro heq
      have hmodel : s = w.model := congrArg Workspace.model heq
      rw [hmodel] at hleft
      cases hleft.symm.trans htaken
      rfl
    · rintro rfl
      cases hs.symm.trans hput
      rfl

end

end Workspace

/-- Pairs of numbers and their functions, two of which are declared. -/
def Context.plane : Context where
  kinds := [.vector 2, .function 0 0 none]
  primitives := [(1, [Json.name "f", Json.name "g"])]
  wellFormed := by
    refine @Kind.WellFormed.snoc [.vector 2] (.function 0 0 none) (.snoc .nil (Nat.le_succ 1)) ?_
    refine ⟨by decide, by decide, ?_⟩
    rintro _ ⟨⟩
  ascending := by decide
  functional := by
    rintro _ (_ | _)
    · exact ⟨.function 0 0 none, rfl, rfl⟩
    · contradiction

namespace Workspace

/-- Settings with a source of noise that is silent. -/
def planeSettings : Settings := ⟨.tape #[0.0], .unspecified, ⟨[], []⟩⟩

/-- A declared function of pairs of numbers, which is applied to one of them. -/
def planeApplication (n : Nat) (x y : Float) : Expression Float :=
  .application (.term ⟨1, .primitive n⟩) (.reference (.vector 0 [x, y] .anywhere))

/-- A workspace after one application of each function. The second one is applied to numbers that
are so large that ones are lost beside them. -/
def planeStuck (w : Workspace) : Workspace :=
  ((w.evaluate (planeApplication 0 1.0 1.0)).2.evaluate
    (planeApplication 1 1152921504606846976.0 1152921504606846976.0)).2

/-- The workspace after an update that has failed and another application of the second function,
with which its applications can be folded in. -/
def planeFreed (w : Workspace) : Workspace :=
  (w.planeStuck.update.2.evaluate
    (planeApplication 1 1152921504606846976.0 (-1152921504606846976.0))).2

/-- The precision of the belief about the first function. -/
def planePrecision (w : Workspace) : Option (List Float) :=
  w.model.toModel.toOption.bind fun m ↦
    (m.embeddings.get? ⟨1, .primitive 0⟩).map (·.precision.toList)

/-- An update that fails at the second function has moved the belief about the first one, and when
the next update goes well, the application of the first function is folded in again. -/
theorem folds_of_failed_updates_plane : ∃ w w₁ w₂ : Workspace, ∃ e log,
    Run planeSettings w [] 0 ∧ w.update = (.error e, w₁) ∧
    w.planePrecision = some [1.0, 0.0, 0.0, 0.0, 1.0, 0.0, 0.0, 0.0, 1.0] ∧
    w₁.planePrecision = some [11.0, 10.0, 10.0, 10.0, 11.0, 10.0, 10.0, 10.0, 11.0] ∧
    Run planeSettings w₂ log 1 ∧
    w₂.planePrecision = some [21.0, 20.0, 20.0, 20.0, 21.0, 20.0, 20.0, 20.0, 21.0] ∧
    log.countP (· = ⟨⟨1, .primitive 0⟩, .vector 0 [1.0, 1.0] .anywhere⟩) = 2 ∧
    ∀ a, log.countP (· = a) ≤ 2 := by
  have hfacts : (Workspace.new planeSettings [] .plane).toOption.map (fun w ↦
      ([w.planeStuck.update.1.toOption, w.planeFreed.update.1.toOption],
        [w.planeStuck.planePrecision, w.planeStuck.update.2.planePrecision,
          w.planeFreed.update.2.planePrecision],
        (w.planeStuck.folded ++ w.planeFreed.folded).countP
          (· = ⟨⟨1, .primitive 0⟩, .vector 0 [1.0, 1.0] .anywhere⟩))) =
      some ([none, some ()], [some [1.0, 0.0, 0.0, 0.0, 1.0, 0.0, 0.0, 0.0, 1.0],
        some [11.0, 10.0, 10.0, 10.0, 11.0, 10.0, 10.0, 10.0, 11.0],
        some [21.0, 20.0, 20.0, 20.0, 21.0, 20.0, 20.0, 20.0, 21.0]], 2) := by
    decide +kernel
  obtain ⟨w, hnew, hfacts⟩ := exists_of_map_toOption_eq_some hfacts
  obtain ⟨hanswers, hfacts⟩ := Prod.mk.inj hfacts
  obtain ⟨hprecisions, htwice⟩ := Prod.mk.inj hfacts
  obtain ⟨herror, hanswers⟩ := List.cons.inj hanswers
  obtain ⟨hok, -⟩ := List.cons.inj hanswers
  obtain ⟨hbefore, hprecisions⟩ := List.cons.inj hprecisions
  obtain ⟨hbetween, hprecisions⟩ := List.cons.inj hprecisions
  obtain ⟨hafter, -⟩ := List.cons.inj hprecisions
  have hstuck : Run planeSettings w.planeStuck [] 0 := ((Run.new hnew).evaluate _).evaluate _
  rcases hupdate : w.planeStuck.update with ⟨e | ⟨⟩, w₁⟩
  · rw [hupdate] at hbetween
    have hfreed : Run planeSettings w.planeFreed ([] ++ w.planeStuck.folded) 1 := by
      rw [planeFreed, hupdate]
      exact (hstuck.failed hupdate).evaluate _
    rcases hupdate' : w.planeFreed.update with ⟨e' | ⟨⟩, w₂⟩
    · rw [hupdate'] at hok
      cases hok
    · rw [hupdate'] at hafter
      have hrun := hfreed.updated hupdate'
      exact ⟨w.planeStuck, w₁, w₂, e, _, hstuck, hupdate, hbefore, hbetween, hrun, hafter, htwice,
        (folds_of_failed_updates hrun).2⟩
  · rw [hupdate] at herror
    cases herror

end Workspace

end TermEmbedding
