import Mathlib.Data.List.Induction
import TermEmbedding.Proofs.Model.Update

/-!
# What is folded in

Pending applications are folded into the beliefs group by group. A group is folded in as a whole or
not at all; but if a group cannot be folded in, the groups before it have been, and all of them stay
pending. Nothing but beliefs changes on the way, and every belief that changes is one about a term
that was known before. A group is made of all the applications of its function, in their order.
-/

namespace TermEmbedding

variable {K : Type}

namespace Model

open Operation

/-! ## Beliefs that change -/

/-- The model with another belief about a term. -/
def revise (m : Model K) (p : TermPointer) (e : Embedding K) : Model K :=
  { m with embeddings := m.embeddings.insert p e }

/-- Two models that differ at most in what they believe about the terms that both know. -/
def SameButBeliefs (m m' : Model K) : Prop :=
  m' = { m with embeddings := m'.embeddings } ∧
    m'.embeddings.map (·.1) = m.embeddings.map (·.1)

instance : Std.Refl (SameButBeliefs : Model K → Model K → Prop) := ⟨fun _ ↦ ⟨rfl, rfl⟩⟩

instance : IsTrans (Model K) SameButBeliefs where
  trans m m₁ m₂ h h' := by
    obtain ⟨hsame, hkeys⟩ := h
    obtain ⟨hsame', hkeys'⟩ := h'
    refine ⟨?_, hkeys'.trans hkeys⟩
    rw [hsame', hsame]

theorem sameButBeliefs_revise {m : Model K} {p : TermPointer} (hp : m.Knows p)
    (e : Embedding K) : m.SameButBeliefs (m.revise p e) :=
  ⟨rfl, Table.map_fst_insert_of_isSome hp e⟩

/-! ## Groups -/

section

variable [Zero K] [One K] [Add K] [Mul K] [Div K] [Numbers K] {c : Context}

/-- What comes of folding a group into the belief about a term. -/
inductive Observed (m : Model K) (p : TermPointer) : Except (Failure K) Unit × Model K → Prop
  | failed (f : Failure K) : Observed m p (.error f, m)
  | folded (e : Embedding K) (hp : m.Knows p) : Observed m p (.ok (), m.revise p e)

/-- **A group is folded in as a whole or not at all.** -/
theorem observed_observe (p : TermPointer) (arguments : List (TermReference K)) (m : Model K) :
    Observed m p ((observe c p arguments).run m) := by
  -- only the last of its steps changes the model
  refine run_bind_of_look (within_type _) .failed fun s _ ↦ ?_
  refine run_bind_of_look (within_type _) .failed fun space _ ↦ ?_
  refine run_bind_of_look (within_mapM (within_observedFeatures space) _) .failed fun _ _ ↦ ?_
  refine run_bind_of_look (within_linear _) .failed fun features _ ↦ ?_
  refine run_bind_of_look (within_mapM (within_observedTarget s.2 p) _) .failed fun _ _ ↦ ?_
  refine run_bind_of_look (within_linear _) .failed fun targets _ ↦ ?_
  refine run_bind_of_look (within_embedding p) .failed fun e he ↦ ?_
  refine run_bind_of_look (within_linear _) .failed fun updated _ ↦ ?_
  refine .folded updated ?_
  rw [Knows, (eq_of_run_embedding he).1]
  rfl

/-- The applications of a group. -/
def applicationsOf (group : TermPointer × List (TermReference K)) : List (Application K) :=
  group.2.map fun argument ↦ ⟨group.1, argument⟩

/-- The applications that are folded into beliefs: those of the groups before the first one that
cannot be folded in. -/
def folded (c : Context) : Table TermPointer (List (TermReference K)) → Model K →
    List (Application K)
  | [], _ => []
  | group :: rest, m =>
    match (observe c group.1 group.2).run m with
    | (.ok (), next) => applicationsOf group ++ folded c rest next
    | (.error _, _) => []

/-- **Groups are folded in up to the first one that cannot be.** The failure of this one ends the
work, and what the groups before it have done stays. -/
theorem observeAll_cases (groups : Table TermPointer (List (TermReference K))) (m : Model K) :
    (∃ m', (observeAll c groups).run m = (.ok (), m') ∧ m.SameButBeliefs m' ∧
        folded c groups m = groups.flatMap applicationsOf) ∨
      ∃ before group after m' f, groups = before ++ group :: after ∧
        (observeAll c before).run m = (.ok (), m') ∧
        (observe c group.1 group.2).run m' = (.error f, m') ∧
        (observeAll c groups).run m = (.error f, m') ∧ m.SameButBeliefs m' ∧
        folded c groups m = before.flatMap applicationsOf := by
  induction groups generalizing m with
  | nil => exact .inl ⟨m, rfl, Std.Refl.refl m, rfl⟩
  | cons group rest ih =>
    have hstep := observed_observe (c := c) group.1 group.2 m
    generalize he : (observe c group.1 group.2).run m = outcome at hstep
    cases hstep with
    | failed f =>
      refine .inr ⟨[], group, rest, m, f, rfl, rfl, he, run_bind_error he _, Std.Refl.refl m, ?_⟩
      rw [folded, he]
      rfl
    | folded e hknows =>
      have hfirst := sameButBeliefs_revise hknows e
      have hrun : ∀ others, (observeAll c (group :: others)).run m =
          (observeAll c others).run (m.revise group.1 e) := fun others ↦ run_bind_ok he _
      have hfolded : folded c (group :: rest) m =
          applicationsOf group ++ folded c rest (m.revise group.1 e) := by
        rw [folded, he]
      rcases ih (m.revise group.1 e) with ⟨m', hok, hsame, hall⟩ |
        ⟨before, failing, after, m', f, rfl, hbefore, hfail, herror, hsame, hall⟩
      · refine .inl ⟨m', (hrun rest).trans hok, IsTrans.trans _ _ _ hfirst hsame, ?_⟩
        rw [hfolded, hall, List.flatMap_cons]
      · refine .inr ⟨group :: before, failing, after, m', f, rfl, (hrun before).trans hbefore,
          hfail, (hrun _).trans herror, IsTrans.trans _ _ _ hfirst hsame, ?_⟩
        rw [hfolded, hall, List.flatMap_cons]

theorem sameButBeliefs_learn (m : Model K) :
    m.SameButBeliefs ((learn c : Operation K Unit).run m).2 := by
  rw [learn, run_bind_ok (run_get m)]
  rcases observeAll_cases (c := c) (grouped m.pending) m with ⟨m', hrun, hsame, -⟩ |
    ⟨before, group, after, m', f, -, -, -, hrun, hsame, -⟩
  · rw [hrun]
    exact hsame
  · rw [hrun]
    exact hsame

/-- **An update folds in all groups or stops at one of them.** In the first case nothing stays
pending, in the second case everything does. -/
theorem update_cases (m : Model K) :
    (∃ m', (update c).run m = (.ok (), { m' with pending := [] }) ∧ m.SameButBeliefs m' ∧
        folded c (grouped m.pending) m = (grouped m.pending).flatMap applicationsOf) ∨
      ∃ before group after m' f, grouped m.pending = before ++ group :: after ∧
        (observeAll c before).run m = (.ok (), m') ∧
        (observe c group.1 group.2).run m' = (.error f, m') ∧
        (update c).run m = (.error f, m') ∧ m.SameButBeliefs m' ∧
        folded c (grouped m.pending) m = before.flatMap applicationsOf := by
  have hlearn : (learn c : Operation K Unit).run m = (observeAll c (grouped m.pending)).run m :=
    run_bind_ok (run_get m) _
  rcases observeAll_cases (c := c) (grouped m.pending) m with ⟨m', hrun, hrest⟩ |
    ⟨before, group, after, m', f, hgroups, hbefore, hfail, hrun, hrest⟩
  · exact .inl ⟨m', run_bind_ok (hlearn.trans hrun) _, hrest⟩
  · exact .inr ⟨before, group, after, m', f, hgroups, hbefore, hfail,
      run_bind_error (hlearn.trans hrun) _, hrest⟩

end

/-! ## Nothing is lost in groups -/

private theorem perm_flatMap_insert (groups : Table TermPointer (List (TermReference K)))
    (a : Application K) :
    ((groups.insert a.callee ((groups.get? a.callee).getD [] ++ [a.argument])).flatMap
      applicationsOf).Perm (groups.flatMap applicationsOf ++ [a]) := by
  induction groups with
  | nil => exact .refl _
  | cons group rest ih =>
    obtain ⟨p, arguments⟩ := group
    by_cases hp : p = a.callee
    · subst hp
      have hinsert : Table.insert ((a.callee, arguments) :: rest) a.callee
          ((Table.get? ((a.callee, arguments) :: rest) a.callee).getD [] ++ [a.argument]) =
          (a.callee, arguments ++ [a.argument]) :: rest := by
        simp [Table.insert, Table.get?]
      rw [hinsert, List.flatMap_cons, List.flatMap_cons, applicationsOf, applicationsOf,
        List.map_append, List.append_assoc, List.append_assoc]
      exact List.Perm.append_left _ List.perm_append_comm
    · have hinsert : Table.insert ((p, arguments) :: rest) a.callee
          ((Table.get? ((p, arguments) :: rest) a.callee).getD [] ++ [a.argument]) =
          (p, arguments) :: Table.insert rest a.callee
            ((Table.get? rest a.callee).getD [] ++ [a.argument]) := by
        simp [Table.insert, Table.get?, hp]
      rw [hinsert, List.flatMap_cons, List.flatMap_cons, List.append_assoc]
      exact List.Perm.append_left _ ih

/-- **Every application is in the group of its function**, as often as it is pending. -/
theorem perm_grouped (applications : List (Application K)) :
    ((grouped applications).flatMap applicationsOf).Perm applications := by
  have hfold : ∀ (rest : List (Application K))
      (groups : Table TermPointer (List (TermReference K))),
      ((rest.foldl (fun groups a ↦
        groups.insert a.callee ((groups.get? a.callee).getD [] ++ [a.argument])) groups).flatMap
          applicationsOf).Perm (groups.flatMap applicationsOf ++ rest) := by
    intro rest
    induction rest with
    | nil => exact fun groups ↦ by rw [List.append_nil]; exact .refl _
    | cons a rest ih =>
      intro groups
      refine (ih _).trans ?_
      rw [← List.singleton_append (l := rest), ← List.append_assoc]
      exact (perm_flatMap_insert groups a).append_right rest
  exact hfold applications []

section

variable {applications : List (Application K)}

theorem ne_nil_of_mem_grouped {group : TermPointer × List (TermReference K)}
    (h : group ∈ grouped applications) : group.2 ≠ [] := by
  revert group
  refine List.foldlRecOn (motive := fun groups : Table TermPointer (List (TermReference K)) ↦
    ∀ {group}, group ∈ groups → group.2 ≠ []) applications _ (by rintro group ⟨⟩)
    fun groups hgroups a _ group hgroup ↦ ?_
  rcases Table.mem_insert hgroup with rfl | hgroup
  · exact List.concat_ne_nil _ _
  · exact hgroups hgroup

theorem mem_of_mem_grouped {group : TermPointer × List (TermReference K)}
    (h : group ∈ grouped applications) {argument : TermReference K}
    (hargument : argument ∈ group.2) : ⟨group.1, argument⟩ ∈ applications := by
  rw [← (perm_grouped applications).mem_iff, List.mem_flatMap]
  exact ⟨group, h, List.mem_map_of_mem hargument⟩

theorem nodup_grouped (applications : List (Application K)) :
    ((grouped applications).map (·.1)).Nodup := by
  refine List.foldlRecOn (motive := fun groups : Table TermPointer (List (TermReference K)) ↦
    (groups.map (·.1)).Nodup) applications _ ?_ fun groups hgroups a _ ↦ ?_
  · exact List.nodup_nil
  · exact Table.nodup_insert hgroups _ _

/-- A function is looked up among the groups with the arguments that it was applied to, in their
order. -/
theorem get?_grouped (applications : List (Application K)) (p : TermPointer) :
    ((grouped applications).get? p).getD [] =
      (applications.filter (·.callee = p)).map (·.argument) := by
  induction applications using List.reverseRecOn with
  | nil => rfl
  | append_singleton applications a ih =>
    have hgrouped : grouped (applications ++ [a]) = (grouped applications).insert a.callee
        (((grouped applications).get? a.callee).getD [] ++ [a.argument]) := by
      rw [grouped, List.foldl_concat, ← grouped]
    rw [hgrouped, Table.get?_insert, List.filter_append, List.map_append, ← ih]
    by_cases hp : a.callee = p
    · simp [hp]
    · simp [hp]

/-- **A group is made of the applications of its function.** -/
theorem mem_grouped_iff {group : TermPointer × List (TermReference K)} :
    group ∈ grouped applications ↔
      group.2 ≠ [] ∧ group.2 = (applications.filter (·.callee = group.1)).map (·.argument) := by
  constructor
  · intro h
    refine ⟨ne_nil_of_mem_grouped h, ?_⟩
    rw [← get?_grouped, Table.get?_of_mem (nodup_grouped applications) h, Option.getD_some]
  · rintro ⟨hne, heq⟩
    rw [← get?_grouped] at heq
    cases hget : (grouped applications).get? group.1 with
    | none =>
      rw [hget] at heq
      exact absurd heq hne
    | some arguments =>
      rw [hget] at heq
      exact Table.mem_of_get? (heq ▸ hget)

end

end Model

end TermEmbedding
