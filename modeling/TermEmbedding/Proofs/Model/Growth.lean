import TermEmbedding.Proofs.Model.Recall

/-!
# What evaluation adds to a model

An evaluation adds rows of results, and everything else that it adds goes with a row: the
application of the row is pending, and if the result is a term, then this term is new, there is a
belief about it, and it is listed with the application of the row. All of it is added at the end,
and nothing that was there is changed, whether the evaluation comes to an end or stops on the way.
-/

namespace TermEmbedding

variable {K : Type}

private theorem Table.isPrefix_map_fst_insert {κ α : Type} [BEq κ] [LawfulBEq κ] (table : Table κ α)
    (key : κ) (a : α) : table.map (·.1) <+: (table.insert key a).map (·.1) := by
  cases hget : table.get? key with
  | none =>
    rw [Table.insert_of_get?_eq_none a hget, List.map_append]
    exact List.prefix_append _ _
  | some b => rw [Table.map_fst_insert_of_isSome (by rw [hget]; rfl)]

namespace Model

/-- The applications of the rows whose results are terms of a type. -/
def originsAmong (t : TypeId) (rows : Table (Application K) (TermReference K)) :
    List (Application K) :=
  (rows.filter fun row ↦ row.2.pointer?.map (·.typeId) = some t).map (·.1)

/-- One model has some rows of results more than another one and what goes with them, and differs in
nothing else. -/
structure GainsRows (m m' : Model K) (rows : Table (Application K) (TermReference K)) : Prop where
  results : m'.results = m.results ++ rows
  pending : m'.pending = m.pending ++ rows.map (·.1)
  embeddings : ∃ beliefs, m'.embeddings = m.embeddings ++ beliefs ∧
    beliefs.map (·.1) = rows.filterMap (·.2.pointer?)
  origins : ∀ t, m'.originsOf t = m.originsOf t ++ originsAmong t rows
  types : m.origins.map (·.1) <+: m'.origins.map (·.1)
  elaborators : m'.elaborators = m.elaborators
  noise : m'.noise = m.noise

/-- One model has rows of results that another one has not, and what goes with them. -/
def Gains (m m' : Model K) : Prop := ∃ rows, m.GainsRows m' rows

theorem Gains.refl (m : Model K) : m.Gains m :=
  ⟨[], (List.append_nil _).symm, (List.append_nil _).symm, ⟨[], (List.append_nil _).symm, rfl⟩,
    fun _ ↦ (List.append_nil _).symm, List.prefix_rfl, rfl, rfl⟩

theorem Gains.trans {m m₁ m₂ : Model K} (h : m.Gains m₁) (h' : m₁.Gains m₂) : m.Gains m₂ := by
  obtain ⟨rows, h⟩ := h
  obtain ⟨rows', h'⟩ := h'
  obtain ⟨beliefs, hbeliefs, hterms⟩ := h.embeddings
  obtain ⟨beliefs', hbeliefs', hterms'⟩ := h'.embeddings
  refine ⟨rows ++ rows', ?_, ?_, ⟨beliefs ++ beliefs', ?_, ?_⟩, fun t ↦ ?_, h.types.trans h'.types,
    h'.elaborators.trans h.elaborators, h'.noise.trans h.noise⟩
  · rw [h'.results, h.results, List.append_assoc]
  · rw [h'.pending, h.pending, List.map_append, List.append_assoc]
  · rw [hbeliefs', hbeliefs, List.append_assoc]
  · rw [List.map_append, List.filterMap_append, hterms, hterms']
  · rw [h'.origins, h.origins, originsAmong, originsAmong, originsAmong, List.filter_append,
      List.map_append, List.append_assoc]

section

variable [Zero K] [One K] [Add K] [Mul K] [Numbers K] {c : Context} {m m' : Model K}

/-- **A step adds a row and what goes with it, or nothing.** -/
theorem Step.gains {a : Application K} {r : Except (Failure K) (TermReference K)}
    (h : Step c m a (r, m')) : m.Gains m' := by
  cases h with
  | known => exact .refl m
  | refused => exact .refl m
  | vector =>
    refine ⟨_, rfl, rfl, ⟨[], (List.append_nil _).symm, rfl⟩, fun t ↦ ?_, List.prefix_rfl, rfl, rfl⟩
    exact (List.append_nil _).symm
  | @function t v w space mean _ _ _ _ _ _ haxes =>
    refine ⟨_, rfl, rfl, ⟨_, rfl, rfl⟩, fun u ↦ ?_, Table.isPrefix_map_fst_insert _ _ _, rfl, rfl⟩
    refine (originsOf_install m t u a (.prior mean haxes)).trans ?_
    by_cases htype : t = u
    · subst htype
      rw [if_pos rfl]
      simp [originsAmong, TermReference.pointer?, nextTerm]
    · rw [if_neg htype]
      simp [originsAmong, TermReference.pointer?, nextTerm, htype]

/-- **An evaluation adds rows and what goes with them**, wherever it stops. -/
theorem Consistent.gains_evaluate (hm : Consistent c m) (e : Expression K) :
    m.Gains ((e.evaluate c).run m).2 :=
  e.keeps_of_step (P := m.Gains) (fun _ h hstep ↦ h.trans hstep.gains) hm (.refl m)

end

end Model

end TermEmbedding
