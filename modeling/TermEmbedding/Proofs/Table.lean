import TermEmbedding.Table

/-!
# Rows of tables

Most tables have keys that are equal exactly when they count as equal. The table of results has
not: a vector with an entry that is no number does not even count as equal to itself. What is said
here of rows that were found holds for all keys, what is said of rows that are there for lawful
ones.
-/

namespace TermEmbedding

namespace Table

variable {κ α : Type} [BEq κ] {table : Table κ α} {key : κ} {a : α}

/-! ## Looking up -/

theorem get?_append (table others : Table κ α) (key : κ) :
    Table.get? (table ++ others) key = (table.get? key).or (others.get? key) := by
  induction table with
  | nil => rfl
  | cons row rest ih =>
    obtain ⟨k, b⟩ := row
    rw [List.cons_append, get?, get?]
    split
    · rfl
    · exact ih

theorem get?_of_isPrefix {others : Table κ α} (h : table <+: others)
    (hget : table.get? key = some a) : others.get? key = some a := by
  obtain ⟨rest, rfl⟩ := h
  rw [get?_append, hget, Option.some_or]

theorem exists_mem_of_get? (h : table.get? key = some a) :
    ∃ k, (k, a) ∈ table ∧ (k == key) = true := by
  induction table with
  | nil => cases h
  | cons row rest ih =>
    obtain ⟨k, b⟩ := row
    rw [get?] at h
    split at h
    · rename_i hk
      cases h
      exact ⟨k, List.mem_cons_self, hk⟩
    · obtain ⟨k', hmem, hk'⟩ := ih h
      exact ⟨k', List.mem_cons_of_mem _ hmem, hk'⟩

theorem get?_eq_none_iff : table.get? key = none ↔ ∀ row ∈ table, (row.1 == key) = false := by
  induction table with
  | nil => simp [get?]
  | cons row rest ih =>
    obtain ⟨k, b⟩ := row
    rw [get?, List.forall_mem_cons]
    cases hk : k == key with
    | true => simp
    | false => simp [ih]

theorem get?_map {β : Type} (f : α → β) (table : Table κ α) (key : κ) :
    Table.get? (table.map fun row ↦ (row.1, f row.2)) key = (table.get? key).map f := by
  induction table with
  | nil => rfl
  | cons row rest ih =>
    obtain ⟨k, b⟩ := row
    rw [List.map_cons, get?, get?, ih]
    split <;> rfl

/-! ## Rows in order -/

theorem ofRows_eq {rows : List (κ × α)} (h : rows.Pairwise fun x y ↦ (x.1 == y.1) = false) :
    ofRows rows = rows := by
  have hfold : ∀ (rest table : Table κ α),
      (table ++ rest).Pairwise (fun x y ↦ (x.1 == y.1) = false) →
      rest.foldl (fun t row ↦ insert t row.1 row.2) table = table ++ rest := by
    intro rest
    induction rest with
    | nil => intro table _; simp
    | cons row rest ih =>
      intro table hpair
      have hnone : table.get? row.1 = none := by
        rw [get?_eq_none_iff]
        intro other hother
        exact (List.pairwise_append.mp hpair).2.2 other hother row List.mem_cons_self
      rw [List.foldl_cons, insert_of_get?_eq_none row.2 hnone, ih _ (by simpa using hpair)]
      simp
  exact hfold rows [] h

/-- A row is found where keys are told apart, if its key counts as the one that is looked for and
no other key does that does not count as the key of the row. -/
theorem get?_of_pairwise (hrows : table.Pairwise fun x y ↦ (x.1 == y.1) = false) {k : κ}
    (h : (k, a) ∈ table) (hk : (k == key) = true)
    (hkey : ∀ k', (k' == key) = true → (k' == k) = true) : table.get? key = some a := by
  induction table with
  | nil => cases h
  | cons row rest ih =>
    obtain ⟨k', b⟩ := row
    rw [List.pairwise_cons] at hrows
    rw [get?]
    rcases List.mem_cons.mp h with h | h
    · cases h
      rw [if_pos hk]
    · have hother : ¬(k' == key) = true := by
        intro hk'
        have hsame := hkey k' hk'
        rw [hrows.1 _ h] at hsame
        cases hsame
      rw [if_neg hother]
      exact ih hrows.2 h

theorem map_fst_insert_of_isSome (h : (table.get? key).isSome = true) (a : α) :
    (table.insert key a).map (·.1) = table.map (·.1) := by
  induction table with
  | nil => cases h
  | cons row rest ih =>
    obtain ⟨k, b⟩ := row
    rw [insert]
    split
    · rfl
    · rename_i hk
      rw [get?, if_neg hk] at h
      rw [List.map_cons, List.map_cons, ih h]

section

variable [LawfulBEq κ]

theorem mem_of_get? (h : table.get? key = some a) : (key, a) ∈ table := by
  obtain ⟨k, hmem, hk⟩ := exists_mem_of_get? h
  rw [beq_iff_eq] at hk
  exact hk ▸ hmem

theorem get?_of_mem (hkeys : (table.map (·.1)).Nodup) (h : (key, a) ∈ table) :
    table.get? key = some a := by
  induction table with
  | nil => cases h
  | cons row rest ih =>
    obtain ⟨k, b⟩ := row
    rw [List.map_cons, List.nodup_cons] at hkeys
    rw [get?]
    rcases List.mem_cons.mp h with h | h
    · cases h
      rw [if_pos (beq_self_eq_true key)]
    · have hne : k ≠ key := by
        rintro rfl
        exact hkeys.1 (List.mem_map.mpr ⟨(k, a), h, rfl⟩)
      rw [if_neg (by simpa using hne)]
      exact ih hkeys.2 h

theorem isSome_get?_iff : (table.get? key).isSome = true ↔ key ∈ table.map (·.1) := by
  induction table with
  | nil => simp [get?]
  | cons row rest ih =>
    obtain ⟨k, b⟩ := row
    rw [get?, List.map_cons, List.mem_cons, ← ih]
    by_cases hk : k = key
    · simp [hk]
    · simp [hk, Ne.symm hk]

theorem pairwise_of_nodup (h : (table.map (·.1)).Nodup) :
    table.Pairwise fun x y ↦ (x.1 == y.1) = false := by
  rw [List.Nodup, List.pairwise_map] at h
  exact h.imp fun hne ↦ by simpa using hne

theorem nodup_insert (h : (table.map (·.1)).Nodup) (key : κ) (a : α) :
    ((table.insert key a).map (·.1)).Nodup := by
  cases hget : table.get? key with
  | none =>
    rw [insert_of_get?_eq_none a hget, List.map_append, List.nodup_append]
    refine ⟨h, by simp, ?_⟩
    intro k hk k' hk' heq
    obtain rfl : k' = key := by simpa using hk'
    rw [heq, ← isSome_get?_iff, hget] at hk
    cases hk
  | some b =>
    rw [map_fst_insert_of_isSome (by rw [hget]; rfl)]
    exact h

theorem insert_comm {other : κ} (hne : key ≠ other) (hkey : (table.get? key).isSome = true)
    (hother : (table.get? other).isSome = true) (a b : α) :
    (table.insert key a).insert other b = (table.insert other b).insert key a := by
  induction table with
  | nil => cases hkey
  | cons row rest ih =>
    obtain ⟨k, v⟩ := row
    rw [get?] at hkey hother
    by_cases hk : (k == key) = true
    · obtain rfl := beq_iff_eq.mp hk
      simp [insert, hne]
    · rw [if_neg hk] at hkey
      by_cases ho : (k == other) = true
      · simp [insert, hk, ho]
      · rw [if_neg ho] at hother
        simp only [insert, if_neg hk, if_neg ho]
        rw [ih hkey hother]

theorem mem_insert {row : κ × α} (h : row ∈ table.insert key a) :
    row = (key, a) ∨ row ∈ table := by
  induction table with
  | nil => exact .inl (by simpa [insert] using h)
  | cons first rest ih =>
    obtain ⟨k, b⟩ := first
    rw [insert] at h
    split at h
    · rename_i hk
      rw [beq_iff_eq] at hk
      rcases List.mem_cons.mp h with h | h
      · exact .inl (hk ▸ h)
      · exact .inr (List.mem_cons_of_mem _ h)
    · rcases List.mem_cons.mp h with h | h
      · exact .inr (h ▸ List.mem_cons_self)
      · exact (ih h).imp_right (List.mem_cons_of_mem _)

end

end Table

end TermEmbedding
