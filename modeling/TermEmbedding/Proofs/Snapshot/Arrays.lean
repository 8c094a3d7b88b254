import TermEmbedding.Linear.Data

/-!
# Arrays as data and back

An array is put away as nested lists of its entries, which are numbers as they are, finite or not.
It is read back from them if no axis is empty: an empty axis hides the axes behind it.
-/

namespace TermEmbedding

namespace Tensor

/-! ## Shapes -/

private theorem shapesOf?_of_forall {items : List Json} {shape : List Nat}
    (h : ∀ item ∈ items, shapeOf? item = some shape) :
    shapesOf? items = some (List.replicate items.length shape) := by
  induction items with
  | nil => rfl
  | cons item items ih =>
    rw [List.forall_mem_cons] at h
    rw [shapesOf?, h.1, ih h.2]
    rfl

theorem shapeOf?_nested (entries : Array Float) {shape : List Nat} (h : ∀ n ∈ shape, 1 ≤ n)
    (position : Nat) : shapeOf? (nested entries shape position) = some shape := by
  induction shape generalizing position with
  | nil => rfl
  | cons n shape ih =>
    rw [List.forall_mem_cons] at h
    have hitems : ∀ item ∈ (List.range n).map fun i ↦
        nested entries shape (position + i * volume shape), shapeOf? item = some shape := by
      intro item hitem
      obtain ⟨i, -, rfl⟩ := List.mem_map.mp hitem
      exact ih h.2 _
    -- the shape behind an axis is read off its first item, so there must be one
    obtain ⟨k, rfl⟩ : ∃ k, n = k + 1 := ⟨n - 1, by omega⟩
    rw [nested, shapeOf?, shapesOf?_of_forall hitems, List.length_map, List.length_range,
      List.replicate_succ]
    simp

/-! ## Entries -/

private theorem entriesOfAll_of_forall {α : Type} {xs : List α} {item : α → Json}
    {entries : α → List Float} (h : ∀ x ∈ xs, entriesOf (item x) = .ok (entries x)) :
    entriesOfAll (xs.map item) = .ok (xs.flatMap entries) := by
  induction xs with
  | nil => rfl
  | cons x xs ih =>
    rw [List.forall_mem_cons] at h
    rw [List.map_cons, entriesOfAll, h.1, ih h.2]
    rfl

private theorem flatMap_range_mul {α : Type} (f : Nat → α) (n k : Nat) :
    (List.range n).flatMap (fun i ↦ (List.range k).map fun j ↦ f (i * k + j)) =
      (List.range (n * k)).map f := by
  induction n with
  | zero => simp
  | succ n ih =>
    rw [List.range_succ, List.flatMap_append, ih, Nat.succ_mul, List.range_add, List.map_append,
      List.map_map]
    simp [Function.comp_def]

theorem entriesOf_nested (entries : Array Float) (shape : List Nat) (position : Nat) :
    entriesOf (nested entries shape position) =
      .ok ((List.range (volume shape)).map fun i ↦ entries.getD (position + i) 0) := by
  induction shape generalizing position with
  | nil => rfl
  | cons n shape ih =>
    rw [nested, entriesOf, entriesOfAll_of_forall fun i _ ↦ ih (position + i * volume shape),
      volume_cons, ← flatMap_range_mul fun i ↦ entries.getD (position + i) 0]
    simp only [Nat.add_assoc]

/-- **An array is read back from its nested lists.** -/
theorem ofData_toData {t : Tensor Float} (hpos : ∀ n ∈ t.shape, 1 ≤ n)
    (hlength : t.shape.length ≤ axisLimit) : ofData t.toData = .ok t := by
  obtain ⟨shape, entries, hsize⟩ := t
  have hentries : (List.range (volume shape)).map (fun i ↦ entries.getD (0 + i) 0) =
      entries.toList := by
    refine List.ext_getElem (by simp [hsize]) ?_
    intro i hi _
    have hi' : i < entries.size := by simpa [hsize] using hi
    simp [hi']
  have hread := entriesOf_nested entries shape 0
  rw [hentries] at hread
  have hvolume : volume (ofList entries.toList).shape = volume shape := by simp [hsize]
  rw [toData, ofData, shapeOf?_nested entries hpos, Option.filter_some_pos (by simpa using hlength)]
  dsimp only
  rw [hread]
  simp only [bind, Except.bind, reshape?, dif_pos hvolume]
  rfl

end Tensor

end TermEmbedding
