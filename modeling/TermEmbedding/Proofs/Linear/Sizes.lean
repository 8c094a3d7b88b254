import Mathlib.Tactic.SplitIfs
import TermEmbedding.Linear.Floating

/-!
# Sizes of matrices given by their rows

The routines of linear algebra work on lists of rows, and a list of lists need not be a matrix. The
routines keep the lists in shape, whatever the numbers are: elimination and the root pass through
triangular systems, in which each row is one shorter than the row before it, and columns that are
turned keep their lengths. So what a routine answers for the rows of a matrix are the rows of a
matrix of the size that belongs to the operation.
-/

namespace TermEmbedding

variable {K : Type}

/-! ## Matrices -/

/-- Whether lists are the rows of a matrix of a size. -/
structure IsMatrix (m n : Nat) (rows : List (List K)) : Prop where
  length : rows.length = m
  width : ∀ row ∈ rows, row.length = n

namespace IsMatrix

variable {m n : Nat} {rows : List (List K)}

theorem nil (n : Nat) : IsMatrix 0 n ([] : List (List K)) := ⟨rfl, by simp⟩

theorem cons {row : List K} (hrow : row.length = n) (h : IsMatrix m n rows) :
    IsMatrix (m + 1) n (row :: rows) :=
  ⟨congrArg (· + 1) h.length, List.forall_mem_cons.mpr ⟨hrow, h.width⟩⟩

theorem map {f : List K → List K} (h : IsMatrix m n rows) {k : Nat}
    (hf : ∀ row, row.length = n → (f row).length = k) : IsMatrix m k (rows.map f) := by
  refine ⟨by rw [List.length_map, h.length], fun row hrow ↦ ?_⟩
  obtain ⟨row', hrow', rfl⟩ := List.mem_map.mp hrow
  exact hf row' (h.width row' hrow')

theorem range {f : Nat → List K} (hf : ∀ i, (f i).length = n) :
    IsMatrix m n ((List.range m).map f) := by
  refine ⟨by rw [List.length_map, List.length_range], fun row hrow ↦ ?_⟩
  obtain ⟨i, -, rfl⟩ := List.mem_map.mp hrow
  exact hf i

private theorem length_flatten (h : IsMatrix m n rows) : rows.flatten.length = m * n := by
  obtain ⟨rfl, hwidth⟩ := h
  induction rows with
  | nil => simp
  | cons row rest ih =>
    rw [List.forall_mem_cons] at hwidth
    rw [List.flatten_cons, List.length_append, hwidth.1, ih hwidth.2, List.length_cons,
      Nat.succ_mul, Nat.add_comm]

theorem columnsOf (h : IsMatrix m n rows) : IsMatrix n m (columnsOf n rows) := by
  refine ⟨length_columnsOf h.width, ?_⟩
  obtain ⟨rfl, -⟩ := h
  induction rows with
  | nil =>
    intro column hcolumn
    rw [List.eq_of_mem_replicate hcolumn]
    rfl
  | cons row rest ih =>
    intro column hcolumn
    obtain ⟨i, hi, rfl⟩ := List.mem_iff_getElem.mp hcolumn
    simp only [TermEmbedding.columnsOf, List.foldr_cons, List.getElem_zipWith, List.length_cons]
    exact congrArg (· + 1) (ih _ (List.getElem_mem _))

end IsMatrix

namespace Tensor

theorem isMatrix_matrixAt [Zero K] (t : Tensor K) (front : List Nat) (m n : Nat)
    (place : List Nat) : IsMatrix m n (t.matrixAt front m n place) :=
  .range fun i ↦ by rw [List.length_map, List.length_range]

theorem ofMatrices_singleton {m n : Nat} {rows : List (List K)} (h : IsMatrix m n rows) :
    ∃ t, ofMatrices [] m n [rows] = .ok t := by
  have hvolume : volume (ofList [rows].flatten.flatten).shape = volume ([] ++ [m, n]) := by
    rw [List.flatten_singleton, shape_ofList, h.length_flatten]
    simp
  rw [ofMatrices, reshape?, dif_pos hvolume]
  exact ⟨_, rfl⟩

end Tensor

/-! ## Triangular systems -/

/-- Whether each row is one shorter than the row before it, down to one of `k + 1` entries. -/
def IsTriangle (k : Nat) (rows : List (List K)) : Prop :=
  ∀ i row, rows[i]? = some row → row.length + i = rows.length + k

private theorem isTriangle_cons_iff {k : Nat} {row : List K} {rows : List (List K)} :
    IsTriangle k (row :: rows) ↔ row.length = rows.length + 1 + k ∧ IsTriangle k rows := by
  constructor
  · intro h
    refine ⟨h 0 row rfl, fun i other hother ↦ ?_⟩
    have := h (i + 1) other hother
    rw [List.length_cons] at this
    omega
  · rintro ⟨hrow, h⟩ i other hother
    cases i with
    | zero =>
      cases hother
      exact hrow
    | succ i =>
      have := h i other hother
      rw [List.length_cons]
      omega

private theorem length_foldl_zip {α : Type} {n : Nat} (f : α → K × K → K) {xs : List (α × List K)}
    (h : ∀ x ∈ xs, x.2.length = n) {start : List K} (hstart : start.length = n) :
    (xs.foldl (fun v x ↦ (v.zip x.2).map (f x.1)) start).length = n := by
  induction xs generalizing start with
  | nil => exact hstart
  | cons x xs ih =>
    rw [List.forall_mem_cons] at h
    refine ih h.2 ?_
    rw [List.length_map, List.length_zip, hstart, h.1, Nat.min_self]

namespace Elimination

variable {rows : List (List Float)}

private theorem length_pivotFirst (rows : List (List Float)) :
    (pivotFirst rows).length = rows.length := by
  fun_cases pivotFirst rows with
  | case1 => rfl
  | case2 first rest h => rfl
  | case3 first rest i h => rw [List.length_cons, List.length_set, List.length_cons]

private theorem mem_of_mem_pivotFirst {row : List Float} (h : row ∈ pivotFirst rows) :
    row ∈ rows := by
  revert h
  fun_cases pivotFirst rows with
  | case1 => exact id
  | case2 first rest h => exact id
  | case3 first rest i h =>
    intro hrow
    rcases List.mem_cons.mp hrow with rfl | hrow
    · rw [List.getD_eq_getElem?_getD]
      cases hget : rest[i]? with
      | none => exact List.mem_cons_self
      | some other => exact List.mem_cons_of_mem _ (List.mem_of_getElem? hget)
    · rcases List.mem_or_eq_of_mem_set hrow with hrow | rfl
      · exact List.mem_cons_of_mem _ hrow
      · exact List.mem_cons_self

/-- A system in `n` unknowns with `k` right-hand sides is made triangular. -/
theorem isTriangle_of_triangular? {n k : Nat} {ts : List (List Float)}
    (hrows : IsMatrix n (n + k) rows) (h : triangular? n rows = some ts) :
    ts.length = n ∧ IsTriangle k ts := by
  induction n generalizing rows ts k with
  | zero =>
    cases h
    exact ⟨rfl, by rintro i row ⟨⟩⟩
  | succ n ih =>
    rw [triangular?] at h
    have hpivot := length_pivotFirst rows
    have hwidth : ∀ row ∈ pivotFirst rows, row.length = n + 1 + k := fun row hrow ↦
      hrows.width row (mem_of_mem_pivotFirst hrow)
    rw [hrows.length] at hpivot
    cases hp : pivotFirst rows with
    | nil =>
      rw [hp] at h
      cases h
    | cons pivot others =>
      rw [hp] at h hpivot hwidth
      rw [List.forall_mem_cons] at hwidth
      dsimp only at h
      split_ifs at h
      obtain ⟨rest, hrest, rfl⟩ := Option.map_eq_some_iff.mp h
      -- a reduced row has lost its leading entry
      have hreduced : IsMatrix n (n + k) (others.map (reduce pivot)) := by
        refine (IsMatrix.mk (by simpa using hpivot) hwidth.2).map fun row hrow ↦ ?_
        rw [reduce, List.length_map, List.length_zip, List.length_tail, List.length_tail, hrow,
          hwidth.1]
        omega
      obtain ⟨hlength, htriangle⟩ := ih hreduced hrest
      rw [isTriangle_cons_iff, List.length_cons, hlength]
      exact ⟨rfl, hwidth.1, htriangle⟩

theorem isMatrix_substitute {k : Nat} (h : IsTriangle k rows) :
    IsMatrix rows.length k (substitute rows) := by
  induction rows with
  | nil => exact .nil k
  | cons row rows ih =>
    obtain ⟨hrow, hrows⟩ := isTriangle_cons_iff.mp h
    have hsolved := ih hrows
    refine hsolved.cons ?_
    rw [List.length_map]
    refine length_foldl_zip (fun c p ↦ p.1 - c * p.2) (fun x hx ↦ ?_) ?_
    · exact hsolved.width _ (List.of_mem_zip hx).2
    · rw [List.length_drop, List.length_tail, hrow, hsolved.length]
      omega

theorem isMatrix_of_solve? {n k : Nat} {a b x : List (List Float)} (ha : IsMatrix n n a)
    (hb : IsMatrix n k b) (h : solve? a b = some x) : IsMatrix n k x := by
  obtain ⟨ts, hts, rfl⟩ := Option.map_eq_some_iff.mp h
  have hjoined : IsMatrix n (n + k) ((a.zip b).map fun p ↦ p.1 ++ p.2) := by
    refine ⟨by rw [List.length_map, List.length_zip, ha.length, hb.length, Nat.min_self], ?_⟩
    intro row hrow
    obtain ⟨p, hp, rfl⟩ := List.mem_map.mp hrow
    rw [List.length_append, ha.width _ (List.of_mem_zip hp).1, hb.width _ (List.of_mem_zip hp).2]
  rw [ha.length] at hts
  obtain ⟨rfl, htriangle⟩ := isTriangle_of_triangular? hjoined hts
  exact isMatrix_substitute htriangle

end Elimination

/-! ## Roots -/

theorem Cholesky.isTriangle_of_columns? {n : Nat} {lower root : List (List Float)}
    (hlength : lower.length = n) (hlower : IsTriangle 0 lower)
    (h : columns? n lower = some root) : root.length = n ∧ IsTriangle 0 root := by
  induction n generalizing lower root with
  | zero =>
    cases h
    exact ⟨rfl, by rintro i row ⟨⟩⟩
  | succ n ih =>
    cases lower with
    | nil => cases hlength
    | cons column columns =>
      rw [columns?] at h
      split_ifs at h
      obtain ⟨rest, hrest, rfl⟩ := Option.map_eq_some_iff.mp h
      obtain ⟨hcolumn, hcolumns⟩ := isTriangle_cons_iff.mp hlower
      obtain rfl : columns.length = n := Nat.succ.inj hlength
      have hreduced := ih (by rw [List.length_map, List.length_zipIdx]) (fun i row hrow ↦ ?_) hrest
      · obtain ⟨hlength', htriangle⟩ := hreduced
        rw [isTriangle_cons_iff, List.length_cons, List.length_cons, List.length_map,
          List.length_tail, hcolumn, hlength']
        exact ⟨rfl, rfl, htriangle⟩
      · rw [List.getElem?_map, List.getElem?_zipIdx, Option.map_map, Option.map_eq_some_iff] at hrow
        obtain ⟨other, hother, rfl⟩ := hrow
        have := hcolumns i other hother
        have hi := (List.getElem?_eq_some_iff.mp hother).1
        simp only [Function.comp_apply, List.length_map, List.length_zip, List.length_drop,
          List.length_tail, hcolumn, List.length_zipIdx]
        omega

theorem Tensor.isMatrix_of_lowerRootRows? {n : Nat} {rows root : List (List Float)}
    (hrows : IsMatrix n n rows) (h : lowerRootRows? rows = some root) : IsMatrix n n root := by
  obtain ⟨columns, hcolumns, rfl⟩ := Option.map_eq_some_iff.mp h
  rw [hrows.length] at hcolumns ⊢
  have hlength : (columnsOf n rows).length = n := hrows.columnsOf.length
  obtain ⟨hn, htriangle⟩ := Cholesky.isTriangle_of_columns?
    (by rw [List.length_map, List.length_zipIdx, hlength]) (fun i row hrow ↦ by
      rw [List.getElem?_map, List.getElem?_zipIdx, Option.map_map, Option.map_eq_some_iff] at hrow
      obtain ⟨column, hcolumn, rfl⟩ := hrow
      have hi := (List.getElem?_eq_some_iff.mp hcolumn).1
      simp only [Function.comp_apply, List.length_drop, List.length_map, List.length_zipIdx,
        hrows.columnsOf.width column (List.mem_of_getElem? hcolumn), hlength]
      omega) hcolumns
  refine IsMatrix.columnsOf ⟨by rw [List.length_map, List.length_zipIdx, hn], fun row hrow ↦ ?_⟩
  obtain ⟨⟨column, j⟩, hcolumn, rfl⟩ := List.mem_map.mp hrow
  have := htriangle j column (List.mk_mem_zipIdx_iff_getElem?.mp hcolumn)
  rw [List.length_append, List.length_replicate]
  omega

/-! ## Pseudo-inverses -/

namespace PseudoInverse

namespace Column

variable {height : Nat}

/-- Whether columns are the images of coefficients in a space of the given dimension. -/
private abbrev AllIn (height : Nat) (columns : List Column) : Prop :=
  ∀ column ∈ columns, column.image.length = height

private theorem length_combine (c d : Float) {xs ys : List Float} (hxs : xs.length = height)
    (hys : ys.length = height) : (combine c d xs ys).length = height := by
  rw [combine, List.length_map, List.length_zip, hxs, hys, Nat.min_self]

private theorem length_of_turn? {a b c d : Column} (ha : a.image.length = height)
    (hb : b.image.length = height) (h : a.turn? b = some (c, d)) :
    c.image.length = height ∧ d.image.length = height := by
  simp only [turn?, Option.ite_none_left_eq_some, Option.some.injEq, Prod.mk.injEq] at h
  obtain ⟨-, rfl, rfl⟩ := h
  exact ⟨length_combine _ _ ha hb, length_combine _ _ ha hb⟩

private theorem allIn_turnAgainst {a : Column} {columns : List Column}
    (ha : a.image.length = height)
    (h : AllIn height columns) : (a.turnAgainst columns).1.image.length = height ∧
      AllIn height (a.turnAgainst columns).2.1 := by
  induction columns generalizing a with
  | nil => exact ⟨ha, h⟩
  | cons b others ih =>
    rw [AllIn, List.forall_mem_cons] at h
    rw [turnAgainst]
    cases hturn : a.turn? b with
    | none =>
      obtain ⟨hfirst, hrest⟩ := ih ha h.2
      exact ⟨hfirst, List.forall_mem_cons.mpr ⟨h.1, hrest⟩⟩
    | some turned =>
      obtain ⟨hc, hd⟩ := length_of_turn? ha h.1 hturn
      obtain ⟨hfirst, hrest⟩ := ih hc h.2
      exact ⟨hfirst, List.forall_mem_cons.mpr ⟨hd, hrest⟩⟩

private theorem allIn_sweep {columns : List Column} (h : AllIn height columns) :
    AllIn height (sweep columns).1 := by
  rw [sweep]
  refine List.foldlRecOn (motive := fun s : List Column × Bool ↦ AllIn height s.1) columns _
    (List.forall_mem_nil _) fun s hs column hcolumn ↦ ?_
  obtain ⟨hfirst, hrest⟩ := allIn_turnAgainst (h column hcolumn) hs
  exact List.forall_mem_cons.mpr ⟨hfirst, hrest⟩

private theorem allIn_orthogonalise {columns : List Column} (rounds : Nat)
    (h : AllIn height columns) : AllIn height (orthogonalise rounds columns) := by
  induction rounds generalizing columns with
  | zero => exact h
  | succ rounds ih =>
    have hnext := allIn_sweep h
    rw [orthogonalise]
    split
    · rename_i hsweep
      rw [hsweep] at hnext
      exact ih hnext
    · rename_i hsweep
      rw [hsweep] at hnext
      exact hnext

end Column

private theorem isMatrix_rowsOfTall {m n : Nat} {columns : List (List Float)}
    (h : IsMatrix n m columns) : IsMatrix n m (rowsOfTall m columns) := by
  have hinitial : Column.AllIn m (Column.initial columns) := by
    intro column hcolumn
    obtain ⟨⟨image, i⟩, himage, rfl⟩ := List.mem_map.mp hcolumn
    exact h.width image (List.mem_of_getElem? (List.mk_mem_zipIdx_iff_getElem?.mp himage))
  have hturned := Column.allIn_orthogonalise Column.roundLimit hinitial
  rw [rowsOfTall, h.length]
  refine .range fun j ↦ ?_
  refine length_foldl_zip (fun c p ↦ p.1 + c * p.2) (fun x hx ↦ ?_) List.length_replicate
  obtain ⟨column, hcolumn, hback⟩ := List.mem_map.mp (List.of_mem_zip hx).2
  rw [← hback, List.length_map]
  exact hturned column (List.mem_filter.mp hcolumn).1

theorem isMatrix_rows {m n : Nat} {columns : List (List Float)} (h : IsMatrix n m columns) :
    IsMatrix n m (rows m columns) := by
  have hlevelled : ∀ (exponent : Int) (xs : List Float) {k : Nat}, xs.length = k →
      (levelled exponent xs).length = k := fun exponent xs k hxs ↦ by
    rw [levelled, List.length_map, hxs]
  have hlevel := h.map fun row ↦ hlevelled (leveller columns.flatten) row
  rw [rows]
  refine IsMatrix.map ?_ fun row ↦ hlevelled (leveller columns.flatten) row
  rw [h.length]
  split_ifs
  · exact isMatrix_rowsOfTall hlevel
  · exact (isMatrix_rowsOfTall hlevel.columnsOf).columnsOf

end PseudoInverse

end TermEmbedding
