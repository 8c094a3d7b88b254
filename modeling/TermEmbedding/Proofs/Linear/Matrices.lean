import Mathlib.Algebra.BigOperators.Fin
import Mathlib.Data.Matrix.Mul
import TermEmbedding.Proofs.Exceptions
import TermEmbedding.Proofs.Linear.Shapes

/-!
# Arrays as matrices

An array of two axes is a matrix, and one of a single axis is a vector. Operations on arrays are
defined index by index, for all shapes at once; on matrices and vectors of fitting sizes they are
the usual operations. An array is determined by its matrix and its shape.
-/

namespace TermEmbedding

namespace Tensor

variable {K : Type}

/-! ## Indices -/

/-- Whether an index is one of the arrays of a shape. -/
def IsIndexOf (shape index : List Nat) : Prop := List.Forall₂ (· < ·) index shape

private theorem isIndexOf_vector {n i : Nat} (hi : i < n) : IsIndexOf [n] [i] := .cons hi .nil

theorem isIndexOf_matrix {m n i j : Nat} (hi : i < m) (hj : j < n) : IsIndexOf [m, n] [i, j] :=
  .cons hi (isIndexOf_vector hj)

private theorem ravel_lt {shape index : List Nat} (h : IsIndexOf shape index) :
    ravel shape index < volume shape := by
  induction h with
  | nil => exact Nat.one_pos
  | @cons i n index shape hi _ ih =>
    have hrows : (i + 1) * volume shape ≤ n * volume shape := Nat.mul_le_mul_right _ hi
    rw [Nat.succ_mul] at hrows
    rw [ravel, volume_cons]
    omega

theorem unravel_ravel {shape index : List Nat} (h : IsIndexOf shape index) :
    unravel shape (ravel shape index) = index := by
  induction h with
  | nil => rfl
  | @cons i n index shape hi hindex ih =>
    have hlt := ravel_lt hindex
    have hpos : 0 < volume shape := Nat.zero_lt_of_lt hlt
    rw [ravel, unravel, Nat.add_comm, Nat.add_mul_div_right _ _ hpos, Nat.div_eq_of_lt hlt,
      Nat.zero_add, Nat.add_mul_mod_self_right, Nat.mod_eq_of_lt hlt, ih]

private theorem stretched_self {shape index : List Nat} (h : IsIndexOf shape index) :
    stretched shape index = index := by
  rw [stretched, h.length_eq, Nat.sub_self, List.drop_zero]
  induction h with
  | nil => rfl
  | @cons i n index shape hi _ ih =>
    rw [List.zip_cons_cons, List.map_cons, ih]
    dsimp only
    split_ifs with hn
    · rw [hn] at hi
      rw [Nat.lt_one_iff.mp hi]
    · rfl

section

variable [Zero K] {shape index : List Nat}

/-! ## Entries -/

theorem get_tabulate (h : IsIndexOf shape index) (f : List Nat → K) :
    (tabulate shape f).get index = f index := by
  have hlt : ravel shape index < (tabulate shape f).entries.size := by
    rw [size_eq, shape_tabulate]
    exact ravel_lt h
  rw [get, shape_tabulate, Array.getD_eq_getD_getElem?, Array.getElem?_eq_getElem hlt,
    Option.getD_some]
  simp only [tabulate, Array.getElem_ofFn, unravel_ravel h]

theorem get_map {t : Tensor K} (h : IsIndexOf t.shape index) (f : K → K) :
    (t.map f).get index = f (t.get index) := by
  have hlt : ravel t.shape index < t.entries.size := t.size_eq ▸ ravel_lt h
  rw [get, get, shape_map, map, Array.getD_eq_getD_getElem?, Array.getD_eq_getD_getElem?,
    Array.getElem?_map, Array.getElem?_eq_getElem hlt]
  rfl

theorem get_add [Add K] {a b r : Tensor K} (h : a.shape = b.shape) (hr : a.add b = .ok r)
    (hindex : IsIndexOf a.shape index) : r.get index = a.get index + b.get index := by
  rw [add, ← h, commonShape?_self] at hr
  cases hr
  rw [get_tabulate hindex, stretched_self hindex]

private theorem get_asRight {b : Tensor K} {k : Nat} (hb : b.shape = [k]) (l : Nat) :
    b.asRight.get [l, 0] = b.get [l] := by
  rw [get, get, shape_asRight_vector hb, hb]
  rw [asRight]
  split
  · simp [ravel]
  · rename_i hother
    exact absurd hb (hother k)

private theorem get_of_column {t r : Tensor K} {m : Nat} (ht : t.shape = [m, 1])
    (hr : t.reshape? [m] = some r) (i : Nat) : r.get [i] = t.get [i, 0] := by
  rw [get, get, ht, shape_of_reshape? hr]
  rw [reshape?] at hr
  split at hr
  · cases hr
    simp [ravel]
  · cases hr

private theorem sumBelow_eq_sum {K : Type} [AddCommMonoid K] (n : Nat) (f : Nat → K) :
    sumBelow n f = ∑ i : Fin n, f i := by
  rw [← Finset.sum_range, sumBelow]
  induction n with
  | zero => rfl
  | succ n ih => rw [List.range_succ, List.foldl_append, ih, Finset.sum_range_succ]; rfl

/-! ## Matrices and vectors -/

def toMatrix (t : Tensor K) (m n : Nat) : Matrix (Fin m) (Fin n) K :=
  .of fun i j ↦ t.get [i, j]

def toVec (t : Tensor K) (n : Nat) : Fin n → K := fun i ↦ t.get [i]

@[simp] theorem toMatrix_apply (t : Tensor K) {m n : Nat} (i : Fin m) (j : Fin n) :
    t.toMatrix m n i j = t.get [i, j] := rfl

theorem ext_get {a b : Tensor K} (hshape : a.shape = b.shape)
    (h : ∀ i < volume a.shape, a.entries.getD i 0 = b.entries.getD i 0) : a = b := by
  obtain ⟨shape, entries, hsize⟩ := a
  obtain ⟨shape', entries', hsize'⟩ := b
  obtain rfl : shape = shape' := hshape
  obtain rfl : entries = entries' := by
    refine Array.ext (hsize.trans hsize'.symm) fun i hi hi' ↦ ?_
    simpa [hi, hi'] using h i (hsize ▸ hi)
  rfl

theorem eq_of_toMatrix_eq {a b : Tensor K} {m n : Nat} (ha : a.shape = [m, n])
    (hb : b.shape = [m, n]) (h : a.toMatrix m n = b.toMatrix m n) : a = b := by
  refine ext_get (ha.trans hb.symm) fun i hi ↦ ?_
  rw [ha] at hi
  have hi' : i < m * n := by simpa using hi
  have hn : 0 < n := Nat.pos_of_mul_pos_left (Nat.zero_lt_of_lt hi')
  have hentry := congrFun (congrFun h ⟨i / n, Nat.div_lt_of_lt_mul (Nat.mul_comm m n ▸ hi')⟩)
    ⟨i % n, Nat.mod_lt i hn⟩
  simpa [get, ha, hb, ravel, Nat.div_add_mod'] using hentry

theorem eq_of_toVec_eq {a b : Tensor K} {n : Nat} (ha : a.shape = [n]) (hb : b.shape = [n])
    (h : a.toVec n = b.toVec n) : a = b := by
  refine ext_get (ha.trans hb.symm) fun i hi ↦ ?_
  have hi' : i < n := by simpa [ha] using hi
  simpa [toVec, get, ha, hb, ravel] using congrFun h ⟨i, hi'⟩

theorem toMatrix_map {t : Tensor K} {m n : Nat} (h : t.shape = [m, n]) (f : K → K) :
    (t.map f).toMatrix m n = (t.toMatrix m n).map f := by
  ext i j
  exact get_map (h ▸ isIndexOf_matrix i.isLt j.isLt) f

theorem toMatrix_transpose {t : Tensor K} {m n : Nat} (h : t.shape = [m, n]) :
    t.transpose.toMatrix n m = (t.toMatrix m n).transpose := by
  ext i j
  rw [toMatrix_apply, transpose, h]
  exact get_tabulate (isIndexOf_matrix i.isLt j.isLt) _

theorem toMatrix_add [Add K] {a b r : Tensor K} {m n : Nat} (ha : a.shape = [m, n])
    (hb : b.shape = [m, n]) (hr : a.add b = .ok r) :
    r.toMatrix m n = a.toMatrix m n + b.toMatrix m n := by
  ext i j
  exact get_add (ha.trans hb.symm) hr (ha ▸ isIndexOf_matrix i.isLt j.isLt)

theorem toMatrix_identity [One K] (n : Nat) : (identity n : Tensor K).toMatrix n n = 1 := by
  ext i j
  rw [toMatrix_apply, identity, get_tabulate (isIndexOf_matrix i.isLt j.isLt), Matrix.one_apply]
  simp [Fin.ext_iff]

theorem get_stack {ts : List (Tensor K)} {r : Tensor K} {n : Nat} (h : ∀ t ∈ ts, t.shape = [n])
    (hr : stack ts = .ok r) {i j : Nat} (hi : i < ts.length) (hj : j < n) :
    r.get [i, j] = ts[i].get [j] := by
  cases ts with
  | nil => cases hr
  | cons first rest =>
    have hfirst : first.shape = [n] := h first List.mem_cons_self
    rw [stack] at hr
    split_ifs at hr
    cases hr
    rw [hfirst]
    have hindex : IsIndexOf [rest.length + 1, n] [i, j] := isIndexOf_matrix hi hj
    rw [get_tabulate hindex, List.headD_cons, List.getElem?_eq_getElem hi]
    rfl

theorem exists_stack {α : Type} {n : Nat} (f : α → Fin n → K) (xs : List α) {ts : List (Tensor K)}
    (hne : xs ≠ []) (h : List.Forall₂ (fun x t ↦ t.shape = [n] ∧ t.toVec n = f x) xs ts) :
    ∃ r, stack ts = .ok r ∧ r.shape = [xs.length, n] ∧
      r.toMatrix xs.length n = .of fun i ↦ f xs[i] := by
  have hlength := h.length_eq
  have hshape : ∀ t ∈ ts, t.shape = [n] := by
    intro t ht
    obtain ⟨i, hi, rfl⟩ := List.getElem_of_mem ht
    exact (h.get (hlength ▸ hi) hi).1
  have hne' : ts ≠ [] := by
    rintro rfl
    exact hne (List.length_eq_zero_iff.mp hlength)
  obtain ⟨r, hr, hrshape⟩ := stack_of_shape hne' hshape
  refine ⟨r, hr, hlength ▸ hrshape, ?_⟩
  ext i j
  have hi : (i : Nat) < ts.length := hlength ▸ i.isLt
  rw [toMatrix_apply, get_stack hshape hr hi j.isLt]
  exact congrFun (h.get i.isLt hi).2 j

end

/-! ## Products -/

section

variable [NonUnitalNonAssocSemiring K]

theorem get_stackProduct {a b r : Tensor K} {m k n : Nat} (ha : a.shape = [m, k])
    (hb : b.shape = [k, n]) (hr : stackProduct a b = .ok r) {i j : Nat} (hi : i < m) (hj : j < n) :
    r.get [i, j] = ∑ l : Fin k, a.get [i, l] * b.get [l, j] := by
  rw [stackProduct, ha, hb, asStack?_matrix, asStack?_matrix] at hr
  dsimp only at hr
  rw [commonShape?_self] at hr
  dsimp only at hr
  rw [if_pos rfl] at hr
  cases hr
  exact (get_tabulate (isIndexOf_matrix hi hj) _).trans (sumBelow_eq_sum k _)

theorem toMatrix_matmul {a b r : Tensor K} {m k n : Nat} (ha : a.shape = [m, k])
    (hb : b.shape = [k, n]) (hr : a.matmul b = .ok r) :
    r.toMatrix m n = a.toMatrix m k * b.toMatrix k n := by
  obtain ⟨p, hp, hshape⟩ := stackProduct_matrices ha hb
  have hsame : a.matmul b = .ok p := by
    refine matmul_of_stackProduct (by rw [asLeft_matrix ha, asRight_matrix hb, hp]) hshape ?_
    rw [ha, hb]
    exact (congrArg p.reshape? hshape.symm).trans (reshape?_of_volume rfl)
  cases hsame.symm.trans hr
  ext i j
  exact get_stackProduct ha hb hp i.isLt j.isLt

theorem toVec_matmul {a b r : Tensor K} {m k : Nat} (ha : a.shape = [m, k]) (hb : b.shape = [k])
    (hr : a.matmul b = .ok r) : r.toVec m = (a.toMatrix m k).mulVec (b.toVec k) := by
  have hright := shape_asRight_vector hb
  obtain ⟨p, hp, hshape⟩ := stackProduct_matrices ha hright
  have hvolume : volume p.shape = volume [m] := by simp [hshape]
  have hcolumn := reshape?_of_volume hvolume
  have hsame : a.matmul b = .ok ⟨[m], p.entries, p.size_eq.trans hvolume⟩ := by
    refine matmul_of_stackProduct (by rw [asLeft_matrix ha, hp]) hshape ?_
    rw [ha, hb]
    exact hcolumn
  cases hsame.symm.trans hr
  ext i
  -- the entries of the column are the inner products
  refine (get_of_column hshape hcolumn i).trans ?_
  refine (get_stackProduct ha hright hp i.isLt Nat.one_pos).trans ?_
  exact Finset.sum_congr rfl fun l _ ↦ congrArg _ (get_asRight hb l)

end

end Tensor

end TermEmbedding
