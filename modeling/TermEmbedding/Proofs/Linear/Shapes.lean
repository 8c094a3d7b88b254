import TermEmbedding.Embedding
import TermEmbedding.Linear.Floating

/-!
# Shapes

Operations on arrays are defined for all shapes and fail on most pairs of them. A model only ever
multiplies a matrix with a vector or with another matrix, and adds arrays of one shape. For these
the operations have results, and the shapes of the results are the usual ones.

The routines of linear algebra may fail, but the shape of what they give is known all the same.
-/

namespace TermEmbedding

namespace Tensor

variable {K : Type}

/-! ## New shapes -/

theorem reshape?_of_volume {t : Tensor K} {shape : List Nat} (h : volume t.shape = volume shape) :
    t.reshape? shape = some ⟨shape, t.entries, t.size_eq.trans h⟩ := by
  rw [reshape?, dif_pos h]

theorem toVector?_of_shape {t : Tensor K} {n : Nat} (h : t.shape = [n]) :
    t.toVector? = some t.toList := by
  rw [toVector?, h]

theorem ofList_toList {t : Tensor K} {n : Nat} (h : t.shape = [n]) : ofList t.toList = t := by
  obtain ⟨shape, entries, hsize⟩ := t
  obtain rfl : shape = [n] := h
  have hn : n = entries.size := by simpa using hsize.symm
  subst hn
  rfl

theorem flatten_of_reshape? {t r : Tensor K} {shape : List Nat} {n : Nat}
    (h : t.reshape? shape = some r) (ht : t.shape = [n]) : r.flatten = t := by
  have hlist : r.toList = t.toList := by
    rw [reshape?] at h
    split at h
    · cases h
      rfl
    · cases h
  rw [flatten, hlist, ofList_toList ht]

theorem reshape?_flatten {t : Tensor K} {shape : List Nat} (h : t.shape = shape) :
    t.flatten.reshape? shape = some t := by
  subst h
  rw [reshape?_of_volume (by rw [shape_flatten]; simp)]
  rfl

/-! ## Stretching -/

private theorem go_self (s : List Nat) : commonShape?.go s s = some s := by
  induction s with
  | nil => rfl
  | cons n s ih =>
    rw [commonShape?.go, ih, commonAxis?, if_pos (.inl rfl)]
    rfl

theorem commonShape?_self (s : List Nat) : commonShape? s s = some s := by
  rw [commonShape?, go_self, Option.map_some, List.reverse_reverse]

theorem asStack?_matrix (m n : Nat) : asStack? [m, n] = some ([], m, n) := rfl

private theorem eq_of_asStack? {shape front : List Nat} {m n : Nat}
    (h : asStack? shape = some (front, m, n)) : shape = front ++ [m, n] := by
  rw [asStack?] at h
  split at h
  · rename_i columns rows rest hshape
    cases h
    rw [← List.reverse_reverse shape, hshape]
    simp
  · cases h

/-! ## Sums and products -/

theorem add_of_shape [Zero K] [Add K] {a b : Tensor K} (h : a.shape = b.shape) :
    ∃ r, a.add b = .ok r ∧ r.shape = a.shape := by
  rw [add, ← h, commonShape?_self]
  exact ⟨_, rfl, rfl⟩

theorem stack_of_shape [Zero K] {ts : List (Tensor K)} {shape : List Nat} (hne : ts ≠ [])
    (h : ∀ t ∈ ts, t.shape = shape) : ∃ r, stack ts = .ok r ∧ r.shape = ts.length :: shape := by
  cases ts with
  | nil => exact absurd rfl hne
  | cons first rest =>
    have hfirst : first.shape = shape := h first List.mem_cons_self
    have hall : (rest.all fun t ↦ t.shape = first.shape) = true := by
      rw [List.all_eq_true]
      intro t ht
      rw [hfirst, h t (List.mem_cons_of_mem _ ht)]
      exact decide_eq_true rfl
    rw [stack, if_pos hall]
    exact ⟨_, rfl, by rw [shape_tabulate, hfirst, List.length_cons]⟩

theorem asLeft_matrix {a : Tensor K} {m n : Nat} (h : a.shape = [m, n]) : a.asLeft = a := by
  rw [asLeft]
  split
  · rename_i hvector
    rw [h] at hvector
    cases hvector
  · rfl

theorem asRight_matrix {a : Tensor K} {m n : Nat} (h : a.shape = [m, n]) : a.asRight = a := by
  rw [asRight]
  split
  · rename_i hvector
    rw [h] at hvector
    cases hvector
  · rfl

theorem shape_asRight_vector {a : Tensor K} {n : Nat} (h : a.shape = [n]) :
    a.asRight.shape = [n, 1] := by
  rw [asRight]
  split
  · rename_i k hvector
    rw [h] at hvector
    cases hvector
    rfl
  · rename_i hother
    exact absurd h (hother n)

section

variable [Zero K] [Add K] [Mul K]

theorem stackProduct_matrices {a b : Tensor K} {m k n : Nat} (ha : a.shape = [m, k])
    (hb : b.shape = [k, n]) : ∃ r, stackProduct a b = .ok r ∧ r.shape = [m, n] := by
  rw [stackProduct, ha, hb]
  exact ⟨_, if_pos rfl, rfl⟩

/-- The product of two arrays is that of the matrices they count as, without the axes that were
added to vectors. -/
theorem matmul_of_stackProduct {a b r t : Tensor K} {m n : Nat}
    (hr : stackProduct a.asLeft b.asRight = .ok r) (hshape : r.shape = [m, n])
    (ht : r.reshape? ((if a.shape.length = 1 then [] else [m]) ++
      if b.shape.length = 1 then [] else [n]) = some t) : a.matmul b = .ok t := by
  simp only [matmul, hr, bind, Except.bind, hshape, asStack?_matrix, List.nil_append, ht]
  rfl

theorem matmul_vector {a b : Tensor K} {m k : Nat} (ha : a.shape = [m, k]) (hb : b.shape = [k]) :
    ∃ r, a.matmul b = .ok r ∧ r.shape = [m] := by
  obtain ⟨r, hr, hshape⟩ := stackProduct_matrices ha (shape_asRight_vector hb)
  have hvolume : volume r.shape = volume [m] := by simp [hshape]
  refine ⟨⟨[m], r.entries, r.size_eq.trans hvolume⟩, ?_, rfl⟩
  refine matmul_of_stackProduct (by rw [asLeft_matrix ha, hr]) hshape ?_
  -- the axis that was added to the vector is dropped from the product
  rw [ha, hb]
  exact reshape?_of_volume hvolume

theorem matmul_matrix {a b : Tensor K} {m k n : Nat} (ha : a.shape = [m, k])
    (hb : b.shape = [k, n]) : ∃ r, a.matmul b = .ok r ∧ r.shape = [m, n] := by
  obtain ⟨r, hr, hshape⟩ := stackProduct_matrices ha hb
  have hvolume : volume r.shape = volume [m, n] := by rw [hshape]
  refine ⟨⟨[m, n], r.entries, r.size_eq.trans hvolume⟩, ?_, rfl⟩
  refine matmul_of_stackProduct (by rw [asLeft_matrix ha, asRight_matrix hb, hr]) hshape ?_
  rw [ha, hb]
  exact reshape?_of_volume hvolume

end

end Tensor

/-! ## Routines -/

/-- Numbers whose routines give matrices of the shapes that belong to the operations. -/
class Routines.Shaped (K : Type) [Routines K] : Prop where
  inverse {a r : Tensor K} : Routines.inverse a = .ok r → r.shape = a.shape
  lowerRoot {a r : Tensor K} : Routines.lowerRoot a = .ok r → r.shape = a.shape
  solve {a b r : Tensor K} {n k : Nat} : a.shape = [n, n] → b.shape = [n, k] →
    Routines.solve a b = .ok r → r.shape = [n, k]
  pseudoInverse {a r : Tensor K} {m n : Nat} : a.shape = [m, n] →
    Routines.pseudoInverse a = .ok r → r.shape = [n, m]
  orthonormal {a r : Tensor K} {m n : Nat} : a.shape = [m, n] →
    Routines.orthonormal a = .ok r → r.shape = [m, n]

namespace Tensor

private theorem shape_of_ofMatrices {front : List Nat} {m n : Nat}
    {matrices : List (List (List Float))}
    {r : Tensor Float} (h : ofMatrices front m n matrices = .ok r) : r.shape = front ++ [m, n] := by
  rw [ofMatrices] at h
  split at h
  · rename_i t ht
    cases h
    exact shape_of_reshape? ht
  · cases h

private theorem shape_of_onSquares {a r : Tensor Float} {error : LinearError}
    {routine : List (List Float) → Option (List (List Float))}
    (h : a.onSquares error routine = .ok r) : r.shape = a.shape := by
  rw [onSquares] at h
  split at h
  · cases h
  · rename_i front m n hstack
    split at h
    · rename_i hsquare
      split at h
      · cases h
      · rw [shape_of_ofMatrices h, eq_of_asStack? hstack, hsquare]
    · cases h

private theorem shape_of_solveStacks {a b r : Tensor Float} {n k : Nat} (ha : a.shape = [n, n])
    (hb : b.shape = [n, k]) (h : solveStacks a b = .ok r) : r.shape = [n, k] := by
  rw [solveStacks, ha, hb, asStack?_matrix, asStack?_matrix] at h
  simp only [commonShape?_self, if_true] at h
  split at h
  · cases h
  · exact shape_of_ofMatrices h

end Tensor

instance : Routines.Shaped Float where
  inverse := Tensor.shape_of_onSquares
  lowerRoot := Tensor.shape_of_onSquares
  solve := by
    intro a b r n k ha hb h
    change Tensor.solveSquare a b = .ok r at h
    rw [Tensor.solveSquare, ha, Tensor.asStack?_matrix, Tensor.asRight_matrix hb] at h
    simp only [if_true] at h
    cases hx : Tensor.solveStacks a b with
    | error e =>
      rw [hx] at h
      cases h
    | ok x =>
      rw [hx, hb] at h
      cases h
      exact Tensor.shape_of_solveStacks ha hb hx
  pseudoInverse := by
    intro a r m n ha h
    change Tensor.pseudoInverseOf a = .ok r at h
    rw [Tensor.pseudoInverseOf, ha, Tensor.asStack?_matrix] at h
    simp only at h
    split at h
    · exact Tensor.shape_of_ofMatrices h
    · cases h
  orthonormal := by
    intro a r m n ha h
    change Tensor.orthonormalOf a = .ok r at h
    rw [Tensor.orthonormalOf, ha, Tensor.asStack?_matrix] at h
    exact Tensor.shape_of_ofMatrices h

end TermEmbedding
