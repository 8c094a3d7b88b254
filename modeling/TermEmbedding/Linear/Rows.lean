/-!
# Matrices by their rows

The routines of linear algebra take a matrix apart row by row or column by column. They are given it
as a list of rows or as a list of columns, and one form is made from the other here. The number of
columns is given as well, since no row tells it if there are none.
-/

namespace TermEmbedding

variable {K : Type}

/-- The columns of a matrix that is given by its rows, of which each has `n` entries. -/
def columnsOf (n : Nat) (rows : List (List K)) : List (List K) :=
  rows.foldr (List.zipWith fun x column ↦ x :: column) (List.replicate n [])

theorem length_columnsOf {n : Nat} {rows : List (List K)} (h : ∀ row ∈ rows, row.length = n) :
    (columnsOf n rows).length = n := by
  induction rows with
  | nil => simp [columnsOf]
  | cons row rest ih =>
    have hrow := h row List.mem_cons_self
    have hrest := ih fun other hother ↦ h other (List.mem_cons_of_mem _ hother)
    simp only [columnsOf, List.foldr_cons, List.length_zipWith] at hrest ⊢
    omega

end TermEmbedding
