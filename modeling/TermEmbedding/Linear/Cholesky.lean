/-!
# Square roots of matrices

A positive definite matrix is the product of a lower triangular matrix with positive diagonal and
its transpose. Of the matrix only the lower triangle is read. It is given by columns, each from the
diagonal down, and the first column of the root is the first column divided by the square root of
its head; what remains is the root of the other columns after its products are subtracted.
-/

namespace TermEmbedding

namespace Cholesky

/-- The columns of the lower root, each from the diagonal down, of a matrix with `n` columns. A head
that is not positive shows that there is none. -/
def columns? : Nat → List (List Float) → Option (List (List Float))
  | 0, _ => some []
  | _ + 1, [] => some []
  | n + 1, column :: columns =>
    let head := column.headD 0
    if head ≤ 0 then none
    else
      let root := head.sqrt
      let below := column.tail.map (· / root)
      let rest := columns.zipIdx.map fun (other, i) ↦
        (other.zip (below.drop i)).map fun (x, b) ↦ x - b * below.getD i 0
      (columns? n rest).map ((root :: below) :: ·)

end Cholesky

end TermEmbedding
