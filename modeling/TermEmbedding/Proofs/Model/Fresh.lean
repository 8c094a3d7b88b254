import Mathlib.Data.List.Nodup
import TermEmbedding.Proofs.Exceptions
import TermEmbedding.Proofs.Model.Consistent

/-!
# New models are consistent

A new model has a belief about each primitive term of its context and a matrix for each type of
functions. Both tables are built type by type, so their keys ascend, and what stands in them has the
shape that was asked of the source of noise.
-/

namespace TermEmbedding

namespace Model

variable {K : Type}

/-! ## Matrices that expand vectors -/

/-- A matrix for each type of functions in a list of types that are numbered from one number on, in
ascending order. -/
structure Numbered (types : List (Kind × Dimensions)) (n : Nat)
    (table : Table TypeId (Tensor K)) : Prop where
  rows : ∀ row ∈ table, ∃ i kind d, types[i]? = some (kind, d) ∧ kind.isFunction = true ∧
    row.1 = ((n + i : Nat) : TypeId) ∧ row.2.shape = [d.full, d.compressed]
  keys : ∀ i kind d, types[i]? = some (kind, d) → kind.isFunction = true →
    ((n + i : Nat) : TypeId) ∈ table.map (·.1)
  ascending : (table.map (·.1)).Pairwise (· < ·)

section

variable {types : List (Kind × Dimensions)} {n : Nat} {table : Table TypeId (Tensor K)}
  {d : Dimensions}

private theorem Numbered.rows_succ (h : Numbered types (n + 1) table) (first : Kind × Dimensions)
    {row : TypeId × Tensor K} (hrow : row ∈ table) :
    ∃ i kind d, (first :: types)[i]? = some (kind, d) ∧ kind.isFunction = true ∧
      row.1 = ((n + i : Nat) : TypeId) ∧ row.2.shape = [d.full, d.compressed] := by
  obtain ⟨i, kind, d, hi, hkind, hfst, hshape⟩ := h.rows row hrow
  refine ⟨i + 1, kind, d, hi, hkind, ?_, hshape⟩
  rw [hfst, Nat.add_right_comm, Nat.add_assoc]

private theorem Numbered.keys_succ (h : Numbered types (n + 1) table) {i : Nat} {kind : Kind}
    (hi : types[i]? = some (kind, d)) (hkind : kind.isFunction = true) :
    ((n + (i + 1) : Nat) : TypeId) ∈ table.map (·.1) := by
  have hkey := h.keys i kind d hi hkind
  rw [Nat.add_right_comm, Nat.add_assoc] at hkey
  exact hkey

theorem Numbered.vector (h : Numbered types (n + 1) table) (k : Nat) :
    Numbered ((.vector k, d) :: types) n table := by
  refine ⟨fun row hrow ↦ h.rows_succ _ hrow, ?_, h.ascending⟩
  intro i kind d' hi hkind
  cases i with
  | zero =>
    cases hi
    cases hkind
  | succ i => exact h.keys_succ hi hkind

/-- The row of a type of functions stands before all rows of later types. -/
theorem Numbered.function (h : Numbered types (n + 1) table) {a r : Nat} {compressed : Option Nat}
    {matrix : Tensor K} (hmatrix : matrix.shape = [d.full, d.compressed]) :
    Numbered ((.function a r compressed, d) :: types) n (((n : TypeId), matrix) :: table) := by
  refine ⟨?_, ?_, ?_⟩
  · intro row hrow
    rcases List.mem_cons.mp hrow with rfl | hrow
    · exact ⟨0, _, d, rfl, rfl, rfl, hmatrix⟩
    · exact h.rows_succ _ hrow
  · intro i kind d' hi hkind
    cases i with
    | zero => exact List.mem_cons_self
    | succ i => exact List.mem_cons_of_mem _ (h.keys_succ hi hkind)
  · rw [List.map_cons, List.pairwise_cons]
    refine ⟨?_, h.ascending⟩
    intro key hkey
    obtain ⟨row, hrow, rfl⟩ := List.mem_map.mp hkey
    obtain ⟨i, -, -, -, -, hfst, -⟩ := h.rows row hrow
    rw [hfst]
    exact Int.ofNat_lt.mpr (by omega)

private theorem Numbered.isElaborator {c : Context}
    (h : Numbered (c.kinds.zip c.dimensions) 0 table) :
    ∀ row ∈ table, IsElaborator c row.1 row.2 := by
  intro row hrow
  obtain ⟨i, kind, d, hget, hfun, hfst, hshape⟩ := h.rows row hrow
  obtain ⟨hkind, hd⟩ := List.getElem?_zip_eq_some.mp hget
  obtain ⟨d', hd', hfull, hcompressed⟩ :=
    Context.exists_dimensions (List.getElem?_eq_some_iff.mp hkind).1
  obtain rfl : d' = d := Option.some.inj (hd'.symm.trans hd)
  rw [Nat.zero_add] at hfst
  rw [hfst]
  refine ⟨?_, d'.full, d'.compressed, hfull, hcompressed, hshape⟩
  rw [Context.isVector_natCast hkind, hfun]
  rfl

private theorem Numbered.isSome_get? {c : Context} (h : Numbered (c.kinds.zip c.dimensions) 0 table)
    {t : TypeId} (ht : c.isVector t = .ok false) : (table.get? t).isSome = true := by
  obtain ⟨i, rfl, hi⟩ := Context.exists_of_isVector ht
  obtain ⟨d, hd, -⟩ := Context.exists_dimensions hi
  have hkind : c.kinds[i]? = some c.kinds[i] := List.getElem?_eq_getElem hi
  have hfun : c.kinds[i].isFunction = true := by
    rw [Context.isVector_natCast hkind] at ht
    simpa using Except.ok.inj ht
  have hkey := h.keys i _ d (List.getElem?_zip_eq_some.mpr ⟨hkind, hd⟩) hfun
  rw [Nat.zero_add] at hkey
  exact Table.isSome_get?_iff.mpr hkey

variable [Zero K] [One K] [Numbers K]

private theorem shape_of_freshElaborator [Routines.Shaped K] {source : NoiseSource K}
    {d : Dimensions}
    {state : Int} {matrix : Tensor K} (h : (freshElaborator source d state).1 = .ok matrix) :
    matrix.shape = [d.full, d.compressed] := by
  rw [freshElaborator] at h
  split at h
  · rename_i heq
    cases h
    rw [Tensor.shape_identity, heq]
  · exact Routines.Shaped.orthonormal (NoiseSource.shape_drawArray _ _ _) h

/-- A type of functions is given its matrix before the types behind it are given theirs. -/
private theorem exists_of_freshElaborators_function {source : NoiseSource K} {a r : Nat}
    {compressed : Option Nat} {state : Int}
    (h : (freshElaborators source n ((.function a r compressed, d) :: types) state).1 =
      .ok table) :
    ∃ matrix others next, (freshElaborator source d state).1 = .ok matrix ∧
      (freshElaborators source (n + 1) types next).1 = .ok others ∧
      table = ((n : TypeId), matrix) :: others := by
  rw [freshElaborators] at h
  generalize freshElaborator source d state = first at h ⊢
  rcases first with ⟨e | matrix, next⟩
  · cases h
  · dsimp only at h
    cases hothers : (freshElaborators source (n + 1) types next).1 with
    | error e =>
      rw [hothers] at h
      cases h
    | ok others =>
      rw [hothers] at h
      cases h
      exact ⟨matrix, others, next, rfl, hothers, rfl⟩

private theorem numbered_freshElaborators [Routines.Shaped K] {source : NoiseSource K} {state : Int}
    (h : (freshElaborators source n types state).1 = .ok table) : Numbered types n table := by
  induction types generalizing n state table with
  | nil =>
    cases h
    exact ⟨by simp, by simp, .nil⟩
  | cons first rest ih =>
    obtain ⟨kind, d⟩ := first
    cases kind with
    | vector k => exact (ih h).vector k
    | function a r compressed =>
      obtain ⟨matrix, others, next, hmatrix, hothers, rfl⟩ :=
        exists_of_freshElaborators_function h
      exact (ih hothers).function (shape_of_freshElaborator hmatrix)

end

/-! ## Beliefs about primitive terms -/

variable [Zero K] [One K] [Numbers K] [Add K] [Mul K]

private theorem freshTerms_keys (source : NoiseSource K) (t : TypeId)
    (space : Context.FunctionSpace) (i count : Nat) (state : Int) :
    (freshTerms source t space i count state).1.map (·.1) =
      (List.range count).map fun j ↦ ⟨t, .primitive (i + j)⟩ := by
  induction count generalizing i state with
  | zero => rfl
  | succ count ih =>
    rw [freshTerms, List.range_succ_eq_map, List.map_cons, List.map_cons, List.map_map, ih]
    congr 1
    refine List.map_congr_left fun j _ ↦ ?_
    simp only [Function.comp]
    congr 2
    omega

private theorem freshTerms_priors (source : NoiseSource K) (t : TypeId)
    (space : Context.FunctionSpace) (i count : Nat) (state : Int) :
    ∀ row ∈ (freshTerms source t space i count state).1, row.1.typeId = t ∧
      ∃ mean haxes, row.2 = .prior mean haxes ∧ mean.shape = [space.output, space.features] := by
  induction count generalizing i state with
  | zero =>
    intro row hrow
    cases hrow
  | succ count ih =>
    intro row hrow
    rw [freshTerms] at hrow
    rcases List.mem_cons.mp hrow with rfl | hrow
    · exact ⟨rfl, _, _, rfl, rfl⟩
    · exact ih _ _ row hrow

private theorem exists_of_freshEmbeddings_cons {source : NoiseSource K} {c : Context} {t : Nat}
    {names : List TermName} {rest : List (Nat × List TermName)} {state : Int}
    {result : Table TermPointer (Embedding K) × Int}
    (h : freshEmbeddings source c ((t, names) :: rest) state = .ok result) :
    ∃ space others, c.functionSpace t = .ok space ∧
      freshEmbeddings source c rest (freshTerms source t space 0 names.length state).2 =
        .ok others ∧
      result = ((freshTerms source t space 0 names.length state).1 ++ others.1, others.2) := by
  rw [freshEmbeddings] at h
  obtain ⟨space, hspace, h⟩ := exists_of_bind_eq_ok h
  obtain ⟨others, hothers, h⟩ := exists_of_bind_eq_ok h
  cases h
  exact ⟨space, others, mapError_eq_ok.mp hspace, hothers, rfl⟩

theorem freshEmbeddings_rows {source : NoiseSource K} {c : Context}
    {rows : List (Nat × List TermName)} {state : Int}
    {result : Table TermPointer (Embedding K) × Int}
    (h : freshEmbeddings source c rows state = .ok result) :
    (result.1.map (·.1) = rows.flatMap fun row ↦
        (List.range row.2.length).map fun j ↦ ⟨(row.1 : TypeId), .primitive j⟩) ∧
      ∀ row ∈ result.1, ∃ space mean haxes, c.functionSpace row.1.typeId = .ok space ∧
        row.2 = .prior mean haxes ∧ mean.shape = [space.output, space.features] := by
  induction rows generalizing state result with
  | nil =>
    cases h
    exact ⟨rfl, by simp⟩
  | cons first rest ih =>
    obtain ⟨t, names⟩ := first
    obtain ⟨space, others, hspace, hothers, rfl⟩ := exists_of_freshEmbeddings_cons h
    obtain ⟨hkeys, hpriors⟩ := ih hothers
    refine ⟨?_, ?_⟩
    · rw [List.map_append, hkeys, freshTerms_keys, List.flatMap_cons]
      simp only [Nat.zero_add]
    · intro row hrow
      rcases List.mem_append.mp hrow with hrow | hrow
      · obtain ⟨htype, mean, haxes, hprior⟩ :=
          freshTerms_priors source t space 0 names.length state row hrow
        exact ⟨space, mean, haxes, htype ▸ hspace, hprior⟩
      · exact hpriors row hrow

/-- The primitive terms of a context are counted from zero within each type. -/
private theorem mem_primitive_keys {c : Context} {p : TermPointer} :
    p ∈ (c.primitives.flatMap fun row ↦
        (List.range row.2.length).map fun j ↦ (⟨(row.1 : TypeId), .primitive j⟩ : TermPointer)) ↔
      ∃ i, p.index = .primitive i ∧ i < (c.primitiveNames p.typeId).length := by
  rw [List.mem_flatMap]
  constructor
  · rintro ⟨row, hrow, hp⟩
    obtain ⟨j, hj, rfl⟩ := List.mem_map.mp hp
    refine ⟨j, rfl, ?_⟩
    rw [Context.primitiveNames_of_mem hrow]
    exact List.mem_range.mp hj
  · rintro ⟨i, hindex, hi⟩
    have hfind : ∃ row ∈ c.primitives, (row.1 : TypeId) = p.typeId ∧
        c.primitiveNames p.typeId = row.2 := by
      rw [Context.primitiveNames] at hi ⊢
      cases hf : c.primitives.find? fun row ↦ (row.1 : TypeId) = p.typeId with
      | none =>
        rw [hf] at hi
        exact absurd hi (Nat.not_lt_zero _)
      | some row =>
        exact ⟨row, List.mem_of_find?_eq_some hf, by simpa using List.find?_some hf, rfl⟩
    obtain ⟨row, hrow, htype, hnames⟩ := hfind
    refine ⟨row, hrow, List.mem_map.mpr ⟨i, ?_, ?_⟩⟩
    · rw [List.mem_range, ← hnames]
      exact hi
    · rw [htype, ← hindex]

private theorem nodup_primitive_keys (c : Context) :
    (c.primitives.flatMap fun row ↦
      (List.range row.2.length).map fun j ↦
        (⟨(row.1 : TypeId), .primitive j⟩ : TermPointer)).Nodup := by
  rw [List.nodup_flatMap]
  refine ⟨?_, ?_⟩
  · intro row _
    refine List.nodup_range.map ?_
    intro i j hij
    cases hij
    rfl
  · have hasc := c.ascending
    rw [List.pairwise_map] at hasc
    refine hasc.imp ?_
    intro x y hlt p hx hy
    obtain ⟨i, -, rfl⟩ := List.mem_map.mp hx
    obtain ⟨j, -, hj⟩ := List.mem_map.mp hy
    have htype : (y.1 : TypeId) = x.1 := congrArg TermPointer.typeId hj
    have : y.1 = x.1 := Int.ofNat_inj.mp htype
    omega

/-! ## The whole model -/

section

variable {source : NoiseSource K} {c : Context} {seed : Seed} {m : Model K}

/-- A new model holds matrices for types and beliefs about primitive terms, and nothing else. -/
theorem exists_of_fresh (h : fresh source c seed = .ok m) :
    ∃ state elaborators embeddings,
      (freshElaborators source 0 (c.kinds.zip c.dimensions) state).1 = .ok elaborators ∧
      freshEmbeddings source c c.primitives
        (freshElaborators source 0 (c.kinds.zip c.dimensions) state).2 = .ok embeddings ∧
      m = ⟨[], [], embeddings.1, elaborators, [], embeddings.2⟩ := by
  rw [fresh] at h
  split at h
  · cases h
  · rename_i state _
    rw [freshFrom] at h
    obtain ⟨elaborators, helaborators, h⟩ := exists_of_bind_eq_ok h
    obtain ⟨embeddings, hembeddings, h⟩ := exists_of_bind_eq_ok h
    cases h
    exact ⟨state, elaborators, embeddings, mapError_eq_ok.mp helaborators, hembeddings, rfl⟩

/-- **A new model is consistent.** -/
theorem consistent_of_fresh [Routines.Shaped K] (h : fresh source c seed = .ok m) :
    Consistent c m := by
  obtain ⟨state, elaborators, embeddings, helaborators, hembeddings, rfl⟩ := exists_of_fresh h
  have hnumbered := numbered_freshElaborators helaborators
  obtain ⟨hkeys, hpriors⟩ := freshEmbeddings_rows hembeddings
  refine
    { terms := ?terms
      termsOnce := ?termsOnce
      beliefs := ?beliefs
      elaborators := fun t ↦ hnumbered.isSome_get?
      elaboratorsOnly := hnumbered.isElaborator
      elaboratorsOnce := hnumbered.ascending.imp fun hlt ↦ Int.ne_of_lt hlt
      -- nothing was evaluated yet, so the clauses about results are empty
      results := by simp
      resultsOnce := .nil
      origins := by simp [originsOf, Table.get?]
      originsOnce := .nil
      pending := List.nil_suffix }
  case terms =>
    intro p
    rw [Knows, Table.isSome_get?_iff, hkeys, mem_primitive_keys, Counts]
    cases p.index with
    | primitive i => simp
    | nonprimitive j => simp [originsOf, Table.get?]
  case termsOnce =>
    rw [hkeys]
    exact nodup_primitive_keys c
  case beliefs =>
    intro row hrow
    obtain ⟨space, mean, haxes, hspace, hprior, hmean⟩ := hpriors row hrow
    exact ⟨space, hspace, hprior ▸ Embedding.fits_prior haxes hmean⟩

theorem exists_prior_of_fresh (h : fresh source c seed = .ok m) :
    ∀ row ∈ m.embeddings, ∃ mean haxes, row.2 = .prior mean haxes := by
  obtain ⟨_, _, embeddings, -, hembeddings, rfl⟩ := exists_of_fresh h
  intro row hrow
  obtain ⟨space, mean, haxes, -, hprior, -⟩ := (freshEmbeddings_rows hembeddings).2 row hrow
  exact ⟨mean, haxes, hprior⟩

theorem tables_of_fresh (h : fresh source c seed = .ok m) :
    m.results = [] ∧ m.origins = [] ∧ m.pending = [] := by
  obtain ⟨-, -, -, -, -, rfl⟩ := exists_of_fresh h
  exact ⟨rfl, rfl, rfl⟩

theorem results_of_fresh (h : fresh source c seed = .ok m) : m.results = [] :=
  (tables_of_fresh h).1

theorem origins_of_fresh (h : fresh source c seed = .ok m) : m.origins = [] :=
  (tables_of_fresh h).2.1

end

end Model

end TermEmbedding
