import TermEmbedding.Ontology.Context
import TermEmbedding.Proofs.Exceptions

/-!
# Dimensions of types

The dimensions of a type are computed from those of the types it refers to, which are earlier ones.
In a list of kinds that make sense every type therefore has the dimensions that its kind asks for,
whatever types come after it, and none of them is zero.

Questions about types are answered for the numbers of types only. A function type has answers to all
of them, and so have the types of its arguments and results. The names of primitive terms are those
of the one row of their type.
-/

namespace TermEmbedding

namespace Kind

variable {kinds : List Kind}

/-- What the dimensions of all types say about one of them. -/
def Sized (known : List Dimensions) (i : Nat) : Kind → Prop
  | vector d => 1 ≤ d ∧ known[i]? = some ⟨d, d⟩
  | function argument result compressed =>
    argument < i ∧ result < i ∧
      (∀ c ∈ compressed, 1 ≤ c ∧ c ≤ (function argument result compressed).full known) ∧
      known[i]? = some ⟨(function argument result compressed).full known,
        compressed.getD ((function argument result compressed).full known)⟩

private theorem full_append {known : List Dimensions} {argument result : Nat}
    {compressed : Option Nat}
    (ha : argument < known.length) (hr : result < known.length) (d : Dimensions) :
    (function argument result compressed).full (known ++ [d]) =
      (function argument result compressed).full known := by
  simp only [full, List.getD_eq_getElem?_getD]
  rw [List.getElem?_append_left ha, List.getElem?_append_left hr]

theorem Sized.append {known : List Dimensions} {i : Nat} {kind : Kind} (h : kind.Sized known i)
    (hi : i < known.length) (d : Dimensions) : kind.Sized (known ++ [d]) i := by
  cases kind with
  | vector n =>
    obtain ⟨hpos, hget⟩ := h
    refine ⟨hpos, ?_⟩
    rw [List.getElem?_append_left hi]
    exact hget
  | function argument result compressed =>
    obtain ⟨ha, hr, hc, hget⟩ := h
    refine ⟨ha, hr, ?_, ?_⟩
    · rw [full_append (Nat.lt_trans ha hi) (Nat.lt_trans hr hi)]
      exact hc
    · rw [List.getElem?_append_left hi, full_append (Nat.lt_trans ha hi) (Nat.lt_trans hr hi)]
      exact hget

/-- **Every type has the dimensions of its kind.** -/
theorem WellFormed.sized (h : WellFormed kinds) {i : Nat} {kind : Kind}
    (hi : kinds[i]? = some kind) : kind.Sized (allDimensions kinds) i := by
  induction h generalizing i kind with
  | nil => cases hi
  | @snoc kinds last hkinds hlast ih =>
    rw [allDimensions_snoc]
    have hlen : (allDimensions kinds).length = kinds.length := length_allDimensions kinds
    by_cases hbefore : i < kinds.length
    · rw [List.getElem?_append_left hbefore] at hi
      exact (ih hi).append (by omega) _
    · obtain rfl : i = kinds.length := by
        have := (List.getElem?_eq_some_iff.mp hi).1
        rw [List.length_append, List.length_singleton] at this
        omega
      rw [List.getElem?_append_right (Nat.le_refl _), Nat.sub_self] at hi
      cases hi
      cases last with
      | vector d =>
        refine ⟨hlast, ?_⟩
        rw [← hlen, List.getElem?_append_right (Nat.le_refl _), Nat.sub_self]
        rfl
      | function argument result compressed =>
        obtain ⟨ha, hr, hc⟩ := hlast
        rw [Sized, full_append ha hr]
        refine ⟨by omega, by omega, hc, ?_⟩
        rw [← hlen, List.getElem?_append_right (Nat.le_refl _), Nat.sub_self]
        rfl

theorem WellFormed.pos (h : WellFormed kinds) {i : Nat} {d : Dimensions}
    (hi : (allDimensions kinds)[i]? = some d) :
    1 ≤ d.full ∧ 1 ≤ d.compressed ∧ d.compressed ≤ d.full := by
  -- a compressed vector is bounded by the full one, and that by the dimensions of earlier types
  induction i using Nat.strongRecOn generalizing d with
  | ind i ih =>
    have hlt : i < kinds.length := by
      rw [← length_allDimensions]
      exact (List.getElem?_eq_some_iff.mp hi).1
    have hsized := h.sized (List.getElem?_eq_getElem hlt)
    generalize kinds[i] = kind at hsized
    cases kind with
    | vector n =>
      obtain ⟨hpos, hget⟩ := hsized
      rw [hi] at hget
      cases hget
      exact ⟨hpos, hpos, Nat.le_refl _⟩
    | function argument result compressed =>
      obtain ⟨ha, hr, hc, hget⟩ := hsized
      have hresult : 1 ≤ ((allDimensions kinds).getD result default).compressed := by
        have hlen : result < (allDimensions kinds).length := by
          rw [length_allDimensions]
          omega
        rw [List.getD_eq_getElem?_getD, List.getElem?_eq_getElem hlen, Option.getD_some]
        exact (ih result hr (List.getElem?_eq_getElem hlen)).2.1
      have hfull : 1 ≤ (function argument result compressed).full (allDimensions kinds) :=
        Nat.mul_pos hresult (Nat.succ_pos _)
      rw [hi] at hget
      cases hget
      cases compressed with
      | none => exact ⟨hfull, hfull, Nat.le_refl _⟩
      | some n => exact ⟨hfull, hc n rfl⟩

end Kind

namespace Context

variable {c : Context} {t : TypeId}

/-! ## Entries of tables of types -/

theorem atType_natCast {α : Type} (xs : List α) (i : Nat) :
    atType xs (i : TypeId) = match xs[i]? with
      | some x => .ok x
      | none => .error (.noType i) := by
  rw [atType, if_neg (Int.not_lt.mpr (Int.natCast_nonneg i)), Int.toNat_natCast]
  rfl

theorem atType_eq_ok {α : Type} {xs : List α} {x : α} (h : atType xs t = .ok x) :
    ∃ i : Nat, t = i ∧ xs[i]? = some x := by
  rw [atType] at h
  split at h
  · rename_i hsome
    split at hsome
    · cases hsome
    · rename_i hnonneg
      cases h
      exact ⟨t.toNat, (Int.toNat_of_nonneg (Int.not_lt.mp hnonneg)).symm, hsome⟩
  · cases h

/-! ## Function types -/

/-- A function type with its argument, its result and the dimensions of these. -/
structure Arrow (c : Context) (t argument result : TypeId) (n k : Nat) : Prop where
  signature : c.signature t = .ok (argument, result)
  functionSpace : c.functionSpace t = .ok ⟨k, n + 1⟩
  argumentFull : c.full argument = .ok n
  resultCompressed : c.compressed result = .ok k
  full : c.full t = .ok (k * (n + 1))

theorem Arrow.featureSpace {argument result : TypeId} {n k : Nat}
    (h : c.Arrow t argument result n k) : c.featureSpace argument = .ok ⟨n⟩ := by
  rw [Context.featureSpace, h.argumentFull]
  rfl

theorem exists_of_full {n : Nat} (h : c.full t = .ok n) :
    ∃ (i : Nat) (d : Dimensions), t = i ∧ c.dimensions[i]? = some d ∧ d.full = n := by
  obtain ⟨d, hd, h⟩ := exists_of_bind_eq_ok h
  obtain ⟨i, hi, hget⟩ := atType_eq_ok hd
  exact ⟨i, d, hi, hget, Except.ok.inj h⟩

theorem exists_of_compressed {n : Nat} (h : c.compressed t = .ok n) :
    ∃ (i : Nat) (d : Dimensions), t = i ∧ c.dimensions[i]? = some d ∧ d.compressed = n := by
  obtain ⟨d, hd, h⟩ := exists_of_bind_eq_ok h
  obtain ⟨i, hi, hget⟩ := atType_eq_ok hd
  exact ⟨i, d, hi, hget, Except.ok.inj h⟩

theorem full_pos {n : Nat} (h : c.full t = .ok n) : 1 ≤ n := by
  obtain ⟨i, d, -, hget, rfl⟩ := exists_of_full h
  exact (c.wellFormed.pos hget).1

theorem compressed_pos {n : Nat} (h : c.compressed t = .ok n) : 1 ≤ n := by
  obtain ⟨i, d, -, hget, rfl⟩ := exists_of_compressed h
  exact (c.wellFormed.pos hget).2.1

private theorem kind_natCast {i : Nat} {kind : Kind} (h : c.kinds[i]? = some kind) :
    c.kind (i : TypeId) = .ok kind := by
  rw [Context.kind, atType_natCast, h]

theorem isVector_natCast {i : Nat} {kind : Kind} (h : c.kinds[i]? = some kind) :
    c.isVector (i : TypeId) = .ok !kind.isFunction := by
  rw [isVector, kind_natCast h]
  rfl

theorem exists_dimensions {i : Nat} (h : i < c.kinds.length) :
    ∃ d, c.dimensions[i]? = some d ∧ c.full (i : TypeId) = .ok d.full ∧
      c.compressed (i : TypeId) = .ok d.compressed := by
  have hlen : i < c.dimensions.length := by
    rw [dimensions, Kind.length_allDimensions]
    exact h
  refine ⟨c.dimensions[i], List.getElem?_eq_getElem hlen, ?_, ?_⟩
  · rw [full, atType_natCast, List.getElem?_eq_getElem hlen]
    rfl
  · rw [compressed, atType_natCast, List.getElem?_eq_getElem hlen]
    rfl

private theorem exists_arrow_natCast {i argument result : Nat} {compressed : Option Nat}
    (h : c.kinds[i]? = some (.function argument result compressed)) :
    argument < i ∧ result < i ∧ ∃ n k, c.Arrow i argument result n k := by
  have hi : i < c.kinds.length := (List.getElem?_eq_some_iff.mp h).1
  obtain ⟨ha, hr, -, hget⟩ := c.wellFormed.sized h
  obtain ⟨d, hd, hfull, -⟩ := exists_dimensions hi
  obtain ⟨da, hda, hfulla, -⟩ := exists_dimensions (c := c) (Nat.lt_trans ha hi)
  obtain ⟨dr, hdr, -, hcompr⟩ := exists_dimensions (c := c) (Nat.lt_trans hr hi)
  have hsig : c.signature (i : TypeId) = .ok ((argument : TypeId), (result : TypeId)) := by
    rw [signature, kind_natCast h]
    rfl
  have hspace : c.functionSpace (i : TypeId) = .ok ⟨dr.compressed, da.full + 1⟩ := by
    rw [functionSpace, hsig]
    simp only [bind, Except.bind, hcompr, hfulla]
    rfl
  refine ⟨ha, hr, da.full, dr.compressed, hsig, hspace, hfulla, hcompr, ?_⟩
  rw [hfull]
  change c.dimensions[i]? = _ at hget
  rw [hd] at hget
  cases hget
  simp only [Kind.full]
  rw [List.getD_eq_getElem?_getD, List.getD_eq_getElem?_getD,
    show (Kind.allDimensions c.kinds)[result]? = some dr from hdr,
    show (Kind.allDimensions c.kinds)[argument]? = some da from hda]
  rfl

/-- What a type is: one of vectors, with one dimension, or one of functions. -/
theorem vector_or_arrow {i : Nat} (h : i < c.kinds.length) :
    (c.isVector (i : TypeId) = .ok true ∧
      ∃ n, c.full (i : TypeId) = .ok n ∧ c.compressed (i : TypeId) = .ok n) ∨
    (c.isVector (i : TypeId) = .ok false ∧
      ∃ a r : Nat, ∃ n k, a < i ∧ r < i ∧ c.Arrow i a r n k) := by
  obtain ⟨kind, hkind⟩ : ∃ kind, c.kinds[i]? = some kind := ⟨_, List.getElem?_eq_getElem h⟩
  cases kind with
  | vector n =>
    left
    obtain ⟨d, hd, hfull, hcompressed⟩ := exists_dimensions h
    rw [show c.dimensions[i]? = some ⟨n, n⟩ from (c.wellFormed.sized hkind).2] at hd
    cases hd
    exact ⟨isVector_natCast hkind, n, hfull, hcompressed⟩
  | function argument result compressed =>
    right
    obtain ⟨ha, hr, n, k, harrow⟩ := exists_arrow_natCast hkind
    exact ⟨isVector_natCast hkind, argument, result, n, k, ha, hr, harrow⟩

theorem exists_of_kind {kind : Kind} (h : c.kind t = .ok kind) :
    ∃ i : Nat, t = i ∧ i < c.kinds.length := by
  obtain ⟨i, hi, hget⟩ := atType_eq_ok h
  exact ⟨i, hi, (List.getElem?_eq_some_iff.mp hget).1⟩

theorem exists_of_isVector {b : Bool} (h : c.isVector t = .ok b) :
    ∃ i : Nat, t = i ∧ i < c.kinds.length := by
  obtain ⟨kind, hkind, -⟩ := exists_of_bind_eq_ok h
  exact exists_of_kind hkind

theorem exists_of_signature {s : TypeId × TypeId} (h : c.signature t = .ok s) :
    ∃ i : Nat, t = i ∧ i < c.kinds.length := by
  obtain ⟨kind, hkind, -⟩ := exists_of_bind_eq_ok h
  exact exists_of_kind hkind

theorem nonneg_of_signature {s : TypeId × TypeId} (h : c.signature t = .ok s) : 0 ≤ t := by
  obtain ⟨i, rfl, -⟩ := exists_of_signature h
  exact Int.natCast_nonneg i

theorem signature_ne_vector (h : c.isVector t = .ok true) (s : TypeId × TypeId) :
    c.signature t ≠ .ok s := by
  intro hs
  obtain ⟨kind, hkind, h⟩ := exists_of_bind_eq_ok h
  obtain ⟨kind', hkind', hs⟩ := exists_of_bind_eq_ok hs
  cases hkind.symm.trans hkind'
  cases kind with
  | vector n => cases hs
  | function a r compressed => cases h

theorem exists_arrow {s : TypeId × TypeId} (h : c.signature t = .ok s) :
    ∃ n k, c.Arrow t s.1 s.2 n k := by
  obtain ⟨i, rfl, hi⟩ := exists_of_signature h
  rcases vector_or_arrow hi with ⟨hvec, -⟩ | ⟨-, a, r, n, k, -, -, harrow⟩
  · exact absurd h (signature_ne_vector hvec s)
  · rw [harrow.signature] at h
    cases h
    exact ⟨n, k, harrow⟩

theorem exists_arrow_of_functionSpace {s : FunctionSpace} (h : c.functionSpace t = .ok s) :
    ∃ a r n, c.Arrow t a r n s.output ∧ s.features = n + 1 := by
  obtain ⟨sig, hs, -⟩ := exists_of_bind_eq_ok h
  obtain ⟨n, k, harrow⟩ := exists_arrow hs
  cases harrow.functionSpace.symm.trans h
  exact ⟨_, _, n, harrow, rfl⟩

/-- The result of a function is a vector of the dimension in which it is returned, or a function. -/
theorem Arrow.result {argument result : TypeId} {n k : Nat} (h : c.Arrow t argument result n k) :
    (c.isVector result = .ok true ∧ c.full result = .ok k) ∨
      (c.isVector result = .ok false ∧ ∃ a r m j, c.Arrow result a r m j) := by
  obtain ⟨i, d, rfl, hget, -⟩ := exists_of_compressed h.resultCompressed
  have hi : i < c.kinds.length := by
    rw [← Kind.length_allDimensions]
    exact (List.getElem?_eq_some_iff.mp hget).1
  rcases vector_or_arrow hi with ⟨hvec, m, hfull, hcomp⟩ | ⟨hfun, a, r, m, j, -, -, harrow⟩
  · left
    rw [h.resultCompressed] at hcomp
    cases hcomp
    exact ⟨hvec, hfull⟩
  · exact .inr ⟨hfun, a, r, m, j, harrow⟩

/-! ## Names of primitive terms -/

theorem primitiveNames_of_mem {row : Nat × List TermName} (h : row ∈ c.primitives) :
    c.primitiveNames row.1 = row.2 := by
  have hasc := c.ascending
  rw [primitiveNames]
  generalize c.primitives = rows at h hasc
  induction rows with
  | nil => cases h
  | cons first rest ih =>
    rw [List.map_cons, List.pairwise_cons] at hasc
    rcases List.mem_cons.mp h with rfl | h
    · rw [List.find?_cons_of_pos (by simp)]
    · have hlt := hasc.1 row.1 (List.mem_map.mpr ⟨row, h, rfl⟩)
      have hne : ¬((first.1 : TypeId) = row.1) := by
        intro heq
        have : first.1 = row.1 := Int.ofNat_inj.mp heq
        omega
      rw [List.find?_cons_of_neg (by simpa using hne)]
      exact ih h hasc.2

end Context

end TermEmbedding
