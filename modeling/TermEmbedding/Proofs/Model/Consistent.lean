import TermEmbedding.Model.Fresh
import TermEmbedding.Proofs.Linear.Shapes
import TermEmbedding.Proofs.Model.Runs
import TermEmbedding.Proofs.Ontology.Dimensions
import TermEmbedding.Proofs.Table

/-!
# Consistent models

The tables of a model say things about each other. A result that is a function names a term, a term
that evaluation brought into being is the result of an application, and every term has a belief
about it whose matrices have the shapes of its type. Operations change the tables one after another,
and each of these facts is needed to show that another one is kept, so they are stated together.

## What a model knows

A term is known if there is a belief about it. A reference is of use in a model if it is a known
term or a vector of the full dimension of its type; vectors may be given for function types as well.
-/

namespace TermEmbedding

variable {K : Type}

/-! ## Equal keys -/

namespace TermReference

variable [BEq K]

theorem typeId_eq_of_beq {r s : TermReference K} (h : (r == s) = true) : r.typeId = s.typeId := by
  cases r with
  | function p =>
    cases s with
    | function q => exact congrArg TermPointer.typeId (of_decide_eq_true h)
    | vector u ys o => cases h
  | vector t xs o =>
    cases s with
    | function q => cases h
    | vector u ys o' => exact of_decide_eq_true (Bool.and_eq_true_iff.mp h).1

/-- What counts as equal to a vector without a mark is a vector with entries that count as equal. -/
theorem exists_of_beq_vector {r : TermReference K} {t : TypeId} {xs : List K}
    (h : (r == .vector t xs .anywhere) = true) :
    ∃ ys o, r = .vector t ys o ∧ (ys == xs) = true := by
  cases r with
  | function p => cases h
  | vector u ys o =>
    obtain ⟨htype, hentries⟩ := Bool.and_eq_true_iff.mp h
    obtain rfl : u = t := of_decide_eq_true htype
    refine ⟨ys, o, rfl, ?_⟩
    rcases Bool.or_eq_true_iff.mp hentries with hxs | hmark
    · exact hxs
    · obtain ⟨hsame, hne⟩ := Bool.and_eq_true_iff.mp hmark
      exact absurd (of_decide_eq_true hsame) (of_decide_eq_true hne)

end TermReference

theorem Application.beq_iff [BEq K] {a b : Application K} :
    (a == b) = true ↔ a.callee = b.callee ∧ (a.argument == b.argument) = true := by
  refine Bool.and_eq_true_iff.trans (and_congr_left' ?_)
  exact decide_eq_true_iff

/-! ## What the tables say -/

/-- A belief about a matrix of a space. -/
structure Embedding.Fits (e : Embedding K) (space : Context.FunctionSpace) : Prop where
  mean : e.mean.shape = [space.output, space.features]
  precision : e.precision.shape = [space.features, space.features]

theorem Embedding.fits_prior [Zero K] [One K] {mean : Tensor K} {space : Context.FunctionSpace}
    (haxes : 1 < mean.shape.length) (h : mean.shape = [space.output, space.features]) :
    (Embedding.prior mean haxes).Fits space :=
  ⟨h, by simp only [prior, Tensor.shape_identity, h]; rfl⟩

namespace Model

/-- Whether a model has a belief about a term. -/
def Knows (m : Model K) (p : TermPointer) : Prop := (m.embeddings.get? p).isSome = true

/-- The applications that the terms of a type came from. -/
def originsOf (m : Model K) (t : TypeId) : List (Application K) := (m.origins.get? t).getD []

/-- Whether a running number belongs to a term of its type. -/
def Counts (c : Context) (m : Model K) (p : TermPointer) : Prop :=
  match p.index with
  | .primitive i => i < (c.primitiveNames p.typeId).length
  | .nonprimitive j => j < (m.originsOf p.typeId).length

/-- Whether a reference is a known term or a vector of the dimension of its type. -/
def Denotes (c : Context) (m : Model K) : TermReference K → Prop
  | .function p => m.Knows p
  | .vector t entries _ => c.full t = .ok entries.length

/-- Whether a reference can be the result of an application: a vector if its type is one of vectors,
otherwise a term that evaluation brought into being. -/
def IsOutcome (c : Context) (m : Model K) : TermReference K → Prop
  | .function p => c.isVector p.typeId = .ok false ∧ m.Knows p ∧ ∃ j, p.index = .nonprimitive j
  | .vector t entries _ => c.isVector t = .ok true ∧ c.full t = .ok entries.length

/-- A row of results in which everything has the type that the applied function asks for. -/
structure TypedRow (c : Context) (m : Model K) (row : Application K × TermReference K) : Prop where
  callee : m.Knows row.1.callee
  signature : c.signature row.1.callee.typeId = .ok (row.1.argument.typeId, row.2.typeId)
  argument : m.Denotes c row.1.argument
  result : m.IsOutcome c row.2

/-- A matrix that expands the compressed vectors of a type of functions. -/
def IsElaborator (c : Context) (t : TypeId) (matrix : Tensor K) : Prop :=
  c.isVector t = .ok false ∧
    ∃ n k, c.full t = .ok n ∧ c.compressed t = .ok k ∧ matrix.shape = [n, k]

/-- **What the tables of a model say about each other.** -/
structure Consistent [BEq K] (c : Context) (m : Model K) : Prop where
  /-- There are beliefs about the terms of each type, counted from zero, and about no others. -/
  terms : ∀ p, m.Knows p ↔ m.Counts c p
  /-- There is one belief about each term. -/
  termsOnce : (m.embeddings.map (·.1)).Nodup
  /-- Beliefs have the shapes of their types. -/
  beliefs : ∀ row ∈ m.embeddings,
    ∃ space, c.functionSpace row.1.typeId = .ok space ∧ row.2.Fits space
  /-- Every type of functions has a matrix that expands its compressed vectors. -/
  elaborators : ∀ t, c.isVector t = .ok false → (m.elaborators.get? t).isSome = true
  /-- No other type has one, and none has two. -/
  elaboratorsOnly : ∀ row ∈ m.elaborators, IsElaborator c row.1 row.2
  elaboratorsOnce : (m.elaborators.map (·.1)).Nodup
  /-- Results have the types that the applied functions ask for. -/
  results : ∀ row ∈ m.results, m.TypedRow c row
  /-- No application has two results. -/
  resultsOnce : m.results.Pairwise fun x y ↦ (x.1 == y.1) = false
  /-- Terms are listed with the applications that they are the results of. -/
  origins : ∀ t j a,
    (m.originsOf t)[j]? = some a ↔ (a, .function ⟨t, .nonprimitive j⟩) ∈ m.results
  originsOnce : (m.origins.map (·.1)).Nodup
  /-- The last applications may be pending. -/
  pending : m.pending <:+ m.results.map (·.1)

/-! ## Models that add to a model -/

section

variable {c : Context} {m m' : Model K}

theorem IsOutcome.denotes {r : TermReference K} (h : m.IsOutcome c r) : m.Denotes c r := by
  cases r with
  | function p => exact h.2.1
  | vector t xs o => exact h.2

theorem Denotes.mono (h : ∀ p, m.Knows p → m'.Knows p) {r : TermReference K}
    (hr : m.Denotes c r) : m'.Denotes c r := by
  cases r with
  | function p => exact h p hr
  | vector t xs o => exact hr

theorem IsOutcome.mono (h : ∀ p, m.Knows p → m'.Knows p) {r : TermReference K}
    (hr : m.IsOutcome c r) : m'.IsOutcome c r := by
  cases r with
  | function p => exact ⟨hr.1, h p hr.2.1, hr.2.2⟩
  | vector t xs o => exact hr

theorem TypedRow.mono (h : ∀ p, m.Knows p → m'.Knows p) {row : Application K × TermReference K}
    (hrow : m.TypedRow c row) : m'.TypedRow c row :=
  ⟨h _ hrow.callee, hrow.signature, hrow.argument.mono h, hrow.result.mono h⟩

/-- One model adds to another one: it has all its terms and results, with nothing changed, and has
drawn no noise. -/
structure Extends (m m' : Model K) : Prop where
  embeddings : m.embeddings <+: m'.embeddings
  results : m.results <+: m'.results
  elaborators : m'.elaborators = m.elaborators
  noise : m'.noise = m.noise

theorem Extends.refl (m : Model K) : Extends m m :=
  ⟨List.prefix_rfl, List.prefix_rfl, rfl, rfl⟩

theorem Extends.trans {m₁ m₂ m₃ : Model K} (h : Extends m₁ m₂) (h' : Extends m₂ m₃) :
    Extends m₁ m₃ :=
  ⟨h.embeddings.trans h'.embeddings, h.results.trans h'.results,
    h'.elaborators.trans h.elaborators, h'.noise.trans h.noise⟩

theorem Extends.get?_embeddings (h : Extends m m') {p : TermPointer}
    {e : Embedding K} (he : m.embeddings.get? p = some e) : m'.embeddings.get? p = some e :=
  Table.get?_of_isPrefix h.embeddings he

theorem Extends.meanOf? (h : Extends m m') {r : TermReference K} {v : Tensor K}
    (hv : m.meanOf? r = some v) : m'.meanOf? r = some v := by
  cases r with
  | function p =>
    obtain ⟨e, he, rfl⟩ := Option.map_eq_some_iff.mp hv
    rw [Model.meanOf?, h.get?_embeddings he]
    rfl
  | vector t xs o => exact hv

theorem Extends.knows (h : Extends m m') (p : TermPointer) (hp : m.Knows p) : m'.Knows p := by
  obtain ⟨e, he⟩ := Option.isSome_iff_exists.mp hp
  rw [Knows, h.get?_embeddings he]
  rfl

/-- A model that is left where a consistent one was found is consistent. -/
def Keeps [BEq K] (c : Context) (m m' : Model K) : Prop := Consistent c m → Consistent c m'

instance [BEq K] : Std.Refl (Keeps c : Model K → Model K → Prop) := ⟨fun _ hm ↦ hm⟩

instance [BEq K] : IsTrans (Model K) (Keeps c) := ⟨fun _ _ _ h h' hm ↦ h' (h hm)⟩

/-- A model that is left where a consistent one was found: consistent, and only added to. -/
def Grows [BEq K] (c : Context) (m m' : Model K) : Prop :=
  Consistent c m → Consistent c m' ∧ Extends m m'

instance [BEq K] : Std.Refl (Grows c : Model K → Model K → Prop) :=
  ⟨fun m hm ↦ ⟨hm, .refl m⟩⟩

instance [BEq K] : IsTrans (Model K) (Grows c) where
  trans _ _ _ h h' hm := by
    obtain ⟨hm', hext⟩ := h hm
    obtain ⟨hm'', hext'⟩ := h' hm'
    exact ⟨hm'', hext.trans hext'⟩

end

section

variable [BEq K] {c : Context} {m : Model K}

/-- Other applications may be pending, and the state of the source of noise does not matter. -/
theorem Consistent.replace (h : Consistent c m) {pending : List (Application K)}
    (hpending : pending <:+ m.results.map (·.1)) (noise : Int) :
    Consistent c { m with pending := pending, noise := noise } := by
  have hknows : ∀ p, m.Knows p → Knows { m with pending := pending, noise := noise } p :=
    fun _ hp ↦ hp
  exact ⟨h.terms, h.termsOnce, h.beliefs, h.elaborators, h.elaboratorsOnly, h.elaboratorsOnce,
    fun row hrow ↦ (h.results row hrow).mono hknows, h.resultsOnce, h.origins, h.originsOnce,
    hpending⟩

/-! ## What follows for lookups -/

theorem Consistent.fits (h : Consistent c m) {p : TermPointer} {e : Embedding K}
    (he : m.embeddings.get? p = some e) :
    ∃ a r n k, c.Arrow p.typeId a r n k ∧ e.Fits ⟨k, n + 1⟩ := by
  obtain ⟨space, hspace, hfits⟩ := h.beliefs _ (Table.mem_of_get? he)
  obtain ⟨a, r, n, harrow, hfeatures⟩ := Context.exists_arrow_of_functionSpace hspace
  obtain ⟨output, features⟩ := space
  obtain rfl : features = n + 1 := hfeatures
  exact ⟨a, r, n, output, harrow, hfits⟩

theorem Consistent.exists_elaborator (h : Consistent c m) {t : TypeId}
    (ht : c.isVector t = .ok false) :
    ∃ matrix, m.elaborators.get? t = some matrix ∧ IsElaborator c t matrix := by
  obtain ⟨matrix, hget⟩ := Option.isSome_iff_exists.mp (h.elaborators t ht)
  exact ⟨matrix, hget, h.elaboratorsOnly _ (Table.mem_of_get? hget)⟩

theorem Consistent.exists_mean (h : Consistent c m) {p : TermPointer} (hp : m.Knows p) :
    ∃ e a r n k, m.embeddings.get? p = some e ∧ c.Arrow p.typeId a r n k ∧ e.Fits ⟨k, n + 1⟩ ∧
      e.meanVector.shape = [k * (n + 1)] := by
  obtain ⟨e, he⟩ := Option.isSome_iff_exists.mp hp
  obtain ⟨a, r, n, k, harrow, hfits⟩ := h.fits he
  refine ⟨e, a, r, n, k, he, harrow, hfits, ?_⟩
  rw [Embedding.meanVector, Tensor.shape_flatten, hfits.mean]
  simp

theorem Consistent.exists_meanOf (h : Consistent c m) {r : TermReference K}
    (hr : m.Denotes c r) :
    ∃ v n, m.meanOf? r = some v ∧ c.full r.typeId = .ok n ∧ v.shape = [n] := by
  cases r with
  | vector t xs o => exact ⟨_, xs.length, rfl, hr, rfl⟩
  | function p =>
    obtain ⟨e, a, r, n, k, he, harrow, -, hshape⟩ := h.exists_mean hr
    exact ⟨e.meanVector, _, by rw [meanOf?, he]; rfl, harrow.full, hshape⟩

variable [Zero K] [Add K] [Mul K]

theorem Consistent.exists_expands (h : Consistent c m) {t argument result : TypeId} {n k : Nat}
    (harrow : c.Arrow t argument result n k) {v : Tensor K} (hv : v.shape = [k]) :
    ∃ w j, Expands c m result v w ∧ c.full result = .ok j ∧ w.shape = [j] := by
  rcases harrow.result with ⟨hvec, hfull⟩ | ⟨hfun, a, r, i, j, hresult⟩
  · exact ⟨v, k, .inl ⟨hvec, rfl⟩, hfull, hv⟩
  · obtain ⟨matrix, hget, -, i', k', hfull, hcompressed, hshape⟩ := h.exists_elaborator hfun
    obtain rfl : k' = k := by
      have := harrow.resultCompressed.symm.trans hcompressed
      cases this
      rfl
    obtain ⟨w, hw, hwshape⟩ := Tensor.matmul_vector hshape hv
    exact ⟨w, i', .inr ⟨hfun, matrix, hget, hw⟩, hfull, hwshape⟩

end

end Model

end TermEmbedding
