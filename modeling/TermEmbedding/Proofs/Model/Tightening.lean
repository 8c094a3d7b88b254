import TermEmbedding.Proofs.Linear.Rational
import TermEmbedding.Proofs.Model.Safety

/-!
# Updates in exact arithmetic

What is folded into the belief about a function are results that the mean of the belief has given.
In exact arithmetic an update therefore leaves all means as they are: it makes beliefs tighter, and
does not move them. Results stay what their applications would be computed to be, and the precision
of a belief tells which applications were folded into it.

## The way back from a term

A result that is a function is stored as a term: the compressed vector that comes out is expanded
and becomes the mean of a new belief. In an update this mean is compressed again. It is the vector
that came out if the pseudo-inverse of the matrix that expands is a left inverse, and this is what
is asked of the matrices of a model.
-/

namespace TermEmbedding

variable {K : Type}

namespace Model

open Operation

section

variable {c : Context} {m m' : Model K}

/-! ## Means that stay -/

/-- Two models that differ at most in how sure they are of what they believe. -/
structure SameMeans (m m' : Model K) : Prop where
  beliefs : m.SameButBeliefs m'
  means : ∀ p, (m'.embeddings.get? p).map (·.mean) = (m.embeddings.get? p).map (·.mean)

theorem SameMeans.refl (m : Model K) : m.SameMeans m := ⟨Std.Refl.refl m, fun _ ↦ rfl⟩

theorem SameMeans.trans {m₁ m₂ m₃ : Model K} (h : m₁.SameMeans m₂) (h' : m₂.SameMeans m₃) :
    m₁.SameMeans m₃ :=
  ⟨IsTrans.trans _ _ _ h.beliefs h'.beliefs, fun p ↦ (h'.means p).trans (h.means p)⟩

theorem SameMeans.meanOf? (h : m.SameMeans m') (r : TermReference K) :
    m'.meanOf? r = m.meanOf? r := by
  cases r with
  | vector t xs o => rfl
  | function p =>
    have hflat := congrArg (·.map Tensor.flatten) (h.means p)
    simpa [Model.meanOf?, Option.map_map, Function.comp_def, Embedding.meanVector] using hflat

theorem SameMeans.elaborators (h : m.SameMeans m') : m'.elaborators = m.elaborators := by
  rw [h.beliefs.1]

theorem SameMeans.results (h : m.SameMeans m') : m'.results = m.results := by
  rw [h.beliefs.1]

private theorem sameMeans_revise {p : TermPointer} {e e' : Embedding K}
    (he : m.embeddings.get? p = some e) (hmean : e'.mean = e.mean) :
    m.SameMeans (m.revise p e') := by
  refine ⟨sameButBeliefs_revise (by rw [Knows, he]; rfl) e', fun q ↦ ?_⟩
  rw [revise, Table.get?_insert]
  split_ifs with hq
  · rw [← hq, he, Option.map_some, Option.map_some, hmean]
  · rfl

section

variable [Zero K] [One K] [Add K] [Mul K]

theorem SameMeans.computes (h : m.SameMeans m') {a : Application K} {r : TermReference K}
    (hr : m.Computes c a r) : m'.Computes c a r := by
  obtain ⟨v, w, ⟨e, base, n, k, harrow, he, hbase, hshape, hv, hvshape⟩, hexpands, hmean⟩ := hr
  have hget := h.means a.callee
  rw [he, Option.map_some] at hget
  obtain ⟨e', he', hsame⟩ := Option.map_eq_some_iff.mp hget
  refine ⟨v, w, ⟨e', base, n, k, harrow, he', (h.meanOf? _).trans hbase, hshape, ?_, hvshape⟩,
    hexpands.congr h.elaborators, (h.meanOf? r).trans hmean⟩
  rw [hsame]
  exact hv

theorem SameMeans.current (h : m.SameMeans m') (hcurrent : m.Current c) : m'.Current c := by
  intro row hrow
  rw [h.results] at hrow
  exact h.computes (hcurrent row hrow)

end

/-! ## Applications that were folded in -/

section

variable [BEq K]

/-- The applications with results that are not pending. -/
def settled (m : Model K) : List (Application K) :=
  (m.results.map (·.1)).filter fun a ↦ !m.pending.contains a

variable [ReflBEq K]

private theorem Application.beq_self (a : Application K) : (a == a) = true := by
  refine Application.beq_iff.mpr ⟨rfl, ?_⟩
  cases a.argument with
  | function p => exact decide_eq_true rfl
  | vector t xs o => exact TermReference.beq_vector_of_beq (BEq.refl xs)

/-- What is settled and what is pending are all applications with results, in their order. -/
theorem Consistent.settled_append_pending (hm : Consistent c m) :
    m.settled ++ m.pending = m.results.map (·.1) := by
  obtain ⟨before, hbefore⟩ := hm.pending
  have hpair : (before ++ m.pending).Pairwise fun a b ↦ (a == b) = false := by
    rw [hbefore, List.pairwise_map]
    exact hm.resultsOnce
  have hkept : before.filter (fun a ↦ !m.pending.contains a) = before := by
    rw [List.filter_eq_self]
    intro a ha
    rw [Bool.not_eq_true', ← Bool.not_eq_true, List.contains_iff_exists_mem_beq]
    rintro ⟨b, hb, hab⟩
    rw [(List.pairwise_append.mp hpair).2.2 a ha b hb] at hab
    cases hab
  have hdropped : m.pending.filter (fun a ↦ !m.pending.contains a) = [] := by
    rw [List.filter_eq_nil_iff]
    intro a ha
    rw [Bool.not_eq_true', Bool.not_eq_false, List.contains_iff_exists_mem_beq]
    exact ⟨a, ha, Application.beq_self a⟩
  rw [settled, ← hbefore, List.filter_append, hkept, hdropped, List.append_nil]

private theorem Consistent.get?_of_mem_results (hm : Consistent c m) {a : Application K}
    {r : TermReference K} (h : (a, r) ∈ m.results) : m.results.get? a = some r :=
  Table.get?_of_pairwise hm.resultsOnce h (Application.beq_self a) fun _ hk ↦ hk

end

/-! ## What a precision tells -/

section

variable [Zero K] [One K]

/-- The features of a reference: the entries of its mean and a constant. -/
def featureTensor (m : Model K) (r : TermReference K) : Tensor K :=
  .ofList (((m.meanOf? r).map (·.toList)).getD [] ++ [1])

/-- The features of a reference as a vector. -/
def featuresOf (m : Model K) (n : Nat) (r : TermReference K) : Fin n → K :=
  (m.featureTensor r).toVec n

theorem SameMeans.featuresOf (h : m.SameMeans m') (n : Nat) (r : TermReference K) :
    m'.featuresOf n r = m.featuresOf n r := by
  rw [Model.featuresOf, featureTensor, h.meanOf?, Model.featuresOf, featureTensor]

end

end

section

variable [Field K] [Numbers K] {c : Context} {m m' : Model K} {as : List (Application K)}

/-- Whether the precisions of beliefs come from the applications of a list: each of them has added
the square of the features of its argument to an identity matrix. -/
def Accounts (m : Model K) (as : List (Application K)) : Prop :=
  ∀ p e, m.embeddings.get? p = some e → ∀ n, e.precision.shape = [n, n] →
    e.precision.toMatrix n n = 1 + (Numbers.noiseVariance : K)⁻¹ •
      squares ((as.filter (·.callee = p)).map fun a ↦ m.featuresOf n a.argument)

private theorem Accounts.perm (h : m.Accounts as) {bs : List (Application K)} (hperm : as.Perm bs) :
    m.Accounts bs := by
  intro p e he n hshape
  rw [h p e he n hshape, squares_perm ((hperm.filter _).map _)]

omit [Numbers K] in
theorem toMatrix_precision_prior {mean : Tensor K} {haxes : 1 < mean.shape.length} {n : Nat}
    (h : (Embedding.prior mean haxes).precision.shape = [n, n]) :
    (Embedding.prior mean haxes).precision.toMatrix n n = 1 := by
  rw [Embedding.prior, Tensor.shape_identity] at h
  obtain rfl : mean.shape[1] = n := (List.cons.inj h).1
  exact Tensor.toMatrix_identity _

private theorem accounts_of_fresh {source : NoiseSource K} {seed : Seed}
    (h : fresh source c seed = .ok m) : m.Accounts [] := by
  intro p e he n hshape
  obtain ⟨mean, haxes, hprior⟩ := exists_prior_of_fresh h _ (Table.mem_of_get? he)
  obtain rfl : e = .prior mean haxes := hprior
  rw [toMatrix_precision_prior hshape]
  simp

/-- New terms do not change what precisions tell about the applications of known ones. -/
theorem Accounts.extends (hm : Consistent c m) (hacc : m.Accounts as) (hadds : Extends m m')
    (has : ∀ a ∈ as, ∃ r, (a, r) ∈ m.results)
    (hnew : ∀ p e, m.embeddings.get? p = none → m'.embeddings.get? p = some e →
      ∃ mean haxes, e = .prior mean haxes) : m'.Accounts as := by
  intro p e he n hshape
  cases hget : m.embeddings.get? p with
  | some e' =>
    cases (hadds.get?_embeddings hget).symm.trans he
    have hfeatures : ∀ a ∈ as, m'.featuresOf n a.argument = m.featuresOf n a.argument := by
      intro a ha
      obtain ⟨r, hr⟩ := has a ha
      obtain ⟨v, k, hv, -, -⟩ := hm.exists_meanOf (hm.results _ hr).argument
      rw [featuresOf, featuresOf, featureTensor, featureTensor, hadds.meanOf? hv, hv]
    rw [hacc p e hget n hshape]
    congr 3
    exact List.map_congr_left fun a ha ↦ (hfeatures a (List.mem_of_mem_filter ha)).symm
  | none =>
    obtain ⟨mean, haxes, rfl⟩ := hnew p e hget he
    -- no application of the list has an unknown function
    have hnil : as.filter (·.callee = p) = [] := by
      refine List.filter_eq_nil_iff.mpr fun a ha hcallee ↦ ?_
      obtain ⟨r, hr⟩ := has a ha
      have hknows := (hm.results _ hr).callee
      rw [Knows, of_decide_eq_true hcallee, hget] at hknows
      cases hknows
    rw [toMatrix_precision_prior hshape, hnil]
    simp

theorem Accounts.revise (hacc : m.Accounts as) {p : TermPointer} {e e' : Embedding K}
    (he : m.embeddings.get? p = some e) (hmean : e'.mean = e.mean)
    {arguments : List (TermReference K)}
    (hprecision : ∀ n, e'.precision.shape = [n, n] → e'.precision.toMatrix n n =
      1 + (Numbers.noiseVariance : K)⁻¹ • squares
        (((as.filter (·.callee = p)).map fun a ↦ m.featuresOf n a.argument) ++
          arguments.map (m.featuresOf n))) :
    (m.revise p e').Accounts (as ++ applicationsOf (p, arguments)) := by
  have hsame := sameMeans_revise he hmean
  intro q f hf n hshape
  simp only [hsame.featuresOf]
  rw [Model.revise, Table.get?_insert] at hf
  by_cases hq : p = q
  · subst hq
    rw [if_pos rfl] at hf
    cases hf
    have hall : (applicationsOf (p, arguments)).filter (·.callee = p) =
        applicationsOf (p, arguments) := by
      refine List.filter_eq_self.mpr fun a ha ↦ ?_
      obtain ⟨x, -, rfl⟩ := List.mem_map.mp ha
      exact decide_eq_true rfl
    rw [hprecision n hshape, List.filter_append, hall, List.map_append, applicationsOf,
      List.map_map]
    rfl
  · rw [if_neg hq] at hf
    have hnone : (applicationsOf (p, arguments)).filter (·.callee = q) = [] := by
      refine List.filter_eq_nil_iff.mpr fun a ha hcallee ↦ ?_
      obtain ⟨x, -, rfl⟩ := List.mem_map.mp ha
      exact hq (of_decide_eq_true hcallee)
    rw [hacc q f hf n hshape, List.filter_append, hnone, List.append_nil]

end

/-! ## Looking at what is folded in -/

section

variable [Field K] [Numbers K] {c : Context} {m m' : Model K}

/-- Whether the pseudo-inverses of the matrices of a model are left inverses. -/
def Inverts (m : Model K) : Prop :=
  ∀ row ∈ m.elaborators, ∀ n k, row.2.shape = [n, k] →
    ∃ q, Routines.pseudoInverse row.2 = .ok q ∧ q.toMatrix k n * row.2.toMatrix n k = 1

private theorem run_observedFeatures (hm : Consistent c m) {r : TermReference K}
    (hr : m.Denotes c r) {n : Nat} (hfull : c.full r.typeId = .ok n) :
    (observedFeatures ⟨n⟩ r).run m = (.ok (m.featureTensor r), m) ∧
      (m.featureTensor r).shape = [n + 1] := by
  obtain ⟨v, n', hv, hfull', hshape⟩ := hm.exists_meanOf hr
  cases hfull.symm.trans hfull'
  rw [featureTensor, hv, Option.map_some, Option.getD_some]
  refine ⟨?_, shape_features hshape⟩
  rw [observedFeatures, run_bind_ok (run_meanVector_some hv)]
  exact run_except_ok (features_of_shape hshape) m

private theorem run_compress_of_expands [Routines.Shaped K] (hm : Consistent c m)
    (hinverts : m.Inverts)
    {t : TypeId} {v w : Tensor K} {k : Nat} (hcompressed : c.compressed t = .ok k)
    (hv : v.shape = [k]) (h : Expands c m t v w) : (compress c t w).run m = (.ok v, m) := by
  rw [compress]
  rcases h with ⟨hvec, rfl⟩ | ⟨hfun, matrix, hget, hmul⟩
  · rw [run_bind_ok (run_type_ok hvec m)]
    rfl
  · have hrow := Table.mem_of_get? hget
    obtain ⟨-, n, k', -, hcompressed', hshape⟩ := hm.elaboratorsOnly _ hrow
    cases hcompressed.symm.trans hcompressed'
    obtain ⟨q, hq, hidentity⟩ := hinverts _ hrow n k hshape
    have hqshape : q.shape = [k, n] := Routines.Shaped.pseudoInverse hshape hq
    have hw : w.shape = [n] := by
      obtain ⟨w', hw', hwshape⟩ := Tensor.matmul_vector hshape hv
      cases hmul.symm.trans hw'
      exact hwshape
    obtain ⟨u, hu, hushape⟩ := Tensor.matmul_vector hqshape hw
    -- the two matrices cancel out
    obtain rfl : u = v := by
      refine Tensor.eq_of_toVec_eq hushape hv ?_
      rw [Tensor.toVec_matmul hqshape hw hu, Tensor.toVec_matmul hshape hv hmul,
        Matrix.mulVec_mulVec, hidentity, Matrix.one_mulVec]
    rw [run_bind_ok (run_type_ok hfun m)]
    change (elaborator t >>= fun matrix ↦ _).run m = _
    rw [run_bind_ok (run_elaborator_some hget), run_bind_ok (run_linear_ok hq m)]
    exact run_linear_ok hu m

/-- **What is observed of an application is what is predicted for it**: the result that it has is
the mean of the belief about the function, applied to the features of the argument. -/
theorem run_observedTarget [ReflBEq K] [Routines.Shaped K] (hm : Consistent c m)
    (hcurrent : m.Current c) (hinverts : m.Inverts) {a : Application K} {r : TermReference K}
    (hrow : (a, r) ∈ m.results) {e : Embedding K} (he : m.embeddings.get? a.callee = some e)
    {argument t : TypeId} {n k : Nat} (harrow : c.Arrow a.callee.typeId argument t n k) :
    ∃ v, (observedTarget c t a.callee a.argument).run m = (.ok v, m) ∧ v.shape = [k] ∧
      v.toVec k = (e.mean.toMatrix k (n + 1)).mulVec (m.featuresOf (n + 1) a.argument) := by
  obtain ⟨v, w, ⟨e', base, n', k', harrow', he', hbase, hshape, hv, hvshape⟩, hexpands, hmean⟩ :=
    hcurrent _ hrow
  cases he.symm.trans he'
  have hsignature := harrow.signature.symm.trans harrow'.signature
  simp only [Except.ok.injEq, Prod.mk.injEq] at hsignature
  obtain ⟨rfl, rfl⟩ := hsignature
  cases harrow.functionSpace.symm.trans harrow'.functionSpace
  have hfits : e.Fits ⟨k, n + 1⟩ := by
    obtain ⟨A, T, i, j, harrow'', hfits⟩ := hm.fits he
    cases harrow.functionSpace.symm.trans harrow''.functionSpace
    exact hfits
  refine ⟨v, ?_, hvshape, ?_⟩
  · rw [observedTarget, run_bind_ok (run_get m), hm.get?_of_mem_results hrow]
    dsimp only
    rw [run_bind_ok (run_meanVector_some hmean)]
    exact run_compress_of_expands hm hinverts harrow.resultCompressed hvshape hexpands
  · rw [featuresOf, featureTensor, hbase]
    exact Tensor.toVec_matmul hfits.mean (shape_features hshape) hv

section

variable {p : TermPointer} {arguments : List (TermReference K)} {argument t : TypeId} {n k : Nat}

private theorem Consistent.exists_features (hm : Consistent c m) (hne : arguments ≠ [])
    (hrows : ∀ x ∈ arguments, ∃ r, (⟨p, x⟩, r) ∈ m.results)
    (harrow : c.Arrow p.typeId argument t n k) :
    ∃ vs features, (arguments.mapM (observedFeatures ⟨n⟩)).run m = (.ok vs, m) ∧
      Tensor.stack vs = .ok features ∧
      features.shape = [(arguments.map (m.featuresOf (n + 1))).length, n + 1] ∧
      features.toMatrix (arguments.map (m.featuresOf (n + 1))).length (n + 1) =
        .of fun i ↦ (arguments.map (m.featuresOf (n + 1)))[i] := by
  have hfeatures : ∀ x ∈ arguments, ∃ v, (observedFeatures ⟨n⟩ x).run m = (.ok v, m) ∧
      v.shape = [n + 1] ∧ v.toVec (n + 1) = m.featuresOf (n + 1) x := by
    intro x hx
    obtain ⟨r, hr⟩ := hrows x hx
    have htyped := hm.results _ hr
    have hsignature := harrow.signature.symm.trans htyped.signature
    simp only [Except.ok.injEq, Prod.mk.injEq] at hsignature
    obtain ⟨hrun, hshape⟩ :=
      run_observedFeatures hm htyped.argument (hsignature.1 ▸ harrow.argumentFull)
    exact ⟨_, hrun, hshape, rfl⟩
  obtain ⟨vs, hvs, hall⟩ := run_mapM_ok hfeatures
  obtain ⟨features, hstack, hshape, hmatrix⟩ := Tensor.exists_stack
    id (arguments.map (m.featuresOf (n + 1))) (by simpa using hne)
    (List.forall₂_map_left_iff.mpr hall)
  exact ⟨vs, features, hvs, hstack, hshape, hmatrix⟩

/-- What is observed of these applications are the rows of a matrix too, and it is what is predicted
for the features. -/
private theorem Consistent.exists_targets [ReflBEq K] [Routines.Shaped K] (hm : Consistent c m)
    (hcurrent : m.Current c) (hinverts : m.Inverts) (hne : arguments ≠ [])
    (hrows : ∀ x ∈ arguments, ∃ r, (⟨p, x⟩, r) ∈ m.results) {e : Embedding K}
    (he : m.embeddings.get? p = some e) (harrow : c.Arrow p.typeId argument t n k) :
    ∃ vs targets, (arguments.mapM (observedTarget c t p)).run m = (.ok vs, m) ∧
      Tensor.stack vs = .ok targets ∧
      targets.shape = [(arguments.map (m.featuresOf (n + 1))).length, k] ∧
      targets.toMatrix (arguments.map (m.featuresOf (n + 1))).length k =
        .of fun i ↦ (e.mean.toMatrix k (n + 1)).mulVec
          (arguments.map (m.featuresOf (n + 1)))[i] := by
  have htargets : ∀ x ∈ arguments, ∃ v, (observedTarget c t p x).run m = (.ok v, m) ∧
      v.shape = [k] ∧
        v.toVec k = (e.mean.toMatrix k (n + 1)).mulVec (m.featuresOf (n + 1) x) := by
    intro x hx
    obtain ⟨r, hr⟩ := hrows x hx
    exact run_observedTarget hm hcurrent hinverts hr he harrow
  obtain ⟨vs, hvs, hall⟩ := run_mapM_ok htargets
  obtain ⟨targets, hstack, hshape, hmatrix⟩ := Tensor.exists_stack
    (e.mean.toMatrix k (n + 1)).mulVec (arguments.map (m.featuresOf (n + 1)))
    (by simpa using hne) (List.forall₂_map_left_iff.mpr hall)
  exact ⟨vs, targets, hvs, hstack, hshape, hmatrix⟩

end

/-! ## Updates -/

/-- A model with results that hold, whose precisions come from the applications of a list. -/
structure Tightened (c : Context) (as : List (Application K)) (m : Model K) : Prop where
  consistent : Consistent c m
  current : m.Current c
  accounts : m.Accounts as

section

variable [LinearOrder K] [IsStrictOrderedRing K] [ReflBEq K] [Routines.Shaped K]
  [Numbers.Exact K] {as : List (Application K)}

/-- **A group is folded in without a change of means.** -/
theorem Tightened.exists_observe (h : m.Tightened c as) (hinverts : m.Inverts) {p : TermPointer}
    {arguments : List (TermReference K)} (hne : arguments ≠ [])
    (hrows : ∀ x ∈ arguments, ∃ r, (⟨p, x⟩, r) ∈ m.results) :
    ∃ m', (observe c p arguments).run m = (.ok (), m') ∧ m.SameMeans m' ∧
      m'.Tightened c (as ++ applicationsOf (p, arguments)) := by
  obtain ⟨hm, hcurrent, hacc⟩ := h
  obtain ⟨first, hfirst⟩ := List.exists_mem_of_ne_nil arguments hne
  obtain ⟨r, hr⟩ := hrows first hfirst
  obtain ⟨e, he⟩ := Option.isSome_iff_exists.mp (hm.results _ hr).callee
  obtain ⟨a, t, n, k, harrow, hfits⟩ := hm.fits he
  obtain ⟨fs, features, hfs, hstack, hshape, hmatrix⟩ := hm.exists_features hne hrows harrow
  obtain ⟨ts, targets, hts, htstack, htshape, htmatrix⟩ :=
    hm.exists_targets hcurrent hinverts hne hrows he harrow
  have hpredicted : targets.toMatrix (arguments.map (m.featuresOf (n + 1))).length k =
      features.toMatrix _ (n + 1) * (e.mean.toMatrix k (n + 1)).transpose := by
    rw [hmatrix, htmatrix]
    ext i j
    exact dotProduct_comm (e.mean.toMatrix k (n + 1) j) _
  obtain ⟨e', hupdate, hfits', hmean, hprecision⟩ := hfits.exists_update_eq
    (hacc p e he (n + 1) hfits.precision) hshape htshape hmatrix hpredicted
  have hsame := sameMeans_revise he hmean
  refine ⟨m.revise p e', ?_, hsame, consistent_revise hm he harrow.functionSpace hfits',
    hsame.current hcurrent, hacc.revise he hmean fun n' hn' ↦ ?_⟩
  · rw [observe, run_bind_ok (run_type_ok harrow.signature m)]
    dsimp only
    rw [run_bind_ok (run_type_ok harrow.featureSpace m), run_bind_ok hfs,
      run_bind_ok (run_linear_ok hstack m), run_bind_ok hts,
      run_bind_ok (run_linear_ok htstack m), run_bind_ok (run_embedding_some he),
      run_bind_ok (run_linear_ok hupdate m)]
    rfl
  · cases hn'.symm.trans hfits'.precision
    exact hprecision

theorem Tightened.exists_observeAll {groups : Table TermPointer (List (TermReference K))}
    (h : m.Tightened c as) (hinverts : m.Inverts) (hne : ∀ group ∈ groups, group.2 ≠ [])
    (hrows : ∀ a ∈ groups.flatMap applicationsOf, ∃ r, (a, r) ∈ m.results) :
    ∃ m', (observeAll c groups).run m = (.ok (), m') ∧ m.SameMeans m' ∧
      m'.Tightened c (as ++ groups.flatMap applicationsOf) := by
  induction groups generalizing m as with
  | nil => exact ⟨m, rfl, .refl m, by rwa [List.flatMap_nil, List.append_nil]⟩
  | cons group groups ih =>
    rw [List.forall_mem_cons] at hne
    simp only [List.flatMap_cons, List.forall_mem_append] at hrows
    obtain ⟨m₁, hrun₁, hsame₁, h₁⟩ := h.exists_observe hinverts hne.1 fun x hx ↦
      hrows.1 _ (List.mem_map.mpr ⟨x, hx, rfl⟩)
    obtain ⟨m₂, hrun₂, hsame₂, h₂⟩ := ih h₁ (by rwa [Inverts, hsame₁.elaborators]) hne.2
      (by rw [hsame₁.results]; exact hrows.2)
    refine ⟨m₂, ?_, hsame₁.trans hsame₂, ?_⟩
    · rw [observeAll, run_bind_ok hrun₁, hrun₂]
    · rw [List.flatMap_cons, ← List.append_assoc]
      exact h₂

/-- **An update is completed and leaves all means as they are.** What was pending is then settled
as well. -/
theorem Tightened.exists_update (h : m.Tightened c m.settled) (hinverts : m.Inverts) :
    ∃ m', (update c).run m = (.ok (), { m' with pending := [] }) ∧ m.SameMeans m' ∧
      Tightened c (settled { m' with pending := [] }) { m' with pending := [] } := by
  have hm := h.consistent
  have hperm := perm_grouped m.pending
  obtain ⟨m', hrun, hsame, hm', hcurrent, hacc⟩ := h.exists_observeAll hinverts
    (fun group (hgroup : group ∈ grouped m.pending) ↦ ne_nil_of_mem_grouped hgroup)
    fun a ha ↦ hm.exists_of_pending (hperm.subset ha)
  have hlearn : (learn c : Operation K Unit).run m = (.ok (), m') :=
    (run_bind_ok (run_get m) _).trans hrun
  have hcleared : Consistent c { m' with pending := [] } := hm'.replace List.nil_suffix m'.noise
  have hsettled : settled { m' with pending := [] } = m.settled ++ m.pending := by
    have hall := hcleared.settled_append_pending
    rw [List.append_nil] at hall
    rw [hall, hm.settled_append_pending, ← hsame.results]
  refine ⟨m', run_bind_ok hlearn _, hsame, hcleared, hcurrent, ?_⟩
  rw [hsettled]
  exact hacc.perm (hperm.append_left _)

end

/-! ## Evaluations -/

section

variable [ReflBEq K] {a : Application K} {r : Except (Failure K) (TermReference K)}

theorem Step.settled_eq (hm : Consistent c m) (h : Step c m a (r, m')) :
    m'.settled = m.settled := by
  have hm' := h.consistent hm
  have hrecord : ∀ {s : TermReference K}, m'.results = m.results ++ [(a, s)] →
      m'.pending = m.pending ++ [a] → m'.settled = m.settled := by
    intro s hresults hpending
    have hall := hm'.settled_append_pending
    rw [hresults, hpending, List.map_append, ← hm.settled_append_pending, List.append_assoc] at hall
    exact List.append_cancel_right hall
  cases h with
  | known => rfl
  | refused => rfl
  | vector => exact hrecord rfl rfl
  | function => exact hrecord rfl rfl

omit [ReflBEq K] in
private theorem Step.exists_prior (h : Step c m a (r, m')) {p : TermPointer} {e : Embedding K}
    (hnone : m.embeddings.get? p = none) (he : m'.embeddings.get? p = some e) :
    ∃ mean haxes, e = .prior mean haxes := by
  cases h with
  | known | refused | vector => cases hnone.symm.trans he
  | @function t v w space mean _ _ _ _ _ _ haxes =>
    change Table.get? (m.embeddings ++ [(m.nextTerm t, .prior mean haxes)]) p = some e at he
    rw [Table.get?_append, hnone, Option.none_or] at he
    exact ⟨mean, haxes, congrArg Prod.snd (List.mem_singleton.mp (Table.mem_of_get? he))⟩

theorem Step.tightened (h : m.Tightened c m.settled) (hstep : Step c m a (r, m')) :
    m'.Tightened c m'.settled := by
  have hm := h.consistent
  have hrows : ∀ b ∈ m.settled, ∃ s, (b, s) ∈ m.results := by
    intro b hb
    obtain ⟨row, hrow, rfl⟩ := List.mem_map.mp (List.mem_of_mem_filter hb)
    exact ⟨row.2, hrow⟩
  refine ⟨hstep.consistent hm, hstep.current hm h.current, ?_⟩
  rw [hstep.settled_eq hm]
  exact h.accounts.extends hm hstep.extends hrows fun p e ↦ hstep.exists_prior

omit [ReflBEq K] in
private theorem tightened_of_fresh [Routines.Shaped K] {source : NoiseSource K} {seed : Seed}
    (h : fresh source c seed = .ok m) : m.Tightened c m.settled := by
  have hresults := results_of_fresh h
  refine ⟨consistent_of_fresh h, ?_, ?_⟩
  · intro row hrow
    rw [hresults] at hrow
    cases hrow
  · rw [settled, hresults]
    exact accounts_of_fresh h

end

/-! ## Models that evaluations and updates lead to -/

/-- The models that evaluations and completed updates make of a model, in any order. -/
inductive Progress (c : Context) (start : Model K) : Model K → Prop
  | start : Progress c start start
  | evaluate {m : Model K} (h : Progress c start m) (p : TermPointer) (argument : TermReference K) :
    Progress c start ((evaluate c p argument).run m).2
  | evaluateExpression {m : Model K} (h : Progress c start m) (e : Expression K) :
    Progress c start ((e.evaluate c).run m).2
  | update {m m' : Model K} (h : Progress c start m) (hrun : (update c).run m = (.ok (), m')) :
    Progress c start m'

section

variable [LinearOrder K] [IsStrictOrderedRing K] [ReflBEq K] [Routines.Shaped K]
  [Numbers.Exact K] {start : Model K}

/-- Evaluations and updates keep precisions and results what they are in a tightened model. -/
theorem Progress.tightened (h : Progress c start m) (hstart : start.Tightened c start.settled)
    (hinverts : start.Inverts) :
    m.Tightened c m.settled ∧ m.elaborators = start.elaborators := by
  induction h with
  | start => exact ⟨hstart, rfl⟩
  | evaluate _ p argument ih =>
    have hstep := step_evaluate ih.1.consistent ⟨p, argument⟩
    exact ⟨hstep.tightened ih.1, hstep.extends.elaborators.trans ih.2⟩
  | evaluateExpression _ e ih =>
    obtain ⟨h, helaborators⟩ := ih
    refine ⟨e.keeps_of_step (fun _ h hstep ↦ hstep.tightened h) h.consistent h, ?_⟩
    exact (e.within_evaluate _ h.consistent).2.elaborators.trans helaborators
  | update _ hrun ih =>
    obtain ⟨h, helaborators⟩ := ih
    obtain ⟨m₁, hrun₁, hsame, h₁⟩ := h.exists_update (by rwa [Inverts, helaborators])
    cases hrun.symm.trans hrun₁
    exact ⟨h₁, hsame.elaborators.trans helaborators⟩

/-- **In exact arithmetic updates only tighten.** Let the matrices of a new model have
pseudo-inverses that are left inverses, and let evaluations and updates be made in any order. A
further update is completed and leaves the mean of every belief as it is; every result is what its
application would be computed to be now; and the precision of a belief is the identity and the
squares of the features of the arguments of those applications of the term that are not pending,
over the variance of the noise. -/
theorem update_only_tightens {source : NoiseSource K} {seed : Seed}
    (hfresh : fresh source c seed = .ok start) (hinverts : start.Inverts)
    (h : Progress c start m) :
    (∃ m', (update c).run m = (.ok (), m') ∧
      ∀ p, (m'.embeddings.get? p).map (·.mean) = (m.embeddings.get? p).map (·.mean)) ∧
    m.Current c ∧
    ∀ p e, m.embeddings.get? p = some e → ∃ n, e.precision.shape = [n, n] ∧
      e.precision.toMatrix n n = 1 + (1 / 10 : K)⁻¹ •
        squares ((m.settled.filter (·.callee = p)).map fun a ↦ m.featuresOf n a.argument) := by
  obtain ⟨htight, helaborators⟩ := h.tightened (tightened_of_fresh hfresh) hinverts
  refine ⟨?_, htight.current, fun p e he ↦ ?_⟩
  · obtain ⟨m', hrun, hsame, -⟩ := htight.exists_update (by rwa [Inverts, helaborators])
    exact ⟨_, hrun, hsame.means⟩
  · obtain ⟨a, r, n, k, -, hfits⟩ := htight.consistent.fits he
    refine ⟨n + 1, hfits.precision, ?_⟩
    rw [← Numbers.Exact.noiseVariance]
    exact htight.accounts p e he (n + 1) hfits.precision

end

end

/-! ## Rational numbers -/

private theorem inverts_of_forall {m : Model ℚ}
    (h : ∀ row ∈ m.elaborators, (Rational.pseudoInverse row.2).toOption.isSome = true) :
    m.Inverts := by
  intro row hrow n k hshape
  obtain ⟨q, hq⟩ := Option.isSome_iff_exists.mp (h row hrow)
  rw [toOption_eq_some_iff] at hq
  exact ⟨q, hq, Rational.toMatrix_pseudoInverse_mul hshape hq⟩

end Model

/-- Numbers, functions of numbers that are kept in one number each, and functions with such
functions for results, one of which is declared. -/
def Context.shortened : Context where
  kinds := [.vector 1, .function 0 0 (some 1), .function 0 1 none]
  primitives := [(2, [Json.name "h"])]
  wellFormed := by
    refine @Kind.WellFormed.snoc [.vector 1, .function 0 0 (some 1)] (.function 0 1 none)
      (@Kind.WellFormed.snoc [.vector 1] (.function 0 0 (some 1)) (.snoc .nil (Nat.le_refl 1)) ?_)
      ?_
    · refine ⟨by decide, by decide, ?_⟩
      rintro _ ⟨⟩
      decide
    · refine ⟨by decide, by decide, ?_⟩
      rintro _ ⟨⟩
  ascending := by decide
  functional := by
    rintro _ (_ | _)
    · exact ⟨.function 0 1 none, rfl, rfl⟩
    · contradiction

/-- A source of ones and zeros in turn. -/
def NoiseSource.alternating : NoiseSource ℚ where
  start? _ := some 0
  draw state := (if state % 2 = 0 then 1 else 0, state + 1)

namespace Model

/-- The declared function, its argument, and the argument of the result. -/
def shortenedApplication : Expression ℚ :=
  .application (.application (.term ⟨2, .primitive 0⟩) (.reference (.vector 0 [1] .anywhere)))
    (.reference (.vector 0 [2] .anywhere))

/-- An update of a function and of its result, which has been compressed and expanded. -/
theorem update_only_tightens_shortened : ∃ start m : Model ℚ,
    fresh .alternating .shortened .unspecified = .ok start ∧ start.Inverts ∧
    Progress .shortened start m ∧ m.settled.length = 2 ∧ m.pending = [] ∧
    (∃ m', (update .shortened).run m = (.ok (), m') ∧
      ∀ p, (m'.embeddings.get? p).map (·.mean) = (m.embeddings.get? p).map (·.mean)) ∧
    m.Current .shortened ∧
    ∀ p e, m.embeddings.get? p = some e → ∃ n, e.precision.shape = [n, n] ∧
      e.precision.toMatrix n n = 1 + (1 / 10 : ℚ)⁻¹ •
        squares ((m.settled.filter (·.callee = p)).map fun a ↦ m.featuresOf n a.argument) := by
  have hfacts : (fresh .alternating .shortened .unspecified).toOption.map (fun start ↦
      let m := ((shortenedApplication.evaluate .shortened).run start).2
      let r := (update .shortened).run m
      (start.elaborators.all fun row ↦ (Rational.pseudoInverse row.2).toOption.isSome,
        r.1.toOption, r.2.settled.length, r.2.pending.length)) = some (true, some (), 2, 0) := by
    decide +kernel
  obtain ⟨start, hfresh, hfacts⟩ := exists_of_map_toOption_eq_some hfacts
  simp only [Prod.mk.injEq, List.all_eq_true, toOption_eq_some_iff,
    List.length_eq_zero_iff] at hfacts
  obtain ⟨hinverses, hok, hsettled, hpending⟩ := hfacts
  have hinverts := inverts_of_forall hinverses
  have h : Progress .shortened start ((update .shortened).run
      ((shortenedApplication.evaluate .shortened).run start).2).2 :=
    .update (.evaluateExpression .start shortenedApplication) (Prod.ext hok rfl)
  exact ⟨start, _, hfresh, hinverts, h, hsettled, hpending,
    update_only_tightens hfresh hinverts h⟩

end Model

end TermEmbedding
