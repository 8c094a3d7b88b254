import TermEmbedding.Proofs.Json.Numerals
import TermEmbedding.Proofs.Snapshot.Arrays
import TermEmbedding.Proofs.Snapshot.Terms

/-!
# Models at rest and back

A consistent model that is put away is taken up again as it was, except that its vectors lose
their marks, if all vectors in its results are finite. With a single vector that is not, the model
that was put away cannot be taken up at all.

Nothing else can go wrong: beliefs and matrices are stored as numbers and not as text, so they may
hold anything, and no two rows become one.
-/

namespace TermEmbedding

/-! ## Finite models -/

section

variable {K : Type}

/-- Whether the argument of an application is finite. -/
def Application.IsFinite (a : Application Float) : Prop := a.argument.IsFinite

/-- Whether an application can stand in a text. -/
def Application.Readable (a : Application K) : Prop :=
  0 ≤ a.callee.typeId ∧ a.argument.Readable

/-- Whether the vectors in the results of a model are finite. -/
def Model.IsFinite (m : Model Float) : Prop :=
  ∀ row ∈ m.results, row.1.IsFinite ∧ row.2.IsFinite

end

namespace Snapshot

/-! ## Terms -/

theorem toReference_text {r : TermReference Float} (htext : r.hasText = true)
    (hr : r.Readable) : AnswersIf (toReference (.text r.text)) r.IsFinite r.unmarked := by
  have htoText : toText (.text r.text) = .ok r.text := by
    rw [Json.text, toText, Text.ofCodePoints_codePoints]
    rfl
  rw [toReference, bind_ok htoText]
  cases h : readReference r.text with
  | error e =>
    have hnot : ¬r.IsFinite := by
      intro hfinite
      have hread := (reads_readReference_text_iff htext hr).mpr ⟨hfinite, rfl, rfl⟩
      rw [h] at hread
      exact not_reads_error hread
    cases e <;> exact answersIf_error hnot _
  | ok reading =>
    obtain ⟨hfinite, hvalue, hrest⟩ :=
      (reads_readReference_text_iff htext hr).mp ⟨reading, h, rfl, rfl⟩
    dsimp only
    rw [hvalue, hrest, if_pos rfl]
    exact (answersIf_pure _).congr (iff_of_true trivial hfinite)

theorem toReference_ofReference {r : TermReference Float} {data : Json}
    (h : ofReference r = .ok data) (hr : r.Readable) :
    AnswersIf (toReference data) r.IsFinite r.unmarked := by
  rw [ofReference] at h
  split at h
  · rename_i htext
    cases h
    exact toReference_text htext hr
  · cases h

theorem toPointer_ofPointer {p : TermPointer} {data : Json} (h : ofPointer p = .ok data)
    (hp : 0 ≤ p.typeId) : AnswersIf (toPointer data) True p := by
  rw [ofPointer] at h
  split at h
  · rename_i htext
    cases h
    have hread := toReference_text (r := .function p) htext hp
    exact (hread.bind (answersIf_pure p)).congr (and_true _).to_iff
  · cases h

theorem toTypeId_ofTypeId {t : TypeId} {name : List CodePoint} (h : ofTypeId t = .ok name) :
    toTypeId name = .ok t := by
  rw [ofTypeId] at h
  split at h
  · rename_i hnumeral
    cases h
    rw [toTypeId, Json.toInteger_integerNumeral hnumeral]
    rfl
  · cases h

/-! ## Rows -/

theorem toApplication_ofApplication {a : Application Float} {data : Json}
    (h : ofApplication a = .ok data) (ha : a.Readable) :
    AnswersIf (toApplication data) a.IsFinite a.unmarked := by
  obtain ⟨callee, hcallee, h⟩ := exists_of_bind_eq_ok h
  obtain ⟨argument, hargument, h⟩ := exists_of_bind_eq_ok h
  cases h
  have hread := (toPointer_ofPointer hcallee ha.1).bind
    (f := fun p ↦ toReference argument >>= fun r ↦ pure (⟨p, r⟩ : Application Float))
    ((toReference_ofReference hargument ha.2).bind (answersIf_pure _))
  refine hread.congr ?_
  rw [true_and, and_true]
  rfl

theorem toResult_ofResult {row : Application Float × TermReference Float} {data : Json}
    (h : ofResult row = .ok data) (ha : row.1.Readable) (hr : row.2.Readable) :
    AnswersIf (toResult data) (row.1.IsFinite ∧ row.2.IsFinite)
      (row.1.unmarked, row.2.unmarked) := by
  obtain ⟨callee, hcallee, h⟩ := exists_of_bind_eq_ok h
  obtain ⟨argument, hargument, h⟩ := exists_of_bind_eq_ok h
  obtain ⟨result, hresult, h⟩ := exists_of_bind_eq_ok h
  cases h
  have hread := (toPointer_ofPointer hcallee ha.1).bind
    (f := fun p ↦ toReference argument >>= fun a ↦ toReference result >>= fun r ↦
      pure ((⟨p, a⟩ : Application Float), r))
    ((toReference_ofReference hargument ha.2).bind
      (f := fun a ↦ toReference result >>= fun r ↦
        pure ((⟨row.1.callee, a⟩ : Application Float), r))
      ((toReference_ofReference hresult hr).bind (answersIf_pure _)))
  refine hread.congr ?_
  rw [true_and, and_true]
  rfl

theorem toOrigins_ofOrigins {row : TypeId × List (Application Float)}
    {data : List CodePoint × Json} (h : ofOrigins row = .ok data) (ha : ∀ a ∈ row.2, a.Readable) :
    AnswersIf (toOrigins data) (∀ a ∈ row.2, a.IsFinite) (row.1, row.2.map (·.unmarked)) := by
  obtain ⟨name, hname, h⟩ := exists_of_bind_eq_ok h
  obtain ⟨rows, hrows, h⟩ := exists_of_bind_eq_ok h
  cases h
  rw [toOrigins, bind_ok (toTypeId_ofTypeId hname)]
  have hread := (AnswersIf.mapM _ hrows fun a hmem data hdata ↦
    toApplication_ofApplication hdata (ha a hmem)).bind
      (f := fun as ↦ pure (row.1, as)) (answersIf_pure _)
  exact hread.congr (and_true _).to_iff

theorem toEmbedding_ofEmbedding {c : Context} {row : TermPointer × Embedding Float} {data : Json}
    (h : ofEmbedding row = .ok data) {space : Context.FunctionSpace}
    (hspace : c.functionSpace row.1.typeId = .ok space) (hfits : row.2.Fits space) :
    AnswersIf (toEmbedding data) True row := by
  obtain ⟨term, hterm, h⟩ := exists_of_bind_eq_ok h
  cases h
  obtain ⟨a, r, n, harrow, hfeatures⟩ := Context.exists_arrow_of_functionSpace hspace
  have houtput : 1 ≤ space.output := Context.compressed_pos harrow.resultCompressed
  have hinput : 1 ≤ space.features := by omega
  have hmean : Tensor.ofData row.2.mean.toData = .ok row.2.mean :=
    Tensor.ofData_toData (by rw [hfits.mean]; simpa using ⟨houtput, hinput⟩)
      (by rw [hfits.mean]; simp [Tensor.axisLimit])
  have hprecision : Tensor.ofData row.2.precision.toData = .ok row.2.precision :=
    Tensor.ofData_toData (by rw [hfits.precision]; simpa using hinput)
      (by rw [hfits.precision]; simp [Tensor.axisLimit])
  change AnswersIf (toPointer term >>= fun p ↦
    liftM (Tensor.ofData row.2.mean.toData) >>= fun mean ↦
      liftM (Tensor.ofData row.2.precision.toData) >>= fun precision ↦
        pure (p, ⟨mean, precision⟩)) True row
  rw [hmean, hprecision]
  have hread := (toPointer_ofPointer hterm (Context.nonneg_of_signature harrow.signature)).bind
    (f := fun p ↦ pure (p, (⟨row.2.mean, row.2.precision⟩ : Embedding Float))) (answersIf_pure _)
  exact hread.congr (and_true _).to_iff

theorem toElaborator_ofElaborator {c : Context} {row : TypeId × Tensor Float}
    {data : List CodePoint × Json} (h : ofElaborator row = .ok data)
    (hrow : Model.IsElaborator c row.1 row.2) : AnswersIf (toElaborator data) True row := by
  obtain ⟨name, hname, h⟩ := exists_of_bind_eq_ok h
  cases h
  obtain ⟨-, n, k, hfull, hcompressed, hshape⟩ := hrow
  have hmatrix : Tensor.ofData row.2.toData = .ok row.2 :=
    Tensor.ofData_toData
      (by rw [hshape]; simpa using ⟨Context.full_pos hfull, Context.compressed_pos hcompressed⟩)
      (by rw [hshape]; simp [Tensor.axisLimit])
  rw [toElaborator, bind_ok (toTypeId_ofTypeId hname)]
  dsimp only
  rw [hmatrix]
  exact answersIf_pure row

/-! ## Tables -/

theorem ofModel_eq_ok_iff {m : Model Float} {s : Snapshot} :
    ofModel m = .ok s ↔ ∃ results origins embeddings elaborators pending,
      m.results.mapM ofResult = .ok results ∧ m.origins.mapM ofOrigins = .ok origins ∧
      m.embeddings.mapM ofEmbedding = .ok embeddings ∧
      m.elaborators.mapM ofElaborator = .ok elaborators ∧
      m.pending.mapM ofApplication = .ok pending ∧
      s = ⟨.array results, .object origins, .array embeddings, .object elaborators,
        .array pending, some m.noise⟩ := by
  constructor
  · intro h
    obtain ⟨results, hresults, h⟩ := exists_of_bind_eq_ok h
    obtain ⟨origins, horigins, h⟩ := exists_of_bind_eq_ok h
    obtain ⟨embeddings, hembeddings, h⟩ := exists_of_bind_eq_ok h
    obtain ⟨elaborators, helaborators, h⟩ := exists_of_bind_eq_ok h
    obtain ⟨pending, hpending, h⟩ := exists_of_bind_eq_ok h
    cases h
    exact ⟨_, _, _, _, _, hresults, horigins, hembeddings, helaborators, hpending, rfl⟩
  · rintro ⟨_, _, _, _, _, hresults, horigins, hembeddings, helaborators, hpending, rfl⟩
    rw [ofModel, bind_ok hresults, bind_ok horigins, bind_ok hembeddings, bind_ok helaborators,
      bind_ok hpending]
    rfl

theorem isEmpty_ofModel {m : Model Float} {s : Snapshot} (h : ofModel m = .ok s) :
    s.isEmpty = false := by
  obtain ⟨_, _, _, _, _, -, -, -, -, -, rfl⟩ := ofModel_eq_ok_iff.mp h
  exact Bool.and_false _

end Snapshot

/-! ## What is written can be read -/

namespace Model

section

variable {K : Type} [BEq K] {c : Context} {m : Model K}

theorem Denotes.readable (hm : Consistent c m) {r : TermReference K} (h : m.Denotes c r) :
    r.Readable := by
  cases r with
  | function p =>
    obtain ⟨e, a, r, n, k, -, harrow, -⟩ := hm.exists_mean h
    exact Context.nonneg_of_signature harrow.signature
  | vector t xs o =>
    obtain ⟨i, -, rfl, -, -⟩ := Context.exists_of_full h
    refine ⟨Int.natCast_nonneg i, ?_⟩
    rintro rfl
    exact Nat.not_succ_le_zero 0 (Context.full_pos h)

theorem TypedRow.readable (hm : Consistent c m) {row : Application K × TermReference K}
    (h : m.TypedRow c row) : row.1.Readable ∧ row.2.Readable :=
  ⟨⟨Denotes.readable (r := .function row.1.callee) hm h.callee, h.argument.readable hm⟩,
    h.result.denotes.readable hm⟩

theorem Consistent.exists_of_origin (hm : Consistent c m) {row : TypeId × List (Application K)}
    (hrow : row ∈ m.origins) {a : Application K} (ha : a ∈ row.2) : ∃ r, (a, r) ∈ m.results := by
  obtain ⟨j, hj⟩ := List.mem_iff_getElem?.mp ha
  refine ⟨_, (hm.origins row.1 j a).mp ?_⟩
  rw [originsOf, Table.get?_of_mem hm.originsOnce hrow]
  exact hj

theorem Consistent.exists_of_pending (hm : Consistent c m) {a : Application K}
    (ha : a ∈ m.pending) : ∃ r, (a, r) ∈ m.results := by
  obtain ⟨row, hrow, rfl⟩ := List.mem_map.mp (hm.pending.subset ha)
  exact ⟨row.2, hrow⟩

end

end Model

namespace Model

variable {c : Context} {m : Model Float}

/-- Results come back if they are finite, and these are all the vectors of a model that are read. -/
theorem Consistent.mapM_toResult (hm : Consistent c m) {rows : List Json}
    (h : m.results.mapM Snapshot.ofResult = .ok rows) :
    AnswersIf (rows.mapM Snapshot.toResult) m.IsFinite m.unmarked.results :=
  AnswersIf.mapM _ h fun row hrow _ hdata ↦
    Snapshot.toResult_ofResult hdata ((hm.results row hrow).readable hm).1
      ((hm.results row hrow).readable hm).2

private theorem Consistent.mapM_toOrigins (hm : Consistent c m) (hfinite : m.IsFinite)
    {rows : List (List CodePoint × Json)} (h : m.origins.mapM Snapshot.ofOrigins = .ok rows) :
    rows.mapM Snapshot.toOrigins = .ok m.unmarked.origins := by
  have hread := AnswersIf.mapM _ h fun row hrow data hdata ↦
    Snapshot.toOrigins_ofOrigins hdata fun a ha ↦ by
      obtain ⟨r, hr⟩ := hm.exists_of_origin hrow ha
      exact ((hm.results _ hr).readable hm).1
  refine hread.eq_ok fun row hrow a ha ↦ ?_
  obtain ⟨r, hr⟩ := hm.exists_of_origin hrow ha
  exact (hfinite _ hr).1

private theorem Consistent.mapM_toEmbedding (hm : Consistent c m) {rows : List Json}
    (h : m.embeddings.mapM Snapshot.ofEmbedding = .ok rows) :
    rows.mapM Snapshot.toEmbedding = .ok m.embeddings := by
  have hread := AnswersIf.mapM id h fun row hrow data hdata ↦ by
    obtain ⟨space, hspace, hfits⟩ := hm.beliefs row hrow
    exact Snapshot.toEmbedding_ofEmbedding hdata hspace hfits
  rw [hread.eq_ok fun _ _ ↦ trivial, List.map_id]

private theorem Consistent.mapM_toElaborator (hm : Consistent c m)
    {rows : List (List CodePoint × Json)}
    (h : m.elaborators.mapM Snapshot.ofElaborator = .ok rows) :
    rows.mapM Snapshot.toElaborator = .ok m.elaborators := by
  have hread := AnswersIf.mapM id h fun row hrow data hdata ↦
    Snapshot.toElaborator_ofElaborator hdata (hm.elaboratorsOnly row hrow)
  rw [hread.eq_ok fun _ _ ↦ trivial, List.map_id]

private theorem Consistent.mapM_toApplication (hm : Consistent c m) (hfinite : m.IsFinite)
    {rows : List Json} (h : m.pending.mapM Snapshot.ofApplication = .ok rows) :
    rows.mapM Snapshot.toApplication = .ok m.unmarked.pending := by
  have hread := AnswersIf.mapM _ h fun a ha data hdata ↦
    Snapshot.toApplication_ofApplication hdata (by
      obtain ⟨r, hr⟩ := hm.exists_of_pending ha
      exact ((hm.results _ hr).readable hm).1)
  refine hread.eq_ok fun a ha ↦ ?_
  obtain ⟨r, hr⟩ := hm.exists_of_pending ha
  exact (hfinite _ hr).1

/-- **A model that is put away comes back without its marks if its vectors are finite, and otherwise
not at all.** -/
theorem Consistent.toModel_ofModel (hm : Consistent c m) {s : Snapshot}
    (h : Snapshot.ofModel m = .ok s) : AnswersIf s.toModel m.IsFinite m.unmarked := by
  obtain ⟨results, origins, embeddings, elaborators, pending, hresults, horigins, hembeddings,
    helaborators, hpending, rfl⟩ := Snapshot.ofModel_eq_ok_iff.mp h
  change AnswersIf (results.mapM Snapshot.toResult >>= fun results ↦
    origins.mapM Snapshot.toOrigins >>= fun origins ↦
      embeddings.mapM Snapshot.toEmbedding >>= fun embeddings ↦
        elaborators.mapM Snapshot.toElaborator >>= fun elaborators ↦
          pending.mapM Snapshot.toApplication >>= fun pending ↦
            pure ⟨.ofRows results, .ofRows origins, .ofRows embeddings, .ofRows elaborators,
              pending, m.noise⟩) m.IsFinite m.unmarked
  have hread := hm.mapM_toResult hresults
  by_cases hfinite : m.IsFinite
  · -- the rows are told apart without their marks as well, so no row replaces another one
    rw [bind_ok (hread.eq_ok hfinite), bind_ok (hm.mapM_toOrigins hfinite horigins),
      bind_ok (hm.mapM_toEmbedding hembeddings), bind_ok (hm.mapM_toElaborator helaborators),
      bind_ok (hm.mapM_toApplication hfinite hpending), Table.ofRows_eq hm.pairwise_unmarked,
      Table.ofRows_eq (Table.pairwise_of_nodup hm.nodup_unmarked),
      Table.ofRows_eq (Table.pairwise_of_nodup hm.termsOnce),
      Table.ofRows_eq (Table.pairwise_of_nodup hm.elaboratorsOnce)]
    exact (answersIf_pure m.unmarked).congr (iff_of_true trivial hfinite)
  · cases herror : results.mapM Snapshot.toResult with
    | error e => exact answersIf_error hfinite _
    | ok rows => exact absurd herror (hread.ne_ok hfinite rows)

end Model

end TermEmbedding
