import TermEmbedding.Proofs.Model.Noiseless
import TermEmbedding.Proofs.Snapshot.RoundTrip

/-!
# What is written of a model

The marks of vectors are not written, and the state of the source of noise stands apart from
everything else. Whether a model can be put away at all is a question of the terms that it names, so
beliefs may change without bringing it about that it cannot.
-/

namespace TermEmbedding

namespace Snapshot

def withNoise (s : Snapshot) (state : Int) : Snapshot := { s with noise := some state }

/-! ## Marks -/

theorem ofReference_unmarked (r : TermReference Float) :
    ofReference r.unmarked = ofReference r := by
  cases r <;> rfl

theorem ofApplication_unmarked (a : Application Float) :
    ofApplication a.unmarked = ofApplication a := by
  rw [ofApplication, ofApplication, Application.unmarked, ofReference_unmarked]

theorem ofResult_unmarked (row : Application Float × TermReference Float) :
    ofResult (row.1.unmarked, row.2.unmarked) = ofResult row := by
  rw [ofResult, ofResult, Application.unmarked, ofReference_unmarked, ofReference_unmarked]

theorem ofOrigins_unmarked (row : TypeId × List (Application Float)) :
    ofOrigins (row.1, row.2.map (·.unmarked)) = ofOrigins row := by
  simp only [ofOrigins, mapM_map, ofApplication_unmarked]

/-- **A model is written as it is without its marks.** -/
theorem ofModel_unmarked (m : Model Float) : ofModel m.unmarked = ofModel m := by
  simp only [ofModel, Model.unmarked, mapM_map, ofResult_unmarked, ofOrigins_unmarked,
    ofApplication_unmarked]

/-! ## The state of the source of noise -/

theorem noise_ofModel {m : Model Float} {s : Snapshot} (h : ofModel m = .ok s) :
    s.noise = some m.noise := by
  obtain ⟨_, _, _, _, _, -, -, -, -, -, rfl⟩ := ofModel_eq_ok_iff.mp h
  rfl

@[simp] theorem withNoise_withNoise (s : Snapshot) (before after : Int) :
    (s.withNoise before).withNoise after = s.withNoise after := rfl

theorem withNoise_self {s : Snapshot} {state : Int} (h : s.noise = some state) :
    s.withNoise state = s := by
  rw [withNoise, ← h]

theorem ofModel_withNoise (m : Model Float) (state : Int) :
    ofModel (m.withNoise state) = (ofModel m).map (·.withNoise state) := by
  simp only [ofModel, map_of_bind]
  rfl

theorem toModel_withNoise {s : Snapshot} {before : Int} (h : s.noise = some before) (state : Int) :
    (s.withNoise state).toModel = s.toModel.map (·.withNoise state) := by
  rw [toModel, toModel, h]
  simp only [withNoise, map_of_bind]
  rfl

/-! ## Other beliefs -/

/-- Whether every row of a model can be put away. -/
structure Writable (m : Model Float) : Prop where
  results : ∀ row ∈ m.results, ∃ data, ofResult row = .ok data
  origins : ∀ row ∈ m.origins, ∃ data, ofOrigins row = .ok data
  embeddings : ∀ row ∈ m.embeddings, ∃ data, ofEmbedding row = .ok data
  elaborators : ∀ row ∈ m.elaborators, ∃ data, ofElaborator row = .ok data
  pending : ∀ a ∈ m.pending, ∃ data, ofApplication a = .ok data

theorem exists_ofModel_iff_writable {m : Model Float} :
    (∃ s, ofModel m = .ok s) ↔ Writable m := by
  constructor
  · rintro ⟨s, h⟩
    obtain ⟨_, _, _, _, _, hresults, horigins, hembeddings, helaborators, hpending, -⟩ :=
      ofModel_eq_ok_iff.mp h
    exact ⟨exists_mapM_eq_ok_iff.mp ⟨_, hresults⟩, exists_mapM_eq_ok_iff.mp ⟨_, horigins⟩,
      exists_mapM_eq_ok_iff.mp ⟨_, hembeddings⟩, exists_mapM_eq_ok_iff.mp ⟨_, helaborators⟩,
      exists_mapM_eq_ok_iff.mp ⟨_, hpending⟩⟩
  · intro h
    obtain ⟨results, hresults⟩ := exists_mapM_eq_ok_iff.mpr h.results
    obtain ⟨origins, horigins⟩ := exists_mapM_eq_ok_iff.mpr h.origins
    obtain ⟨embeddings, hembeddings⟩ := exists_mapM_eq_ok_iff.mpr h.embeddings
    obtain ⟨elaborators, helaborators⟩ := exists_mapM_eq_ok_iff.mpr h.elaborators
    obtain ⟨pending, hpending⟩ := exists_mapM_eq_ok_iff.mpr h.pending
    exact ⟨_, ofModel_eq_ok_iff.mpr ⟨results, origins, embeddings, elaborators, pending, hresults,
      horigins, hembeddings, helaborators, hpending, rfl⟩⟩

theorem exists_ofEmbedding_iff (row : TermPointer × Embedding Float) :
    (∃ data, ofEmbedding row = .ok data) ↔ ∃ term, ofPointer row.1 = .ok term := by
  constructor
  · rintro ⟨data, h⟩
    obtain ⟨term, hterm, -⟩ := exists_of_bind_eq_ok h
    exact ⟨term, hterm⟩
  · rintro ⟨term, hterm⟩
    rw [ofEmbedding, bind_ok hterm]
    exact ⟨_, rfl⟩

/-- **A model can be put away with other beliefs about its terms**, and with less that is pending,
if it can be put away at all. -/
theorem exists_ofModel_of_beliefs {m : Model Float} {s : Snapshot} (h : ofModel m = .ok s)
    {embeddings : Table TermPointer (Embedding Float)} {pending : List (Application Float)}
    (hterms : embeddings.map (·.1) = m.embeddings.map (·.1)) (hpending : pending ⊆ m.pending) :
    ∃ s', ofModel { m with embeddings := embeddings, pending := pending } = .ok s' := by
  have hwritable := exists_ofModel_iff_writable.mp ⟨s, h⟩
  refine exists_ofModel_iff_writable.mpr ⟨hwritable.results, hwritable.origins, ?_,
    hwritable.elaborators, fun a ha ↦ hwritable.pending a (hpending ha)⟩
  -- there was a belief about the same term, and it was written
  intro row hrow
  have hkey : row.1 ∈ m.embeddings.map (·.1) := hterms ▸ List.mem_map.mpr ⟨row, hrow, rfl⟩
  obtain ⟨row', hrow', hsame⟩ := List.mem_map.mp hkey
  rw [exists_ofEmbedding_iff, ← hsame, ← exists_ofEmbedding_iff]
  exact hwritable.embeddings row' hrow'

end Snapshot

end TermEmbedding
