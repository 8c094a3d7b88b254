import TermEmbedding.Proofs.Snapshot.RoundTrip
import TermEmbedding.Session.Failure

/-!
# How models are refused

A model is put away unless a number in it is too long to be written, which is not explained to the
user. What was put away is taken up unless a vector in it is not finite. Then the text of this
vector is refused, and a text that is refused is always explained: even a numeral that is too long
counts as malformed data here.
-/

namespace TermEmbedding

namespace Snapshot

/-! ## Taking up -/

/-- Whether a failure to take up or put away a model is explained to the user. -/
def Explained (e : SnapshotError) : Prop := e.kind?.isSome = true

theorem errorsOnly_toReference (s : List CodePoint) :
    ErrorsOnly Explained (toReference (.string s)) := by
  have htext : toText (.string s) = .ok (Text.ofCodePoints s) := rfl
  rw [toReference, bind_ok htext]
  cases readReference (Text.ofCodePoints s) with
  | error e =>
    cases e with
    | numeralTooLong n => exact errorsOnly_error rfl
    | _ => exact errorsOnly_error rfl
  | ok r => exact errorsOnly_ite (errorsOnly_pure _) (errorsOnly_error rfl)

theorem errorsOnly_toPointer (s : List CodePoint) :
    ErrorsOnly Explained (toPointer (.string s)) := by
  refine (errorsOnly_toReference s).bind fun r _ ↦ ?_
  cases r with
  | function p => exact errorsOnly_pure p
  | vector t xs o => exact errorsOnly_error rfl

private theorem eq_of_ofPointer {p : TermPointer} {data : Json} (h : ofPointer p = .ok data) :
    data = .text p.text := by
  rw [ofPointer] at h
  split at h
  · cases h
    rfl
  · cases h

private theorem eq_of_ofReference {r : TermReference Float} {data : Json}
    (h : ofReference r = .ok data) : data = .text r.text := by
  rw [ofReference] at h
  split at h
  · cases h
    rfl
  · cases h

private theorem errorsOnly_toResult {row : Application Float × TermReference Float} {data : Json}
    (h : ofResult row = .ok data) : ErrorsOnly Explained (toResult data) := by
  obtain ⟨callee, hcallee, h⟩ := exists_of_bind_eq_ok h
  obtain ⟨argument, hargument, h⟩ := exists_of_bind_eq_ok h
  obtain ⟨result, hresult, h⟩ := exists_of_bind_eq_ok h
  cases h
  rw [eq_of_ofPointer hcallee, eq_of_ofReference hargument, eq_of_ofReference hresult]
  exact (errorsOnly_toPointer _).bind fun _ _ ↦ (errorsOnly_toReference _).bind
    fun _ _ ↦ (errorsOnly_toReference _).bind fun _ _ ↦ errorsOnly_pure _

/-! ## Putting away -/

private theorem errorsOnly_ofPointer (p : TermPointer) :
    ErrorsOnly (· = .unwritable) (ofPointer p) :=
  errorsOnly_ite (errorsOnly_pure _) (errorsOnly_error rfl)

private theorem errorsOnly_ofReference (r : TermReference Float) :
    ErrorsOnly (· = .unwritable) (ofReference r) :=
  errorsOnly_ite (errorsOnly_pure _) (errorsOnly_error rfl)

private theorem errorsOnly_ofTypeId (t : TypeId) : ErrorsOnly (· = .unwritable) (ofTypeId t) :=
  errorsOnly_ite (errorsOnly_pure _) (errorsOnly_error rfl)

private theorem errorsOnly_ofApplication (a : Application Float) :
    ErrorsOnly (· = .unwritable) (ofApplication a) :=
  (errorsOnly_ofPointer _).bind fun _ _ ↦ (errorsOnly_ofReference _).bind
    fun _ _ ↦ errorsOnly_pure _

private theorem errorsOnly_ofResult (row : Application Float × TermReference Float) :
    ErrorsOnly (· = .unwritable) (ofResult row) :=
  (errorsOnly_ofPointer _).bind fun _ _ ↦ (errorsOnly_ofReference _).bind fun _ _ ↦
    (errorsOnly_ofReference _).bind fun _ _ ↦ errorsOnly_pure _

private theorem errorsOnly_ofOrigins (row : TypeId × List (Application Float)) :
    ErrorsOnly (· = .unwritable) (ofOrigins row) :=
  (errorsOnly_ofTypeId _).bind fun _ _ ↦
    (errorsOnly_mapM fun a _ ↦ errorsOnly_ofApplication a).bind fun _ _ ↦ errorsOnly_pure _

/-- **A model is put away unless a number in it is too long.** -/
theorem errorsOnly_ofModel (m : Model Float) : ErrorsOnly (· = .unwritable) (ofModel m) := by
  refine (errorsOnly_mapM fun row _ ↦ errorsOnly_ofResult row).bind fun _ _ ↦ ?_
  refine (errorsOnly_mapM fun row _ ↦ errorsOnly_ofOrigins row).bind fun _ _ ↦ ?_
  refine (errorsOnly_mapM fun row _ ↦ ?_).bind fun _ _ ↦ ?_
  · exact (errorsOnly_ofPointer row.1).bind fun _ _ ↦ errorsOnly_pure _
  · refine (errorsOnly_mapM fun row _ ↦ ?_).bind fun _ _ ↦ ?_
    · exact (errorsOnly_ofTypeId row.1).bind fun _ _ ↦ errorsOnly_pure _
    · exact (errorsOnly_mapM fun a _ ↦ errorsOnly_ofApplication a).bind
        fun _ _ ↦ errorsOnly_pure _

end Snapshot

/-- **A model that was put away and cannot be taken up is refused with an explanation.** -/
theorem Model.Consistent.errorsOnly_toModel {c : Context} {m : Model Float} {s : Snapshot}
    (hm : m.Consistent c) (h : Snapshot.ofModel m = .ok s) :
    ErrorsOnly Snapshot.Explained s.toModel := by
  by_cases hfinite : m.IsFinite
  · rw [(hm.toModel_ofModel h).eq_ok hfinite]
    exact errorsOnly_pure _
  · -- a vector that is not finite stands in a row of results, which are read first
    obtain ⟨results, _, _, _, _, hresults, -, -, -, -, rfl⟩ := Snapshot.ofModel_eq_ok_iff.mp h
    have hrows : ErrorsOnly Snapshot.Explained (results.mapM Snapshot.toResult) := by
      refine errorsOnly_mapM fun data hdata ↦ ?_
      obtain ⟨row, -, hrow⟩ := exists_of_mem_of_mapM hresults hdata
      exact Snapshot.errorsOnly_toResult hrow
    exact hrows.bind fun rows hrows ↦
      absurd hrows ((hm.mapM_toResult hresults).ne_ok hfinite rows)

end TermEmbedding
