import TermEmbedding.Proofs.Expression.Numerals
import TermEmbedding.Proofs.Snapshot.Faults

/-!
# Snapshots that are refused without being reported

Whoever writes a snapshot by hand may put any text in the place of a term or of the number of a
type, and any data in the place of an array. What is wrong with it is reported as malformed data,
with two exceptions: a text that does not begin like a term is refused with the fault of the reader
of terms, and an integer in an array that is larger than every number is a fault of its own. Texts
that go on behind a term, vectors where a function is needed, and numerals that are too long are all
reported.

## Places

A snapshot has its places in one order, in which they are read up to the first one that is not
read. So a snapshot is refused as the first place is that is refused, and it is enough to say of
each kind of place what is refused there and how.
-/

namespace TermEmbedding

namespace Tensor

mutual

/-- The values in nested lists that are no lists, from the left. -/
def leaves : Json → List Json
  | .array items => leavesOfAll items
  | scalar => [scalar]

def leavesOfAll : List Json → List Json
  | [] => []
  | item :: items => leaves item ++ leavesOfAll items

end

mutual

theorem entriesOf_eq_mapM (data : Json) : entriesOf data = (leaves data).mapM ofScalar := by
  cases data with
  | array items => exact entriesOfAll_eq_mapM items
  | _ => rfl

theorem entriesOfAll_eq_mapM (items : List Json) :
    entriesOfAll items = (leavesOfAll items).mapM ofScalar := by
  cases items with
  | nil => rfl
  | cons item items =>
    rw [entriesOfAll, leavesOfAll, List.mapM_append, entriesOf_eq_mapM item,
      entriesOfAll_eq_mapM items]

end

end Tensor

namespace Snapshot

/-! ## What stands in a snapshot -/

/-- Texts for the places of terms and of the numbers of types, and any data for the arrays. A row
has as many texts as somebody has put into it. -/
structure Filling where
  /-- Rows of a function, an argument and a result. -/
  results : List (List (List CodePoint))
  /-- Rows of a function and an argument for the number of a type. -/
  origins : List (List CodePoint × List (List (List CodePoint)))
  /-- A term with the mean and the precision of the belief about it. -/
  embeddings : List (List CodePoint × Json × Json)
  /-- An array for the number of a type. -/
  elaborators : List (List CodePoint × Json)
  /-- Rows of a function and an argument. -/
  pending : List (List (List CodePoint))
  /-- The state of the source of noise. -/
  noise : Int

/-- A place of a snapshot with what stands there. -/
inductive Place where
  /-- A row that has more or fewer texts than it has to have. -/
  | badRow
  /-- The text of a function term. -/
  | pointer (s : List CodePoint)
  /-- The text of a reference. -/
  | reference (s : List CodePoint)
  /-- The number of a type. -/
  | typeId (s : List CodePoint)
  /-- An array. -/
  | array (data : Json)

namespace Filling

/-- Rows of texts as data. -/
def ofRows (rows : List (List (List CodePoint))) : Json :=
  .array (rows.map fun row ↦ .array (row.map .string))

/-- Rows with the number of a type as a member of an object. -/
def ofOrigins (origins : List CodePoint × List (List (List CodePoint))) :
    List CodePoint × Json :=
  (origins.1, ofRows origins.2)

/-- A term with its mean and its precision as data. -/
def ofEmbedding (entry : List CodePoint × Json × Json) : Json :=
  .object [(Json.name "term", .string entry.1), (Json.name "mean", entry.2.1),
    (Json.name "precision", entry.2.2)]

/-- The snapshot that is filled in this way. -/
def snapshot (f : Filling) : Snapshot where
  results := ofRows f.results
  origins := .object (f.origins.map ofOrigins)
  embeddings := .array (f.embeddings.map ofEmbedding)
  elaborators := .object f.elaborators
  pending := ofRows f.pending
  noise := some f.noise

def applicationPlaces : List (List CodePoint) → List Place
  | [callee, argument] => [.pointer callee, .reference argument]
  | _ => [.badRow]

def resultPlaces : List (List CodePoint) → List Place
  | [callee, argument, result] => [.pointer callee, .reference argument, .reference result]
  | _ => [.badRow]

def originPlaces (origins : List CodePoint × List (List (List CodePoint))) : List Place :=
  .typeId origins.1 :: origins.2.flatMap applicationPlaces

def embeddingPlaces (entry : List CodePoint × Json × Json) : List Place :=
  [.pointer entry.1, .array entry.2.1, .array entry.2.2]

def elaboratorPlaces (entry : List CodePoint × Json) : List Place :=
  [.typeId entry.1, .array entry.2]

/-- The places of a snapshot in the order in which they are read. -/
def places (f : Filling) : List Place :=
  f.results.flatMap resultPlaces ++ (f.origins.flatMap originPlaces ++
    (f.embeddings.flatMap embeddingPlaces ++ (f.elaborators.flatMap elaboratorPlaces ++
      f.pending.flatMap applicationPlaces)))

end Filling

/-! ## Reading places one after the other -/

def Place.check : Place → Except SnapshotError Unit
  | badRow => throw (.malformed .value)
  | pointer s => discard (toPointer (.string s))
  | reference s => discard (toReference (.string s))
  | typeId s => discard (toTypeId s)
  | array data => discard (liftM (Tensor.ofData data) : Except SnapshotError (Tensor Float))

/-- A computation that reads the given places, and cannot fail otherwise. -/
def Checks {α : Type} (x : Except SnapshotError α) (ps : List Place) : Prop :=
  discard x = forM ps Place.check

section

variable {α β : Type} {x : Except SnapshotError α} {f : α → Except SnapshotError β}
  {ps qs : List Place}

private theorem checks_pure (a : α) : Checks (pure a : Except SnapshotError α) [] := rfl

theorem Checks.bind (hx : Checks x ps) (hf : ∀ a, Checks (f a) qs) :
    Checks (x >>= f) (ps ++ qs) := by
  rw [Checks, List.forM_append, ← hx]
  cases x with
  | error e => rfl
  | ok a => exact hf a

theorem Checks.bind_pure (hx : Checks x ps) (f : α → β) : Checks (x >>= fun a ↦ pure (f a)) ps := by
  rw [← List.append_nil ps]
  exact hx.bind fun a ↦ checks_pure (f a)

theorem Checks.mapM {γ : Type} {f : γ → Except SnapshotError β} {places : γ → List Place}
    (h : ∀ c, Checks (f c) (places c)) (cs : List γ) :
    Checks (cs.mapM f) (cs.flatMap places) := by
  induction cs with
  | nil => exact checks_pure []
  | cons c cs ih =>
    rw [List.mapM_cons, List.flatMap_cons]
    exact (h c).bind fun _ ↦ ih.bind_pure _

end

section

variable (s : List CodePoint) (row : List (List CodePoint))

private theorem checks_place {α : Type} {x : Except SnapshotError α} {p : Place}
    (h : discard x = p.check) : Checks x [p] := by
  rw [Checks, List.forM_cons, List.forM_nil, h]
  exact (bind_pure _).symm

private theorem checks_toPointer : Checks (toPointer (.string s)) [.pointer s] := checks_place rfl

private theorem checks_toReference :
    Checks (toReference (.string s)) [.reference s] := checks_place rfl

private theorem checks_toTypeId : Checks (toTypeId s) [.typeId s] := checks_place rfl

private theorem checks_ofData (data : Json) :
    Checks (liftM (Tensor.ofData data) : Except SnapshotError (Tensor Float)) [.array data] :=
  checks_place rfl

private theorem checks_badRow {α : Type} :
    Checks (throw (.malformed .value) : Except SnapshotError α) [.badRow] := checks_place rfl

private theorem checks_toApplication :
    Checks (toApplication (.array (row.map .string))) (Filling.applicationPlaces row) := by
  rcases row with _ | ⟨callee, _ | ⟨argument, _ | ⟨_, _⟩⟩⟩
  · exact checks_badRow
  · exact checks_badRow
  · exact (checks_toPointer callee).bind fun _ ↦ (checks_toReference argument).bind_pure _
  · exact checks_badRow

private theorem checks_toResult :
    Checks (toResult (.array (row.map .string))) (Filling.resultPlaces row) := by
  rcases row with _ | ⟨callee, _ | ⟨argument, _ | ⟨result, _ | ⟨_, _⟩⟩⟩⟩
  · exact checks_badRow
  · exact checks_badRow
  · exact checks_badRow
  · exact (checks_toPointer callee).bind fun _ ↦ (checks_toReference argument).bind fun _ ↦
      (checks_toReference result).bind_pure _
  · exact checks_badRow

end

private theorem checks_rows {β : Type} {f : Json → Except SnapshotError β}
    {places : List (List CodePoint) → List Place}
    (h : ∀ row, Checks (f (.array (row.map .string))) (places row))
    (rows : List (List (List CodePoint))) :
    Checks ((rows.map fun row ↦ .array (row.map .string)).mapM f) (rows.flatMap places) := by
  rw [mapM_map]
  exact Checks.mapM h rows

private theorem checks_toOrigins (origins : List CodePoint × List (List (List CodePoint))) :
    Checks (toOrigins (Filling.ofOrigins origins)) (Filling.originPlaces origins) :=
  (checks_toTypeId origins.1).bind fun _ ↦
    (checks_rows checks_toApplication origins.2).bind_pure _

private theorem checks_toEmbedding (entry : List CodePoint × Json × Json) :
    Checks (toEmbedding (Filling.ofEmbedding entry)) (Filling.embeddingPlaces entry) :=
  (checks_toPointer entry.1).bind fun _ ↦ (checks_ofData entry.2.1).bind fun _ ↦
    (checks_ofData entry.2.2).bind_pure _

private theorem checks_toElaborator (entry : List CodePoint × Json) :
    Checks (toElaborator entry) (Filling.elaboratorPlaces entry) :=
  (checks_toTypeId entry.1).bind fun _ ↦ (checks_ofData entry.2).bind_pure _

/-- **A snapshot is read place by place.** -/
theorem checks_toModel (f : Filling) : Checks f.snapshot.toModel f.places := by
  have horigins := Checks.mapM checks_toOrigins f.origins
  rw [← mapM_map Filling.ofOrigins toOrigins] at horigins
  have hembeddings := Checks.mapM checks_toEmbedding f.embeddings
  rw [← mapM_map Filling.ofEmbedding toEmbedding] at hembeddings
  exact (checks_rows checks_toResult f.results).bind fun _ ↦ horigins.bind fun _ ↦
    hembeddings.bind fun _ ↦ (Checks.mapM checks_toElaborator f.elaborators).bind fun _ ↦
      (checks_rows checks_toApplication f.pending).bind_pure _

/-! ## Terms -/

/-- The text of a term that does not begin with a reference, and not for a numeral that is too
long. -/
structure IsUnreadable (s : List CodePoint) : Prop where
  noReference : ∀ c rest r, Text.ofCodePoints s = c ++ rest → ¬IsReference c rest r
  noLongNumeral : ¬HasLongNumeral (Text.ofCodePoints s)

/-- Everything that a reference can be refused for but a numeral that is too long is passed on. -/
private theorem isParsing_toReference_iff {s : List CodePoint} :
    (∃ e, toReference (.string s) = .error e ∧ e.kind? = some .parsing) ↔ IsUnreadable s := by
  have htext : toText (.string s) = .ok (Text.ofCodePoints s) := rfl
  have hlong := @meetsLongNumeral_readReference_iff (Text.ofCodePoints s)
  rw [toReference, bind_ok htext]
  rcases hread : readReference (Text.ofCodePoints s) with e | r
  · have hno : ∀ c rest r, Text.ofCodePoints s = c ++ rest → ¬IsReference c rest r := by
      intro c rest r hc href
      obtain ⟨r', hr', -⟩ := reads_readReference_iff.mpr ⟨c, hc, href⟩
      rw [hread] at hr'
      cases hr'
    rw [hread] at hlong
    cases e with
    | numeralTooLong n =>
      exact iff_of_false (by rintro ⟨_, ⟨⟩, ⟨⟩⟩) fun h ↦ h.noLongNumeral (hlong.mp ⟨n, rfl⟩)
    | _ =>
      refine iff_of_true ⟨_, rfl, rfl⟩ ⟨hno, fun h ↦ ?_⟩
      obtain ⟨n, ⟨⟩⟩ := hlong.mpr h
  · obtain ⟨c, hc, href⟩ := reads_readReference_iff.mp ⟨r, hread, rfl, rfl⟩
    refine iff_of_false ?_ fun h ↦ h.noReference c _ _ hc href
    rintro ⟨e, h, he⟩
    dsimp only at h
    split at h
    · cases h
    · cases h
      cases he

private theorem isParsing_toPointer_iff {s : List CodePoint} :
    (∃ e, toPointer (.string s) = .error e ∧ e.kind? = some .parsing) ↔ IsUnreadable s := by
  rw [← isParsing_toReference_iff, toPointer]
  rcases toReference (.string s) with e | r
  · refine exists_congr fun e' ↦ and_congr_left' ⟨?_, ?_⟩
    · rintro ⟨⟩
      rfl
    · rintro ⟨⟩
      rfl
  · refine iff_of_false ?_ (by rintro ⟨e, ⟨⟩, -⟩)
    rintro ⟨e, h, he⟩
    cases r with
    | function p => cases h
    | vector t xs o =>
      cases h
      cases he

/-! ## Arrays -/

/-- An integer whose nearest number is infinite. -/
def IsTooLarge (v : Json) : Prop :=
  ∃ i, v = .integer i ∧ (Decimal.scaled i.natAbs (numeral i.natAbs).length 0).isInf = true

/-- An array of a regular shape in which the first entry that is not read is an integer that is too
large. -/
structure IsUnbounded (data : Json) : Prop where
  regular : ∃ shape, Tensor.shapeOf? data = some shape ∧ shape.length ≤ Tensor.axisLimit
  first : First (fun v ↦ ∃ x, Tensor.ofScalar v = .ok x) IsTooLarge (Tensor.leaves data)

private theorem ofScalar_eq_unbounded_iff {v : Json} :
    Tensor.ofScalar v = .error .unbounded ↔ IsTooLarge v := by
  cases v with
  | integer i =>
    rw [Tensor.ofScalar]
    by_cases hinf : (Decimal.scaled i.natAbs (numeral i.natAbs).length 0).isInf = true
    · rw [if_pos hinf]
      exact iff_of_true rfl ⟨i, rfl, hinf⟩
    · rw [if_neg hinf]
      exact iff_of_false (by rintro ⟨⟩) (by rintro ⟨_, ⟨⟩, h⟩; exact hinf h)
  | string s =>
    rw [Tensor.ofScalar]
    refine iff_of_false ?_ (by rintro ⟨i, ⟨⟩, -⟩)
    split
    · rintro ⟨⟩
    · rintro ⟨⟩
  | _ => exact iff_of_false (by rintro ⟨⟩) (by rintro ⟨i, ⟨⟩, -⟩)

private theorem ofData_eq_unbounded_iff {data : Json} :
    Tensor.ofData data = .error .unbounded ↔ IsUnbounded data := by
  rw [Tensor.ofData]
  cases hshape : (Tensor.shapeOf? data).filter (·.length ≤ Tensor.axisLimit) with
  | none =>
    refine iff_of_false (by rintro ⟨⟩) ?_
    rintro ⟨⟨shape, hdata, hlimit⟩, -⟩
    rw [hdata, Option.filter_some_pos (by simpa using hlimit)] at hshape
    cases hshape
  | some shape =>
    obtain ⟨hdata, hlimit⟩ := Option.filter_eq_some_iff.mp hshape
    dsimp only
    rw [Tensor.entriesOf_eq_mapM, bind_eq_error_iff, mapM_eq_error_iff, or_iff_left]
    · simp only [ofScalar_eq_unbounded_iff]
      exact ⟨fun h ↦ ⟨⟨shape, hdata, by simpa using hlimit⟩, h⟩, fun h ↦ h.first⟩
    · rintro ⟨entries, -, h⟩
      split at h
      · cases h
      · cases h

private theorem errorsOnly_ofData (data : Json) :
    ErrorsOnly (fun d ↦ d = .value ∨ d = .kind ∨ d = .unbounded) (Tensor.ofData data) := by
  rw [Tensor.ofData]
  split
  · exact errorsOnly_error (.inl rfl)
  · rw [Tensor.entriesOf_eq_mapM]
    refine (errorsOnly_mapM fun v _ ↦ ?_).bind fun entries _ ↦ ?_
    · cases v with
      | integer i =>
        rw [Tensor.ofScalar]
        exact errorsOnly_ite (errorsOnly_error (.inr (.inr rfl))) (errorsOnly_pure _)
      | string s =>
        rw [Tensor.ofScalar]
        split
        · exact errorsOnly_pure _
        · exact errorsOnly_error (.inl rfl)
      | array | object => exact errorsOnly_error (.inr (.inl rfl))
      | null | bool | number => exact errorsOnly_pure _
    · split
      · exact errorsOnly_pure _
      · exact errorsOnly_error (.inl rfl)

/-! ## Places -/

/-- How a computation fails without its failure being reported, and that it does so in no other
way. -/
private structure Refuses {α : Type} (x : Except SnapshotError α) (unreadable unbounded : Prop) :
    Prop where
  parsing : (∃ e, x = .error e ∧ e.kind? = some .parsing) ↔ unreadable
  fault : x = .error (.fault .unbounded) ↔ unbounded
  others : ∀ e, x = .error e → e.kind? = some .definition ∨ e.kind? = some .parsing ∨
    e = .fault .unbounded

section

variable {α β : Type} {x : Except SnapshotError α}

private theorem kind?_of_explained {e : SnapshotError} (h : Explained e) :
    e.kind? = some .definition ∨ e.kind? = some .parsing := by
  cases e with
  | noModel | malformed => exact .inl rfl
  | unreadable error =>
    rw [Explained, SnapshotError.kind?, ReadError.kind?.eq_def] at h
    rw [SnapshotError.kind?, ReadError.kind?.eq_def]
    split at h
    · cases h
    · exact .inr rfl
  | fault | unwritable => cases h

private theorem refuses_of_explained (h : ErrorsOnly Explained x) :
    Refuses x (∃ e, x = .error e ∧ e.kind? = some .parsing) False := by
  refine ⟨Iff.rfl, iff_of_false (fun hx ↦ ?_) id, fun e he ↦ ?_⟩
  · cases h _ hx
  · rcases kind?_of_explained (h e he) with hkind | hkind
    · exact .inl hkind
    · exact .inr (.inl hkind)

private theorem refuses_of_definition (h : ErrorsOnly (·.kind? = some .definition) x) :
    Refuses x False False := by
  refine ⟨iff_of_false ?_ id, iff_of_false (fun hx ↦ ?_) id, fun e he ↦ .inl (h e he)⟩
  · rintro ⟨e, he, hkind⟩
    rw [h e he] at hkind
    cases hkind
  · cases h _ hx

private theorem discard_eq_error_iff {e : SnapshotError} : discard x = .error e ↔ x = .error e := by
  rcases x with e' | a
  · constructor
    · rintro ⟨⟩
      rfl
    · rintro ⟨⟩
      rfl
  · exact iff_of_false (by rintro ⟨⟩) (by rintro ⟨⟩)

private theorem Refuses.discard {P Q : Prop} (h : Refuses x P Q) : Refuses (discard x) P Q := by
  refine ⟨?_, ?_, fun e he ↦ h.others e (discard_eq_error_iff.mp he)⟩
  · simp only [discard_eq_error_iff]
    exact h.parsing
  · rw [discard_eq_error_iff]
    exact h.fault

end

private theorem refuses_toTypeId (s : List CodePoint) : Refuses (toTypeId s) False False := by
  apply refuses_of_definition
  rw [toTypeId, Json.toInteger]
  split
  · exact errorsOnly_pure _
  · exact errorsOnly_error rfl

private theorem ofFault_eq_unbounded_iff {d : DataFault} :
    SnapshotError.ofFault d = .fault .unbounded ↔ d = .unbounded := by
  cases d with
  | unbounded => exact iff_of_true rfl rfl
  | _ => exact iff_of_false (by rintro ⟨⟩) (by rintro ⟨⟩)

private theorem refuses_ofData (data : Json) :
    Refuses (liftM (Tensor.ofData data) : Except SnapshotError (Tensor Float)) False
      (IsUnbounded data) := by
  have herrors : ErrorsOnly (fun e ↦ e.kind? = some .definition ∨ e = .fault .unbounded)
      (liftM (Tensor.ofData data) : Except SnapshotError (Tensor Float)) := by
    refine errorsOnly_mapError fun d hd ↦ ?_
    rcases errorsOnly_ofData data d hd with rfl | rfl | rfl
    · exact .inl rfl
    · exact .inl rfl
    · exact .inr rfl
  refine ⟨iff_of_false ?_ id, ?_, fun e he ↦ ?_⟩
  · rintro ⟨e, he, hkind⟩
    rcases herrors e he with h | rfl
    · rw [h] at hkind
      cases hkind
    · cases hkind
  · rw [← ofData_eq_unbounded_iff]
    rcases Tensor.ofData data with d | t
    · change Except.error (SnapshotError.ofFault d) = _ ↔ _
      rw [Except.error.injEq, ofFault_eq_unbounded_iff, Except.error.injEq]
    · exact iff_of_false (by rintro ⟨⟩) (by rintro ⟨⟩)
  · rcases herrors e he with h | rfl
    · exact .inl h
    · exact .inr (.inr rfl)

/-- A place with the text of a term that is refused as an expression. -/
def Place.IsUnreadable : Place → Prop
  | pointer s | reference s => Snapshot.IsUnreadable s
  | _ => False

/-- A place with an array that is refused for an integer that is too large. -/
def Place.IsUnbounded : Place → Prop
  | array data => Snapshot.IsUnbounded data
  | _ => False

/-- A place is read. -/
def Place.IsRead (p : Place) : Prop := p.check = .ok ()

private theorem Place.refuses_check (p : Place) : Refuses p.check p.IsUnreadable p.IsUnbounded := by
  cases p with
  | badRow => exact refuses_of_definition (errorsOnly_error rfl)
  | typeId s => exact (refuses_toTypeId s).discard
  | array data => exact (refuses_ofData data).discard
  | pointer s =>
    have h := refuses_of_explained (errorsOnly_toPointer s)
    rw [isParsing_toPointer_iff] at h
    exact h.discard
  | reference s =>
    have h := refuses_of_explained (errorsOnly_toReference s)
    rw [isParsing_toReference_iff] at h
    exact h.discard

/-- A snapshot is refused as the first place is that is not read. -/
theorem toModel_eq_error_iff {f : Filling} {e : SnapshotError} :
    f.snapshot.toModel = .error e ↔ First Place.IsRead (·.check = .error e) f.places := by
  rw [← discard_eq_error_iff, checks_toModel f]
  exact forM_eq_error_iff

/-- **A snapshot of texts and data is refused without being reported in the listed ways, and in no
other.** The first place that is not read decides. -/
theorem Filling.refused_unreported_iff (f : Filling) :
    ((∃ e, f.snapshot.toModel = .error e ∧ e.kind? = some .parsing) ↔
      First Place.IsRead Place.IsUnreadable f.places) ∧
    (f.snapshot.toModel = .error (.fault .unbounded) ↔
      First Place.IsRead Place.IsUnbounded f.places) ∧
    ∀ e, f.snapshot.toModel = .error e → e.kind? = some .definition ∨ e.kind? = some .parsing ∨
      e = .fault .unbounded := by
  refine ⟨?_, ?_, fun e he ↦ ?_⟩
  · calc (∃ e, f.snapshot.toModel = .error e ∧ e.kind? = some .parsing)
      _ ↔ ∃ e, First Place.IsRead (fun p ↦ e.kind? = some .parsing ∧ p.check = .error e)
            f.places := by simp only [toModel_eq_error_iff, first_and_iff, and_comm]
      _ ↔ First Place.IsRead (fun p ↦ ∃ e, e.kind? = some .parsing ∧ p.check = .error e)
            f.places := exists_first_iff
      _ ↔ First Place.IsRead Place.IsUnreadable f.places := by
        simp only [and_comm (a := _ = some _), (Place.refuses_check _).parsing]
  · simp only [toModel_eq_error_iff, (Place.refuses_check _).fault]
  · obtain ⟨p, -, hp⟩ := (toModel_eq_error_iff.mp he).exists_mem
    exact (Place.refuses_check p).others e hp

/-- A row whose function is no reference, and an integer beyond all numbers. -/
theorem Filling.refused_unreported_iff_letter :
    (∃ e, (Filling.mk [[Json.name "x", Json.name "#0[1.0]", Json.name "#0[1.0]"]] [] [] [] []
      0).snapshot.toModel = .error e ∧ e.kind? = some .parsing) ∧
    (Filling.mk [] [] [] [(Json.name "1", .array [.integer (10 ^ 400)])] [] 0).snapshot.toModel =
      .error (.fault .unbounded) := by
  constructor
  · refine (refused_unreported_iff _).1.mpr (.here ⟨fun c rest r hc href ↦ ?_, fun hlong ↦ ?_⟩)
    · obtain ⟨inner, rfl⟩ := href.exists_cons
      cases hc
    · cases hlong
  · have hinf : IsTooLarge (.integer (10 ^ 400)) := ⟨_, rfl, by decide +kernel⟩
    exact (refused_unreported_iff _).2.1.mpr
      (.behind rfl (.here ⟨⟨[1], rfl, by decide⟩, .here hinf⟩))

end Snapshot

end TermEmbedding
