import TermEmbedding.Proofs.Ontology.Stored
import TermEmbedding.Session.Failure

/-!
# Definitions that fail without being reported

A definition that gives no context is reported as a bad one, with three exceptions. An infinite
number in a place for an integer and primitive terms that are no object are faults that no activity
reports, and primitive terms of a type that does not exist are met by a question about that type,
which fails as it does elsewhere.

The exceptions can be listed for both forms of a definition, since both are read in one order: the
entries one after the other, then the names, then the checks. Whatever else is wrong with what
comes first is reported before the exception is met, so each exception stands behind a condition on
what was read before it. The list is exact, apart from limits on the depth of recursion and on
memory.
-/

namespace TermEmbedding

variable {α β : Type} {e : ContextError}

/-! ## Errors that every activity passes on -/

namespace ContextError

/-- An activity passes on the faults that no activity reports. -/
theorem isReported_of_during {activity : Activity} {result : Except ContextError α} {d : DataFault}
    (h : during activity result = .error (.fault d)) : isReported d = false := by
  rcases result with e | a
  · cases e with
    | fault d' =>
      change Except.error (if isReported d' then failed activity d' else fault d') = _ at h
      by_cases hd : isReported d' = true
      · rw [if_pos hd] at h
        cases h
      · rw [if_neg hd] at h
        cases h
        exact Bool.eq_false_of_not_eq_true hd
    | _ => cases h
  · cases h

/-- Whether an error comes out of an activity without being the report of a bad definition. -/
def isUnreported : ContextError → Bool
  | fault d => !isReported d
  | noType _ => true
  | _ => false

end ContextError

/-- A step in the reading of a definition ends with an error that no activity reports. -/
def EndsUnreported (x : Except ContextError α) (e : ContextError) : Prop :=
  x = .error e ∧ e.isUnreported = true

private theorem endsUnreported_bind_iff {x : Except ContextError α}
    {f : α → Except ContextError β} : EndsUnreported (x >>= f) e ↔
      EndsUnreported x e ∨ ∃ a, x = .ok a ∧ EndsUnreported (f a) e := by
  simp only [EndsUnreported, bind_eq_error_iff]
  tauto

private theorem endsUnreported_bind_pure_iff {x : Except ContextError α} {f : α → β} :
    EndsUnreported (x >>= fun a ↦ pure (f a)) e ↔ EndsUnreported x e := by
  rw [endsUnreported_bind_iff, or_iff_left]
  rintro ⟨a, -, ⟨⟩, -⟩

private theorem endsUnreported_during_iff (activity : Activity) {x : Except ContextError α} :
    EndsUnreported (ContextError.during activity x) e ↔ EndsUnreported x e := by
  rcases x with e' | a
  · cases e' with
    | fault d =>
      change EndsUnreported (.error (if ContextError.isReported d then _ else _)) e ↔ _
      by_cases hd : ContextError.isReported d = true
      · rw [if_pos hd]
        refine iff_of_false ?_ ?_
        · rintro ⟨⟨⟩, ⟨⟩⟩
        · rintro ⟨⟨⟩, h⟩
          rw [ContextError.isUnreported, hd] at h
          cases h
      · rw [if_neg hd]
    | _ => exact Iff.rfl
  · exact Iff.rfl

private theorem endsUnreported_during_bind_iff {activity : Activity} {x : Except ContextError α}
    {f : α → Except ContextError β} :
    EndsUnreported (ContextError.during activity x >>= f) e ↔ EndsUnreported (x >>= f) e := by
  have hok : ∀ a, ContextError.during activity x = .ok a ↔ x = .ok a := fun a ↦ mapError_eq_ok
  simp only [endsUnreported_bind_iff, endsUnreported_during_iff, hok]

/-- What comes out of an activity is the report of a bad definition, or it was passed on. -/
private theorem kind?_ne_definition_iff {activity : Activity} {x : Except ContextError α} :
    ContextError.during activity x = .error e ∧ e.kind? ≠ some .definition ↔
      EndsUnreported x e := by
  rw [← endsUnreported_during_iff activity]
  refine and_congr_right fun h ↦ ?_
  cases e with
  | fault d =>
    refine iff_of_true (by rintro ⟨⟩) ?_
    rw [ContextError.isUnreported, ContextError.isReported_of_during h]
    rfl
  | noType t => exact iff_of_true (by rintro ⟨⟩) rfl
  | _ => exact iff_of_false (fun h ↦ h rfl) (by rintro ⟨⟩)

/-! ## Steps whose errors are all reported -/

/-- Whatever error a step in the reading of a definition ends with, an activity reports it. -/
def Reported (x : Except ContextError α) : Prop := ErrorsOnly (·.isUnreported = false) x

private theorem Reported.not_endsUnreported {x : Except ContextError α} (h : Reported x) :
    ¬EndsUnreported x e := by
  rintro ⟨hx, he⟩
  rw [h e hx] at he
  cases he

/-- Behind a step whose own errors are all reported, it is the rest that ends unreported. -/
private theorem Reported.endsUnreported_bind_iff {x : Except ContextError α}
    {f : α → Except ContextError β} (h : Reported x) :
    EndsUnreported (x >>= f) e ↔ ∃ a, x = .ok a ∧ EndsUnreported (f a) e := by
  rw [TermEmbedding.endsUnreported_bind_iff, or_iff_right h.not_endsUnreported]

private theorem reported_liftM {x : Except DataFault α}
    (h : ErrorsOnly (ContextError.isReported · = true) x) :
    Reported (liftM x : Except ContextError α) := by
  refine errorsOnly_mapError fun d hd ↦ ?_
  rw [ContextError.isUnreported, h d hd]
  rfl

private theorem endsUnreported_liftM_iff {x : Except DataFault α} :
    EndsUnreported (liftM x : Except ContextError α) e ↔
      ∃ d, x = .error d ∧ ContextError.isReported d = false ∧ e = .fault d := by
  rcases x with d | a
  · change EndsUnreported (.error (.fault d) : Except ContextError α) e ↔ _
    constructor
    · rintro ⟨⟨⟩, hd⟩
      exact ⟨d, rfl, by simpa [ContextError.isUnreported] using hd, rfl⟩
    · rintro ⟨_, ⟨⟩, hd, rfl⟩
      exact ⟨rfl, by simpa [ContextError.isUnreported] using hd⟩
  · exact iff_of_false (by rintro ⟨⟨⟩, -⟩) (by rintro ⟨d, ⟨⟩, -⟩)

private theorem liftM_eq_ok_iff {x : Except DataFault α} {a : α} :
    (liftM x : Except ContextError α) = .ok a ↔ x = .ok a :=
  mapError_eq_ok

namespace Json

variable {v : Json}

private theorem errorsOnly_ofBytes (bytes : Bytes) :
    ErrorsOnly (ContextError.isReported · = true) (ofBytes bytes) := by
  rw [ofBytes]
  split
  · exact errorsOnly_error rfl
  · split
    · exact errorsOnly_pure _
    · exact errorsOnly_error rfl
    · exact errorsOnly_error rfl

private theorem errorsOnly_member (v : Json) (name : String) :
    ErrorsOnly (ContextError.isReported · = true) (v.member name) := by
  rw [member.eq_def]
  split
  · split
    · exact errorsOnly_pure _
    · exact errorsOnly_error rfl
  · exact errorsOnly_error rfl

private theorem errorsOnly_toItems (v : Json) :
    ErrorsOnly (ContextError.isReported · = true) v.toItems := by
  cases v with
  | array | string | object => exact errorsOnly_pure _
  | _ => exact errorsOnly_error rfl

private theorem errorsOnly_hasRepetition (items : List Json) :
    ErrorsOnly (ContextError.isReported · = true) (hasRepetition items) := by
  rw [hasRepetition]
  exact errorsOnly_ite (errorsOnly_error rfl) (errorsOnly_pure _)

private theorem errorsOnly_toInteger_string (s : List CodePoint) :
    ErrorsOnly (ContextError.isReported · = true) (string s).toInteger := by
  rw [toInteger]
  split
  · exact errorsOnly_pure _
  · exact errorsOnly_error rfl

end Json

private theorem reported_readNames {check : TypeId → List Json → Except ContextError Unit}
    (hcheck : ∀ t names, Reported (check t names)) (members : Json.Members) :
    Reported (readNames check members) := by
  refine errorsOnly_foldlM (fun table member ↦ ?_) _ _
  refine (reported_liftM (Json.errorsOnly_toInteger_string _)).bind fun t _ ↦ ?_
  refine (reported_liftM (Json.errorsOnly_toItems _)).bind fun names _ ↦ ?_
  exact (hcheck t names).bind fun _ _ ↦ errorsOnly_pure _

private theorem reported_refuseRepetition (t : TypeId) (names : List Json) :
    Reported (refuseRepetition t names) := by
  refine (reported_liftM (Json.errorsOnly_hasRepetition names)).bind fun b _ ↦ ?_
  exact errorsOnly_ite (errorsOnly_error rfl) (errorsOnly_pure _)

private theorem Ontology.reported_ofDeclarations (declarations : List Declaration) :
    Reported (ofDeclarations declarations) := by
  have hearlier : ∀ i reference, Reported (earlier i reference) := by
    intro i reference
    rw [earlier]
    split
    · exact errorsOnly_pure _
    · exact errorsOnly_error rfl
  have hpass : ∀ known d, Reported (pass known d) := by
    intro known d
    cases d with
    | vector d =>
      rw [pass]
      split
      · exact errorsOnly_pure _
      · exact errorsOnly_error rfl
    | function argument result compressed =>
      refine (hearlier _ _).bind fun a _ ↦ (hearlier _ _).bind fun r _ ↦ ?_
      cases compressed with
      | none => exact errorsOnly_pure _
      | some c =>
        dsimp only
        split
        · exact errorsOnly_pure _
        · exact errorsOnly_ite (errorsOnly_error rfl) (errorsOnly_error rfl)
  exact errorsOnly_foldlM (fun types d ↦ (hpass _ d).bind fun _ _ ↦ errorsOnly_pure _) _ _

/-! ## Integers -/

namespace Json

variable {v : Json} {vs : List Json}

/-- A number that is infinite. -/
def IsInfinite (v : Json) : Prop := ∃ x, v = .number x ∧ x.isNaN = false ∧ x.isInf = true

/-- The first value of a list that cannot be taken for an integer is infinite. -/
def FirstInfinite : List Json → Prop := First (fun v ↦ ∃ i, v.toInteger = .ok i) IsInfinite

/-- An infinite number is the only value that is taken for an integer with a fault that no activity
reports. -/
private theorem unreported_of_toInteger_iff {d : DataFault} :
    v.toInteger = .error d ∧ ContextError.isReported d = false ↔ d = .unbounded ∧ v.IsInfinite := by
  cases v with
  | number x =>
    rw [toInteger]
    constructor
    · rintro ⟨h, hd⟩
      split at h
      · cases h
        cases hd
      · rename_i hnan
        split at h
        · rename_i hinf
          cases h
          exact ⟨rfl, x, rfl, Bool.eq_false_of_not_eq_true hnan, hinf⟩
        · cases h
    · rintro ⟨rfl, _, ⟨⟩, hnan, hinf⟩
      rw [hnan, hinf]
      exact ⟨rfl, rfl⟩
  | string s =>
    refine iff_of_false ?_ (by rintro ⟨-, x, ⟨⟩, -⟩)
    rintro ⟨h, hd⟩
    rw [errorsOnly_toInteger_string s d h] at hd
    cases hd
  | integer | bool => exact iff_of_false (by rintro ⟨⟨⟩, -⟩) (by rintro ⟨-, x, ⟨⟩, -⟩)
  | null | array | object =>
    exact iff_of_false (by rintro ⟨⟨⟩, ⟨⟩⟩) (by rintro ⟨-, x, ⟨⟩, -⟩)

private theorem endsUnreported_toInteger_iff :
    EndsUnreported (liftM v.toInteger : Except ContextError Int) e ↔
      e = .fault .unbounded ∧ v.IsInfinite := by
  rw [endsUnreported_liftM_iff]
  simp only [← and_assoc, unreported_of_toInteger_iff]
  constructor
  · rintro ⟨_, ⟨rfl, hv⟩, rfl⟩
    exact ⟨rfl, hv⟩
  · rintro ⟨rfl, hv⟩
    exact ⟨_, ⟨rfl, hv⟩, rfl⟩

private theorem endsUnreported_toInteger_bind {f : Int → Except ContextError β}
    (hf : ∀ i, EndsUnreported (f i) e ↔ e = .fault .unbounded ∧ FirstInfinite vs) :
    EndsUnreported (liftM v.toInteger >>= f) e ↔
      e = .fault .unbounded ∧ FirstInfinite (v :: vs) := by
  rw [endsUnreported_bind_iff, endsUnreported_toInteger_iff, FirstInfinite, first_cons_iff]
  simp only [hf, liftM_eq_ok_iff]
  tauto

end Json

/-! ## Entries of the list of types -/

/-- The values in the member of an optional compressed dimension. -/
def compressedValues (members : Json.Members) : List Json :=
  (Json.optional? members "compressed_dim").toList

/-- The values of an entry of parameters that are taken for integers, in the order of reading. -/
def Declaration.parameterIntegers : Json → List Json
  | .object members =>
    match Json.Members.find? members "vector" with
    | some dimension => [dimension]
    | none =>
      match (Json.Members.find? members "function").map Json.toItems with
      | some (.ok [argument, result]) => argument :: result :: compressedValues members
      | _ => []
  | _ => []

/-- The values of a stored entry that are taken for integers, in the order of reading. -/
def Declaration.storedIntegers : Json → List Json
  | .object members =>
    match Json.Members.find? members "kind" with
    | none => []
    | some kind =>
      if kind.text? = some "vector".toList then (Json.Members.find? members "dim").toList
      else if kind.text? = some "function".toList then
        match Json.Members.find? members "arg" with
        | none => []
        | some argument =>
          argument :: match Json.Members.find? members "ret" with
            | none => []
            | some result => result :: compressedValues members
      else []
  | _ => []

private theorem endsUnreported_pure_iff (a : α) :
    EndsUnreported (pure a) e ↔ e = .fault .unbounded ∧ Json.FirstInfinite [] :=
  iff_of_false (by rintro ⟨⟨⟩, -⟩) (by rintro ⟨-, ⟨⟩⟩)

private theorem endsUnreported_compressedMember_iff {members : Json.Members} :
    EndsUnreported (liftM (compressedMember members) : Except ContextError (Option Int)) e ↔
      e = .fault .unbounded ∧ Json.FirstInfinite (compressedValues members) := by
  rw [compressedMember, compressedValues]
  cases Json.optional? members "compressed_dim" with
  | none => exact endsUnreported_pure_iff _
  | some value =>
    dsimp only
    rw [Option.toList_some, ← Json.endsUnreported_toInteger_bind (f := fun i ↦ pure (some i))
      fun i ↦ endsUnreported_pure_iff (some i)]
    cases value.toInteger <;> exact Iff.rfl

theorem Declaration.endsUnreported_ofParameters_iff {i : Nat} {entry : Json} :
    EndsUnreported (ofParameters i entry) e ↔
      e = .fault .unbounded ∧ Json.FirstInfinite (parameterIntegers entry) := by
  have hother : ∀ {e' : ContextError}, e'.isUnreported = false →
      (EndsUnreported (.error e' : Except ContextError Declaration) e ↔
        e = .fault .unbounded ∧ Json.FirstInfinite []) := fun he' ↦
    iff_of_false (Reported.not_endsUnreported (errorsOnly_error he')) (by rintro ⟨-, ⟨⟩⟩)
  rw [ofParameters.eq_def]
  cases entry with
  | object members =>
    rw [parameterIntegers]
    dsimp only
    cases Json.Members.find? members "vector" with
    | some dimension => exact Json.endsUnreported_toInteger_bind fun i ↦ endsUnreported_pure_iff _
    | none =>
      cases Json.Members.find? members "function" with
      | none => exact hother rfl
      | some value =>
        dsimp only
        rw [Option.map_some,
          (reported_liftM (Json.errorsOnly_toItems value)).endsUnreported_bind_iff]
        simp only [liftM_eq_ok_iff]
        cases value.toItems with
        | error d => exact iff_of_false (by rintro ⟨a, ⟨⟩, -⟩) (by rintro ⟨-, ⟨⟩⟩)
        | ok items =>
          simp only [Except.ok.injEq, exists_eq_left']
          -- two items are the types of arguments and of results
          rcases items with _ | ⟨argument, _ | ⟨result, _ | ⟨_, _⟩⟩⟩
          · exact hother rfl
          · exact hother rfl
          · exact Json.endsUnreported_toInteger_bind fun a ↦
              Json.endsUnreported_toInteger_bind fun r ↦
                endsUnreported_bind_pure_iff.trans endsUnreported_compressedMember_iff
          · exact hother rfl
  | _ => exact hother rfl

private theorem endsUnreported_member_bind {members : Json.Members} {name : String}
    {f : Json → Except ContextError β} {P : Prop}
    (hnone : Json.Members.find? members name = none → ¬P)
    (hsome : ∀ value, Json.Members.find? members name = some value →
      (EndsUnreported (f value) e ↔ P)) :
    EndsUnreported (liftM ((Json.object members).member name) >>= f) e ↔ P := by
  rw [(reported_liftM (Json.errorsOnly_member _ _)).endsUnreported_bind_iff]
  simp only [liftM_eq_ok_iff, Json.member]
  cases hfind : Json.Members.find? members name with
  | none => exact iff_of_false (by rintro ⟨a, ⟨⟩, -⟩) (hnone hfind)
  | some value =>
    rw [← hsome value hfind]
    constructor
    · rintro ⟨_, ⟨⟩, h⟩
      exact h
    · exact fun h ↦ ⟨value, rfl, h⟩

theorem Declaration.endsUnreported_ofData_iff {entry : Json} :
    EndsUnreported (ofData entry) e ↔
      e = .fault .unbounded ∧ Json.FirstInfinite (storedIntegers entry) := by
  have hnil : ¬(e = .fault .unbounded ∧ Json.FirstInfinite []) := by rintro ⟨-, ⟨⟩⟩
  rw [ofData]
  cases entry with
  | object members =>
    rw [storedIntegers]
    refine endsUnreported_member_bind (fun hkind ↦ ?_) fun kind hkind ↦ ?_
    · rw [hkind]
      exact hnil
    rw [hkind]
    dsimp only
    split
    · refine endsUnreported_member_bind (fun hdim ↦ ?_) fun dimension hdim ↦ ?_
      · rw [hdim]
        exact hnil
      rw [hdim]
      exact Json.endsUnreported_toInteger_bind fun i ↦ endsUnreported_pure_iff _
    split
    · refine endsUnreported_member_bind (fun harg ↦ ?_) fun argument harg ↦ ?_
      · rw [harg]
        exact hnil
      rw [harg]
      refine Json.endsUnreported_toInteger_bind fun a ↦ ?_
      refine endsUnreported_member_bind (fun hret ↦ ?_) fun result hret ↦ ?_
      · rw [hret]
        exact hnil
      rw [hret]
      refine Json.endsUnreported_toInteger_bind fun r ↦ ?_
      exact endsUnreported_bind_pure_iff.trans endsUnreported_compressedMember_iff
    · refine iff_of_false ?_ hnil
      rintro ⟨⟨⟩, ⟨⟩⟩
  | _ =>
    refine iff_of_false ?_ hnil
    rintro ⟨⟨⟩, ⟨⟩⟩

/-! ## Forms of definitions -/

/-- A form in which contexts are defined. -/
structure DefinitionForm where
  /-- Reads the entry of the type with the given number. -/
  read : Nat → Json → Except ContextError Declaration
  /-- The values of an entry that are taken for integers, in the order of reading. -/
  integers : Json → List Json
  /-- The check that the names of the primitive terms of a type have to pass. -/
  check : TypeId → List Json → Except ContextError Unit
  read_unreported {i : Nat} {entry : Json} {e : ContextError} :
    EndsUnreported (read i entry) e ↔ e = .fault .unbounded ∧ Json.FirstInfinite (integers entry)
  check_reported (t : TypeId) (names : List Json) : Reported (check t names)

namespace DefinitionForm

/-- The form that is written by hand. -/
def parameters : DefinitionForm where
  read := Declaration.ofParameters
  integers := Declaration.parameterIntegers
  check := refuseRepetition
  read_unreported := Declaration.endsUnreported_ofParameters_iff
  check_reported := reported_refuseRepetition

/-- The form that is stored. -/
def stored : DefinitionForm where
  read _ := Declaration.ofData
  integers := Declaration.storedIntegers
  check _ _ := return
  read_unreported := Declaration.endsUnreported_ofData_iff
  check_reported _ _ := errorsOnly_pure ()

/-- The declarations of a list of types. -/
def readTypes (form : DefinitionForm) (entries : List Json) :
    Except ContextError (List Declaration) :=
  entries.zipIdx.mapM fun (entry, i) ↦ form.read i entry

/-- The context of a list of types and of the names among the members of a definition. -/
def define (form : DefinitionForm) (members : Json.Members) (entries : List Json) :
    Except ContextError Context := do
  let declarations ← form.readTypes entries
  let names ← readPrimitives form.check members
  Context.ofDeclarations declarations names

end DefinitionForm

/-- The members and the list of types of a definition. -/
def Json.Defines (v : Json) (members : Members) (entries : List Json) : Prop :=
  ∃ list, v = object members ∧ Members.find? members "types" = some list ∧
    list.toItems = .ok entries

private theorem Json.exists_defines_iff {members : Members} {list : Json}
    (hlist : Members.find? members "types" = some list) {P : Members → List Json → Prop} :
    (∃ others entries, (object members).Defines others entries ∧ P others entries) ↔
      ∃ entries, list.toItems = .ok entries ∧ P members entries := by
  constructor
  · rintro ⟨_, entries, ⟨list', ⟨⟩, hlist', hentries⟩, h⟩
    cases hlist.symm.trans hlist'
    exact ⟨entries, hentries, h⟩
  · rintro ⟨entries, hentries, h⟩
    exact ⟨members, entries, ⟨list, rfl, hlist, hentries⟩, h⟩

theorem Context.endsUnreported_ofParameters_iff {v : Json} :
    EndsUnreported (ofParameters v) e ↔
      ∃ members entries, v.Defines members entries ∧
        EndsUnreported (DefinitionForm.parameters.define members entries) e := by
  rw [ofParameters.eq_def]
  cases v with
  | object members =>
    dsimp only
    cases hlist : Json.Members.find? members "types" with
    | none =>
      refine iff_of_false (by rintro ⟨⟨⟩, ⟨⟩⟩) ?_
      rintro ⟨_, entries, ⟨list, ⟨⟩, hlist', -⟩, -⟩
      rw [hlist] at hlist'
      cases hlist'
    | some list =>
      dsimp only
      rw [(reported_liftM (Json.errorsOnly_toItems list)).endsUnreported_bind_iff,
        Json.exists_defines_iff hlist]
      simp only [liftM_eq_ok_iff]
      exact Iff.rfl
  | _ =>
    refine iff_of_false (by rintro ⟨⟨⟩, ⟨⟩⟩) ?_
    rintro ⟨_, _, ⟨_, ⟨⟩, -⟩, -⟩

private theorem DefinitionForm.readTypes_stored (entries : List Json) :
    stored.readTypes entries = entries.mapM Declaration.ofData := by
  conv_rhs => rw [← List.zipIdx_map_fst 0 entries, mapM_map]
  rfl

theorem Context.endsUnreported_ofData_iff {v : Json} :
    EndsUnreported (ofData v) e ↔
      ∃ members entries, v.Defines members entries ∧
        EndsUnreported (DefinitionForm.stored.define members entries) e := by
  rw [ofData, endsUnreported_during_bind_iff, readStored]
  cases v with
  | object members =>
    simp only [bind_assoc, pure_bind]
    refine endsUnreported_member_bind (fun hnone ↦ ?_) fun list hlist ↦ ?_
    · rintro ⟨_, entries, ⟨list, ⟨⟩, hlist, -⟩, -⟩
      rw [hnone] at hlist
      cases hlist
    · rw [(reported_liftM (Json.errorsOnly_toItems list)).endsUnreported_bind_iff,
        Json.exists_defines_iff hlist]
      simp only [liftM_eq_ok_iff, ← DefinitionForm.readTypes_stored]
      exact Iff.rfl
  | _ =>
    refine iff_of_false (by rintro ⟨⟨⟩, ⟨⟩⟩) ?_
    rintro ⟨_, _, ⟨_, ⟨⟩, -⟩, -⟩

/-! ## The exceptions -/

namespace Context

/-- Whether a number is that of a type of functions. -/
def NamesFunctions (kinds : List Kind) (t : TypeId) : Prop :=
  ∃ kind, atType kinds t = .ok kind ∧ kind.isFunction = true

private theorem getElem?_eq_none_iff {kinds : List Kind} {t : TypeId} :
    (if t < 0 then none else kinds[t.toNat]?) = none ↔ t < 0 ∨ (kinds.length : Int) ≤ t := by
  split
  · exact iff_of_true rfl (.inl ‹_›)
  · rename_i hnonneg
    rw [List.getElem?_eq_none_iff, or_iff_right hnonneg]
    exact Int.le_toNat (Int.not_lt.mp hnonneg)

/-- A type that is asked about is one of functions, does not exist, or is one of vectors. -/
theorem endsUnreported_checkPrimitives_iff {kinds : List Kind} {types : List TypeId} :
    EndsUnreported (checkPrimitives kinds types) e ↔
      ∃ t, e = .noType t ∧ First (NamesFunctions kinds)
        (fun s ↦ s = t ∧ (t < 0 ∨ (kinds.length : Int) ≤ t)) types := by
  induction types with
  | nil => exact iff_of_false (by rintro ⟨⟨⟩, -⟩) (by rintro ⟨t, -, ⟨⟩⟩)
  | cons s types ih =>
    rw [checkPrimitives]
    simp only [first_cons_iff, NamesFunctions, atType]
    cases hkind : (if s < 0 then none else kinds[s.toNat]?) with
    | none =>
      have hs := getElem?_eq_none_iff.mp hkind
      constructor
      · rintro ⟨⟨⟩, -⟩
        exact ⟨s, rfl, .inl ⟨rfl, hs⟩⟩
      · rintro ⟨_, rfl, ⟨rfl, -⟩ | ⟨⟨kind, ⟨⟩, -⟩, -⟩⟩
        exact ⟨rfl, rfl⟩
    | some kind =>
      have hs : ¬(s < 0 ∨ (kinds.length : Int) ≤ s) := by
        rw [← getElem?_eq_none_iff, hkind]
        exact Option.some_ne_none kind
      by_cases hfunction : kind.isFunction = true
      · dsimp only
        rw [if_pos hfunction, ih]
        refine exists_congr fun t ↦ and_congr_right fun _ ↦ ?_
        constructor
        · exact fun h ↦ .inr ⟨⟨kind, rfl, hfunction⟩, h⟩
        · rintro (⟨rfl, h⟩ | ⟨-, h⟩)
          · exact absurd h hs
          · exact h
      · dsimp only
        rw [if_neg hfunction]
        refine iff_of_false (by rintro ⟨⟨⟩, ⟨⟩⟩) ?_
        rintro ⟨t, -, ⟨rfl, h⟩ | ⟨⟨_, ⟨⟩, h⟩, -⟩⟩
        · exact hs h
        · exact hfunction h

end Context

/-- **The ways in which a definition fails without being reported.** -/
inductive DefinitionForm.Unreported (form : DefinitionForm) (contents : Bytes) :
    ContextError → Prop
  /-- The first entry that is not read has an infinite number for its first integer that is not
  read. -/
  | infinite {v : Json} {members : Json.Members} {entries : List Json}
      (hv : Json.ofBytes contents = .ok v) (hdefines : v.Defines members entries)
      (hfirst : First (fun entry ↦ ∃ d, form.read entry.2 entry.1 = .ok d)
        (fun entry ↦ Json.FirstInfinite (form.integers entry.1)) entries.zipIdx) :
      Unreported form contents (.fault .unbounded)
  /-- All entries are read, and the primitive terms are no object. -/
  | noTable {v value : Json} {members : Json.Members} {entries : List Json}
      {declarations : List Declaration} (hv : Json.ofBytes contents = .ok v)
      (hdefines : v.Defines members entries)
      (hdeclarations : form.readTypes entries = .ok declarations)
      (hvalue : Json.Members.find? members "primitives" = some value)
      (hobject : ∀ others, value ≠ .object others) :
      Unreported form contents (.fault (.noMembers value.kindText))
  /-- All types pass, and the first type with primitive terms that is none of functions does not
  exist. -/
  | noType {v : Json} {members : Json.Members} {entries : List Json}
      {declarations : List Declaration} {names : Table TypeId (List TermName)} {types : Ontology}
      {t : TypeId} (hv : Json.ofBytes contents = .ok v) (hdefines : v.Defines members entries)
      (hdeclarations : form.readTypes entries = .ok declarations)
      (hnames : readPrimitives form.check members = .ok names)
      (htypes : Ontology.ofDeclarations declarations = .ok types)
      (hfirst : First (Context.NamesFunctions types.kinds)
        (fun s ↦ s = t ∧ (t < 0 ∨ (types.kinds.length : Int) ≤ t)) (names.map (·.1))) :
      Unreported form contents (.noType t)

section

variable {form : DefinitionForm} {members : Json.Members} {entries : List Json}

theorem DefinitionForm.endsUnreported_readTypes_iff :
    EndsUnreported (form.readTypes entries) e ↔
      e = .fault .unbounded ∧ First (fun entry ↦ ∃ d, form.read entry.2 entry.1 = .ok d)
        (fun entry ↦ Json.FirstInfinite (form.integers entry.1)) entries.zipIdx := by
  rw [EndsUnreported, and_comm, readTypes, mapM_eq_error_iff, ← first_and_iff, ← first_and_iff]
  simp only [and_comm (a := e.isUnreported = true)]
  exact iff_of_eq (congrArg (First _ · _) (funext fun entry ↦ propext form.read_unreported))

theorem endsUnreported_readPrimitives_iff {check : TypeId → List Json → Except ContextError Unit}
    (hcheck : ∀ t names, Reported (check t names)) :
    EndsUnreported (readPrimitives check members) e ↔
      ∃ value ∈ Json.Members.find? members "primitives", (∀ others, value ≠ .object others) ∧
        e = .fault (.noMembers value.kindText) := by
  rw [readPrimitives]
  cases Json.Members.find? members "primitives" with
  | none => exact iff_of_false (by rintro ⟨⟨⟩, -⟩) (by rintro ⟨value, ⟨⟩, -⟩)
  | some value =>
    simp only [Option.mem_def, Option.some.injEq, exists_eq_left']
    cases value with
    | object others =>
      refine iff_of_false (reported_readNames hcheck others).not_endsUnreported ?_
      rintro ⟨h, -⟩
      exact h others rfl
    | _ =>
      constructor
      · rintro ⟨⟨⟩, -⟩
        exact ⟨by rintro _ ⟨⟩, rfl⟩
      · rintro ⟨-, rfl⟩
        exact ⟨rfl, rfl⟩

theorem Context.endsUnreported_ofDeclarations_iff {declarations : List Declaration}
    {names : Table TypeId (List TermName)} :
    EndsUnreported (ofDeclarations declarations names) e ↔
      ∃ types, Ontology.ofDeclarations declarations = .ok types ∧
        EndsUnreported (checkPrimitives types.kinds (names.map (·.1))) e := by
  rw [ofDeclarations, (Ontology.reported_ofDeclarations declarations).endsUnreported_bind_iff]
  simp only [endsUnreported_bind_pure_iff]

theorem DefinitionForm.unreported_iff {contents : Bytes} :
    form.Unreported contents e ↔
      ∃ v, Json.ofBytes contents = .ok v ∧ ∃ members entries, v.Defines members entries ∧
        EndsUnreported (form.define members entries) e := by
  simp only [define, endsUnreported_bind_iff, endsUnreported_readTypes_iff,
    endsUnreported_readPrimitives_iff form.check_reported,
    Context.endsUnreported_ofDeclarations_iff, Context.endsUnreported_checkPrimitives_iff]
  constructor
  · intro h
    cases h with
    | infinite hv hdefines hfirst => exact ⟨_, hv, _, _, hdefines, .inl ⟨rfl, hfirst⟩⟩
    | noTable hv hdefines hdeclarations hvalue hobject =>
      exact ⟨_, hv, _, _, hdefines, .inr ⟨_, hdeclarations, .inl ⟨_, hvalue, hobject, rfl⟩⟩⟩
    | noType hv hdefines hdeclarations hnames htypes hfirst =>
      exact ⟨_, hv, _, _, hdefines,
        .inr ⟨_, hdeclarations, .inr ⟨_, hnames, _, htypes, _, rfl, hfirst⟩⟩⟩
  · rintro ⟨v, hv, members, entries, hdefines, ⟨rfl, hfirst⟩ | ⟨declarations, hdeclarations,
      ⟨value, hvalue, hobject, rfl⟩ | ⟨names, hnames, types, htypes, t, rfl, hfirst⟩⟩⟩
    · exact .infinite hv hdefines hfirst
    · exact .noTable hv hdefines hdeclarations hvalue hobject
    · exact .noType hv hdefines hdeclarations hnames htypes hfirst

end

/-- **A definition fails without being reported in the listed ways, and in no other**, apart from
limits on the depth of recursion and on memory, which are left out of account. -/
theorem Context.fails_unreported_iff (contents : Bytes) (e : ContextError) :
    ((generate contents = .error e ∧ e.kind? ≠ some .definition) ↔
      DefinitionForm.parameters.Unreported contents e) ∧
    ((load contents = .error e ∧ e.kind? ≠ some .definition) ↔
      DefinitionForm.stored.Unreported contents e) := by
  constructor
  · rw [generate, kind?_ne_definition_iff, DefinitionForm.unreported_iff,
      (reported_liftM (Json.errorsOnly_ofBytes contents)).endsUnreported_bind_iff]
    simp only [liftM_eq_ok_iff, endsUnreported_bind_pure_iff, endsUnreported_ofParameters_iff]
  · rw [load, kind?_ne_definition_iff, DefinitionForm.unreported_iff,
      (reported_liftM (Json.errorsOnly_ofBytes contents)).endsUnreported_bind_iff]
    simp only [liftM_eq_ok_iff, endsUnreported_ofData_iff]

/-- No types, and primitive terms of the first one. -/
def Json.primitivesOfNothing : Json :=
  object [(name "types", array []), (name "primitives", object [(name "0", array [])])]

theorem Context.fails_unreported_iff_nothing :
    generate (Text.utf8 Json.primitivesOfNothing.write) = .error (.noType 0) ∧
      (ContextError.noType 0).kind? ≠ some .definition := by
  have hterms : (Json.object [(Json.name "0", .array [])]).IsPlain :=
    isPlain_object_of_names ["0"] rfl (by decide)
      (List.forall_mem_singleton.mpr (.array (List.forall_mem_nil _)))
  have hplain : Json.primitivesOfNothing.IsPlain := by
    refine isPlain_object_of_names ["types", "primitives"] rfl (by decide) ?_
    rw [List.forall_mem_cons, List.forall_mem_singleton]
    exact ⟨.array (List.forall_mem_nil _), hterms⟩
  exact (fails_unreported_iff _ _).1.mpr
    (.noType hplain.ofBytes_write ⟨_, rfl, rfl, rfl⟩ rfl rfl rfl (.here ⟨rfl, .inr (by decide)⟩))

end TermEmbedding
