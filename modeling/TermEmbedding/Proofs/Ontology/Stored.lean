import TermEmbedding.Ontology.Definition
import TermEmbedding.Proofs.Json.Numerals
import TermEmbedding.Proofs.Json.Values

/-!
# Contexts that are stored and read back

The parameters of a context and its stored form are two descriptions of it, which are read by two
readers. A context is determined by its declarations and by the names of its primitive terms, type
by type; the stored form spells both, and the reader of the stored form arrives at the same ones:
the declarations pass their checks again since they are those of kinds that make sense, and the
rows with names come back in their order since the numbers of their types ascend.

In a file a name comes back as it comes back from its units, so a name with stray surrogates may
come back as another one.
-/

namespace TermEmbedding

/-! ## Declarations -/

theorem Ontology.natCast_of_earlier {index : Nat} {reference : Int} {n : { n : Nat // n < index }}
    (h : earlier index reference = .ok n) : (n.1 : Int) = reference := by
  rw [earlier] at h
  split_ifs at h with hreference
  cases h
  exact Int.toNat_of_nonneg hreference.1

namespace Kind

variable {known : List Dimensions} {kind : Kind} {kinds : List Kind}

private theorem pass_declaration (h : kind.Admissible known) :
    Ontology.pass known kind.declaration = .ok ⟨kind, h⟩ := by
  cases kind with
  | vector d =>
    have hd : (1 : Int) ≤ d := Int.ofNat_le.mpr h
    exact dif_pos hd
  | function argument result compressed =>
    have hearlier : ∀ {n : Nat} (hn : n < known.length),
        Ontology.earlier known.length n = .ok ⟨n, hn⟩ := fun hn ↦
      dif_pos ⟨Int.natCast_nonneg _, Int.ofNat_lt.mpr hn⟩
    rw [declaration, Ontology.pass, bind_ok (hearlier h.1), bind_ok (hearlier h.2.1)]
    cases compressed with
    | none => rfl
    | some c =>
      obtain ⟨hpos, hle⟩ := h.2.2 c rfl
      exact dif_pos ⟨Int.ofNat_le.mpr hpos, Int.ofNat_le.mpr hle⟩

theorem declaration_of_pass {d : Declaration} {passed : { kind : Kind // kind.Admissible known }}
    (h : Ontology.pass known d = .ok passed) : passed.1.declaration = d := by
  cases d with
  | vector d =>
    rw [Ontology.pass] at h
    split_ifs at h with hd
    cases h
    exact congrArg Declaration.vector (Int.toNat_of_nonneg (by omega))
  | function argument result compressed =>
    rw [Ontology.pass] at h
    obtain ⟨a, ha, h⟩ := exists_of_bind_eq_ok h
    obtain ⟨r, hr, h⟩ := exists_of_bind_eq_ok h
    rw [← Ontology.natCast_of_earlier ha, ← Ontology.natCast_of_earlier hr]
    cases compressed with
    | none =>
      cases h
      rfl
    | some c =>
      dsimp only at h
      split_ifs at h with hc
      cases h
      exact congrArg (Declaration.function _ _ <| some ·) (Int.toNat_of_nonneg (by omega))

theorem WellFormed.ofDeclarations (h : WellFormed kinds) :
    Ontology.ofDeclarations (kinds.map declaration) = .ok ⟨kinds, h⟩ := by
  induction h with
  | nil => rfl
  | @snoc kinds kind hkinds hkind ih =>
    rw [Ontology.ofDeclarations, List.map_append, List.foldlM_append]
    rw [Ontology.ofDeclarations] at ih
    rw [bind_ok ih, List.map_singleton, List.foldlM_cons, Ontology.push,
      bind_ok (pass_declaration hkind)]
    rfl

end Kind

theorem Ontology.declarations_of_ofDeclarations {declarations : List Declaration}
    {types : Ontology} (h : ofDeclarations declarations = .ok types) :
    types.kinds.map Kind.declaration = declarations := by
  induction declarations using List.reverseRecOn generalizing types with
  | nil =>
    cases h
    rfl
  | append_singleton declarations last ih =>
    rw [ofDeclarations, List.foldlM_append] at h
    obtain ⟨before, hbefore, h⟩ := exists_of_bind_eq_ok h
    rw [List.foldlM_cons, push] at h
    obtain ⟨pushed, hpushed, h⟩ := exists_of_bind_eq_ok h
    obtain ⟨kind, hkind, hpushed⟩ := exists_of_bind_eq_ok hpushed
    cases h
    cases hpushed
    rw [List.map_append, ih hbefore, List.map_singleton, Kind.declaration_of_pass hkind]

theorem Declaration.ofData_toData (d : Declaration) : ofData d.toData = .ok d := by
  cases d with
  | vector d => rfl
  | function argument result compressed =>
    cases compressed with
    | none => rfl
    | some c => rfl

/-! ## Names of primitive terms -/

section

variable {kinds : List Kind} {rows : List (Nat × List TermName)}

/-- The rows of a context as the table that is read. -/
private def readRows (rows : List (Nat × List TermName)) : Table TypeId (List TermName) :=
  rows.map fun row ↦ ((row.1 : TypeId), row.2)

/-- The rows of a context as they are stored. -/
def storedRows (rows : List (Nat × List TermName)) : Json.Members :=
  rows.map fun (typeId, names) ↦ (Text.codePoints (numeral typeId), .array (names.map .string))

private theorem toInteger_numeral {n : Nat} (h : hasNumeral (n : Int) = true) :
    (Json.string (Text.codePoints (numeral n))).toInteger = .ok (n : Int) := by
  have hinteger := Json.toInteger_integerNumeral h
  rwa [integerNumeral_of_nonneg (Int.natCast_nonneg n), Int.natAbs_natCast] at hinteger

private theorem map_asName_map_string (names : List TermName) :
    (names.map Json.string).map Json.asName = names := by
  rw [List.map_map]
  exact List.map_id names

/-- What one more row adds to the table that is read. -/
theorem readNames_concat_eq_ok_iff {check : TypeId → List Json → Except ContextError Unit}
    {members : Json.Members} {key : List CodePoint} {value : Json}
    {table : Table TypeId (List TermName)} :
    readNames check (members ++ [(key, value)]) = .ok table ↔
      ∃ before typeId names, readNames check members = .ok before ∧
        (Json.string key).toInteger = .ok typeId ∧ value.toItems = .ok names ∧
        check typeId names = .ok () ∧ table = before.insert typeId (names.map Json.asName) := by
  rw [readNames, List.foldlM_append, ← readNames]
  constructor
  · intro h
    obtain ⟨before, hbefore, h⟩ := exists_of_bind_eq_ok h
    obtain ⟨after, hafter, h⟩ := exists_of_bind_eq_ok h
    obtain ⟨typeId, htypeId, hafter⟩ := exists_of_bind_eq_ok hafter
    obtain ⟨names, hnames, hafter⟩ := exists_of_bind_eq_ok hafter
    obtain ⟨⟨⟩, hcheck, hafter⟩ := exists_of_bind_eq_ok hafter
    cases hafter
    cases h
    exact ⟨before, typeId, names, hbefore, mapError_eq_ok.mp htypeId, mapError_eq_ok.mp hnames,
      hcheck, rfl⟩
  · rintro ⟨before, typeId, names, hbefore, htypeId, hnames, hcheck, rfl⟩
    rw [bind_ok hbefore, List.foldlM_cons]
    dsimp only
    rw [htypeId, hnames]
    change (check typeId names >>= fun _ ↦ pure _) >>= _ = _
    rw [hcheck]
    rfl

private theorem readNames_storedRows (hnumerals : ∀ row ∈ rows, hasNumeral (row.1 : Int) = true)
    (hrows : (rows.map (·.1)).Nodup) :
    readNames (fun _ _ ↦ return) (storedRows rows) = .ok (readRows rows) := by
  induction rows using List.reverseRecOn with
  | nil => rfl
  | append_singleton rows last ih =>
    rw [List.forall_mem_append, List.forall_mem_singleton] at hnumerals
    rw [List.map_append, List.nodup_append] at hrows
    have hnew : (readRows rows).get? (last.1 : TypeId) = none := by
      rw [Table.get?_eq_none_iff, readRows, List.forall_mem_map]
      intro row hrow
      have hne : row.1 ≠ last.1 := hrows.2.2 _ (List.mem_map_of_mem hrow) _ List.mem_cons_self
      simpa using hne
    rw [storedRows, List.map_append, ← storedRows]
    refine readNames_concat_eq_ok_iff.mpr ⟨_, _, _, ih hnumerals.1 hrows.1,
      toInteger_numeral hnumerals.2, rfl, rfl, ?_⟩
    rw [map_asName_map_string, Table.insert_of_get?_eq_none _ hnew, readRows, List.map_append]
    rfl

private theorem checkPrimitives_readRows
    (h : ∀ row ∈ rows, ∃ kind ∈ kinds[row.1]?, kind.isFunction = true) :
    Context.checkPrimitives kinds ((readRows rows).map (·.1)) = .ok () := by
  induction rows with
  | nil => rfl
  | cons row rows ih =>
    rw [List.forall_mem_cons] at h
    obtain ⟨⟨kind, hkind, hfunction⟩, hrows⟩ := h
    change Context.checkPrimitives kinds ((row.1 : TypeId) :: (readRows rows).map (·.1)) = _
    rw [Context.checkPrimitives, if_neg (Int.not_lt.mpr (Int.natCast_nonneg row.1)),
      Int.toNat_natCast, Option.mem_def.mp hkind]
    exact (if_pos hfunction).trans (ih hrows)

theorem mem_arranged_iff {names : Table TypeId (List TermName)} {row : Nat × List TermName} :
    row ∈ Context.arranged kinds names ↔
      (∃ kind ∈ kinds[row.1]?, kind.isFunction = true) ∧ names.get? row.1 = some row.2 := by
  rw [Context.arranged, List.mem_filterMap]
  constructor
  · rintro ⟨n, -, hn⟩
    by_cases hany : kinds[n]?.any Kind.isFunction = true
    · rw [if_pos hany] at hn
      obtain ⟨names', hget, rfl⟩ := Option.map_eq_some_iff.mp hn
      exact ⟨by simpa [Option.any_eq_true] using hany, hget⟩
    · rw [if_neg hany] at hn
      cases hn
  · rintro ⟨⟨kind, hkind, hfunction⟩, hget⟩
    have hany : kinds[row.1]?.any Kind.isFunction = true := by
      rw [Option.mem_def.mp hkind]
      exact hfunction
    refine ⟨row.1, List.mem_range.mpr (List.getElem?_eq_some_iff.mp hkind).1, ?_⟩
    rw [if_pos hany, hget]
    rfl

private theorem arranged_readRows (hascending : (rows.map (·.1)).Pairwise (· < ·))
    (hfunctional : ∀ row ∈ rows, ∃ kind ∈ kinds[row.1]?, kind.isFunction = true) :
    Context.arranged kinds (readRows rows) = rows := by
  have harranged := Context.pairwise_arranged kinds (readRows rows)
  have hkeys : ((readRows rows).map (·.1)).Nodup := by
    have hmap : (readRows rows).map (·.1) = (rows.map (·.1)).map Int.ofNat := by
      rw [readRows, List.map_map, List.map_map]
      rfl
    rw [hmap, List.Nodup, List.pairwise_map]
    exact hascending.imp fun hlt heq ↦ hlt.ne (Int.ofNat.inj heq)
  rw [List.pairwise_map] at hascending harranged
  have hmem : ∀ row, row ∈ Context.arranged kinds (readRows rows) ↔ row ∈ rows := by
    intro row
    rw [mem_arranged_iff]
    constructor
    · rintro ⟨-, hget⟩
      obtain ⟨other, hother, heq⟩ := List.mem_map.mp (Table.mem_of_get? hget)
      obtain ⟨htype, hnames⟩ := Prod.mk.inj heq
      obtain rfl : other = row := Prod.ext (Int.ofNat.inj htype) hnames
      exact hother
    · intro hrow
      exact ⟨hfunctional row hrow, Table.get?_of_mem hkeys (List.mem_map_of_mem hrow)⟩
  -- both lists hold the same rows and ascend
  have hdistinct : ∀ {rows : List (Nat × List TermName)},
      rows.Pairwise (fun x y ↦ x.1 < y.1) → rows.Nodup := fun h ↦
    h.imp fun hlt heq ↦ absurd (congrArg Prod.fst heq) hlt.ne
  refine List.Perm.eq_of_pairwise (fun x y _ _ hxy hyx ↦ absurd hxy (Nat.lt_asymm hyx))
    harranged hascending ?_
  exact (List.perm_ext_iff_of_nodup (hdistinct harranged) (hdistinct hascending)).mpr hmem

end

/-! ## Contexts -/

namespace Context

variable {c : Context} {v : Json}

def storedTypes (c : Context) : List Json := c.kinds.map fun kind ↦ kind.declaration.toData

private def storedMembers (c : Context) : Json.Members :=
  [(Json.name "types", .array c.storedTypes),
    (Json.name "primitives", .object (storedRows c.primitives))]

/-- The types with primitive terms can be written as names of members. -/
def HasNumerals (c : Context) : Prop := ∀ row ∈ c.primitives, hasNumeral (row.1 : Int) = true

private theorem readStored_toData (h : c.HasNumerals) :
    readStored c.toData = .ok (c.kinds.map Kind.declaration, readRows c.primitives) := by
  have hdeclarations : c.storedTypes.mapM Declaration.ofData =
      .ok (c.kinds.map Kind.declaration) := by
    rw [storedTypes, mapM_map, mapM_eq_ok_iff, List.forall₂_map_right_iff, List.forall₂_same]
    exact fun kind _ ↦ Declaration.ofData_toData _
  have hnames : readPrimitives (fun _ _ ↦ return) c.storedMembers = .ok (readRows c.primitives) :=
    readNames_storedRows h (c.ascending.imp fun hlt heq ↦ absurd heq hlt.ne)
  change (do
    let declarations ← c.storedTypes.mapM Declaration.ofData
    let names ← readPrimitives (fun _ _ ↦ return) c.storedMembers
    return (declarations, names)) = _
  rw [bind_ok hdeclarations, bind_ok hnames]
  rfl

/-- **A context is read back from its stored form.** -/
theorem ofData_toData (h : c.HasNumerals) : ofData c.toData = .ok c := by
  rw [ofData, readStored_toData h]
  change ofDeclarations (c.kinds.map Kind.declaration) (readRows c.primitives) = _
  rw [ofDeclarations, bind_ok c.wellFormed.ofDeclarations]
  dsimp only
  rw [bind_ok (checkPrimitives_readRows c.functional)]
  obtain ⟨kinds, primitives, hkinds, hascending, hfunctional⟩ := c
  simp only [arranged_readRows hascending hfunctional]
  rfl

/-! ## Contexts that are built -/

private theorem hasNumeral_of_mem_readNames {check : TypeId → List Json → Except ContextError Unit}
    {members : Json.Members} {names : Table TypeId (List TermName)}
    (h : readNames check members = .ok names) : ∀ row ∈ names, hasNumeral row.1 = true := by
  induction members using List.reverseRecOn generalizing names with
  | nil =>
    cases h
    exact List.forall_mem_nil _
  | append_singleton members last ih =>
    obtain ⟨before, typeId, others, hbefore, htypeId, -, -, rfl⟩ := readNames_concat_eq_ok_iff.mp h
    intro row hrow
    rcases Table.mem_insert hrow with rfl | hrow
    · exact (Json.HasNumerals.string last.1).of_toInteger htypeId
    · exact ih hbefore row hrow

private theorem hasNumeral_of_mem_readPrimitives
    {check : TypeId → List Json → Except ContextError Unit}
    {members : Json.Members} {names : Table TypeId (List TermName)}
    (h : readPrimitives check members = .ok names) : ∀ row ∈ names, hasNumeral row.1 = true := by
  rw [readPrimitives] at h
  split at h
  · cases h
    exact List.forall_mem_nil _
  · obtain ⟨rows, -, h⟩ := exists_of_bind_eq_ok h
    exact hasNumeral_of_mem_readNames h

private theorem HasNumerals.of_ofDeclarations {declarations : List Declaration}
    {names : Table TypeId (List TermName)} (hnames : ∀ row ∈ names, hasNumeral row.1 = true)
    (h : ofDeclarations declarations names = .ok c) : c.HasNumerals := by
  obtain ⟨types, -, h⟩ := exists_of_bind_eq_ok h
  obtain ⟨-, -, h⟩ := exists_of_bind_eq_ok h
  cases h
  intro row hrow
  exact hnames _ (Table.mem_of_get? (mem_arranged_iff.mp hrow).2)

theorem exists_of_ofParameters (h : ofParameters v = .ok c) :
    ∃ members list entries declarations names, v = .object members ∧
      Json.Members.find? members "types" = some list ∧ list.toItems = .ok entries ∧
      entries.zipIdx.mapM (fun (entry, i) ↦ Declaration.ofParameters i entry) =
        .ok declarations ∧
      readPrimitives refuseRepetition members = .ok names ∧
      ofDeclarations declarations names = .ok c := by
  rw [ofParameters.eq_def] at h
  split at h
  · rename_i members
    split at h
    · cases h
    · rename_i list hlist
      obtain ⟨entries, hentries, h⟩ := exists_of_bind_eq_ok h
      obtain ⟨declarations, hdeclarations, h⟩ := exists_of_bind_eq_ok h
      obtain ⟨names, hnames, h⟩ := exists_of_bind_eq_ok h
      exact ⟨members, list, entries, declarations, names, rfl, hlist, mapError_eq_ok.mp hentries,
        hdeclarations, hnames, h⟩
  · cases h

theorem HasNumerals.of_ofParameters (h : ofParameters v = .ok c) : c.HasNumerals := by
  obtain ⟨members, list, entries, declarations, names, -, -, -, -, hnames, h⟩ :=
    exists_of_ofParameters h
  exact of_ofDeclarations (hasNumeral_of_mem_readPrimitives hnames) h

theorem HasNumerals.of_ofData (h : ofData v = .ok c) : c.HasNumerals := by
  obtain ⟨⟨declarations, names⟩, hread, h⟩ := exists_of_bind_eq_ok h
  refine of_ofDeclarations ?_ h
  have hstored := mapError_eq_ok.mp hread
  obtain ⟨_, -, hstored⟩ := exists_of_bind_eq_ok hstored
  obtain ⟨_, -, hstored⟩ := exists_of_bind_eq_ok hstored
  obtain ⟨_, -, hstored⟩ := exists_of_bind_eq_ok hstored
  split at hstored
  · obtain ⟨read, hnames, hstored⟩ := exists_of_bind_eq_ok hstored
    cases hstored
    exact hasNumeral_of_mem_readPrimitives hnames
  · cases hstored
    exact List.forall_mem_nil _

end Context

/-! ## Files -/

/-- Whether all integers of a declaration have numerals. -/
def Declaration.HasNumerals : Declaration → Prop
  | vector d => hasNumeral d = true
  | function argument result compressed =>
    hasNumeral argument = true ∧ hasNumeral result = true ∧ ∀ k ∈ compressed, hasNumeral k = true

section

variable {d : Declaration} {v : Json} {c : Context}

private theorem hasNumeral_of_compressedMember {members : Json.Members}
    (hmembers : (Json.object members).HasNumerals) {compressed : Option Int}
    (h : compressedMember members = .ok compressed) : ∀ k ∈ compressed, hasNumeral k = true := by
  rw [compressedMember] at h
  split at h
  · cases h
    rintro _ ⟨⟩
  · rename_i value hvalue
    obtain ⟨k, hk, h⟩ := exists_of_bind_eq_ok h
    cases h
    have hfind : Json.Members.find? members "compressed_dim" = some value := by
      rw [Json.optional?.eq_def] at hvalue
      split at hvalue
      · cases hvalue
      · cases hvalue
      · rename_i hfind
        rw [hfind, hvalue]
    rintro _ ⟨⟩
    exact (hmembers.of_find? hfind).of_toInteger hk

theorem Declaration.HasNumerals.of_ofParameters {index : Nat} (hv : v.HasNumerals)
    (h : ofParameters index v = .ok d) : d.HasNumerals := by
  rw [ofParameters.eq_def] at h
  split at h
  · rename_i members
    split at h
    · rename_i dimension hdimension
      obtain ⟨n, hn, h⟩ := exists_of_bind_eq_ok h
      cases h
      exact (hv.of_find? hdimension).of_toInteger (mapError_eq_ok.mp hn)
    · split at h
      · cases h
      · rename_i value hvalue
        obtain ⟨items, hitems, h⟩ := exists_of_bind_eq_ok h
        have hnumerals := (hv.of_find? hvalue).of_toItems (mapError_eq_ok.mp hitems)
        split at h
        · rename_i argument result
          rw [List.forall_mem_cons, List.forall_mem_singleton] at hnumerals
          obtain ⟨a, ha, h⟩ := exists_of_bind_eq_ok h
          obtain ⟨r, hr, h⟩ := exists_of_bind_eq_ok h
          obtain ⟨compressed, hcompressed, h⟩ := exists_of_bind_eq_ok h
          cases h
          exact ⟨hnumerals.1.of_toInteger (mapError_eq_ok.mp ha),
            hnumerals.2.of_toInteger (mapError_eq_ok.mp hr),
            hasNumeral_of_compressedMember hv (mapError_eq_ok.mp hcompressed)⟩
        · cases h
  · cases h

theorem isPlain_object_of_names {members : Json.Members} (names : List String)
    (hmembers : members.map (·.1) = names.map Json.name) (hnames : (names.map Json.name).Nodup)
    (h : ∀ member ∈ members, member.2.IsPlain) : (Json.object members).IsPlain := by
  refine .object (hmembers ▸ hnames) ?_ h
  intro member hmember
  obtain ⟨s, -, hs⟩ := List.mem_map.mp (hmembers ▸ List.mem_map_of_mem hmember)
  exact ⟨s.toList, hs.symm⟩

private theorem Declaration.HasNumerals.isPlain (h : d.HasNumerals) : d.toData.IsPlain := by
  cases d with
  | vector d =>
    refine isPlain_object_of_names ["kind", "dim"] rfl (by decide) ?_
    rw [List.forall_mem_cons, List.forall_mem_singleton]
    exact ⟨.string _, .integer h⟩
  | function argument result compressed =>
    obtain ⟨hargument, hresult, hcompressed⟩ := h
    refine isPlain_object_of_names ["kind", "arg", "ret", "compressed_dim"] rfl (by decide) ?_
    rw [List.forall_mem_cons, List.forall_mem_cons, List.forall_mem_cons,
      List.forall_mem_singleton]
    refine ⟨.string _, .integer hargument, .integer hresult, ?_⟩
    cases compressed with
    | none => exact .null
    | some k => exact .integer (hcompressed k rfl)

end

namespace Context

variable {v : Json} {c : Context}

/-- Whether the names of all primitive terms are strings of characters. -/
def HasTextNames (c : Context) : Prop :=
  ∀ row ∈ c.primitives, ∀ name ∈ row.2, ∃ t : Text, name = t.codePoints

theorem hasNumerals_declarations (hv : v.HasNumerals) (h : ofParameters v = .ok c) :
    ∀ kind ∈ c.kinds, kind.declaration.HasNumerals := by
  obtain ⟨members, list, entries, declarations, names, rfl, hlist, hentries, hdeclarations, -, h⟩ :=
    exists_of_ofParameters h
  have hnumerals := (hv.of_find? hlist).of_toItems hentries
  obtain ⟨types, htypes, h⟩ := exists_of_bind_eq_ok h
  obtain ⟨-, -, h⟩ := exists_of_bind_eq_ok h
  cases h
  have hkinds := Ontology.declarations_of_ofDeclarations htypes
  intro kind hkind
  obtain ⟨⟨entry, i⟩, hentry, hread⟩ := exists_of_mem_of_mapM hdeclarations
    (hkinds ▸ List.mem_map_of_mem hkind)
  exact .of_ofParameters (hnumerals entry (List.fst_mem_of_mem_zipIdx hentry)) hread

/-- A context whose names have come back from their units. -/
def rejoined (c : Context) : Context where
  kinds := c.kinds
  primitives := c.primitives.map fun row ↦ (row.1, row.2.map CodePoint.paired)
  wellFormed := c.wellFormed
  ascending := by
    rw [List.map_map]
    exact c.ascending
  functional := List.forall_mem_map.mpr c.functional

/-- Names that are strings of characters come back as they are. -/
theorem HasTextNames.rejoined_eq (h : c.HasTextNames) : c.rejoined = c := by
  have hnames : ∀ row ∈ c.primitives, row.2.map CodePoint.paired = row.2 := by
    refine fun row hrow ↦ (List.map_congr_left (g := id) fun name hname ↦ ?_).trans (List.map_id _)
    obtain ⟨t, rfl⟩ := h row hrow name hname
    exact CodePoint.paired_codePoints t
  have hrows : c.rejoined.primitives = c.primitives := by
    refine (List.map_congr_left (g := id) fun row hrow ↦ ?_).trans (List.map_id _)
    exact Prod.ext rfl (hnames row hrow)
  obtain ⟨kinds, primitives, hkinds, hascending, hfunctional⟩ := c
  rw [mk.injEq]
  exact ⟨rfl, hrows⟩

theorem HasNumerals.rejoined (h : c.HasNumerals) : c.rejoined.HasNumerals :=
  List.forall_mem_map.mpr h

theorem readsAs_toData (hkinds : ∀ kind ∈ c.kinds, kind.declaration.HasNumerals) :
    c.toData.ReadsAs c.rejoined.toData := by
  have hname : ∀ s : String, ∃ t : Text, Json.name s = t.codePoints ∧ Json.name s = t.codePoints :=
    fun s ↦ ⟨s.toList, rfl, rfl⟩
  have htypes : (Json.array c.storedTypes).IsPlain := by
    refine .array (List.forall_mem_map.mpr fun kind hkind ↦ (hkinds kind hkind).isPlain)
  have hprimitives : (Json.object (storedRows c.primitives)).ReadsAs
      (.object (storedRows c.rejoined.primitives)) := by
    refine Json.readsAs_object ?_ ?_
    · have hmap : (storedRows c.primitives).map (·.1) =
          (c.primitives.map (·.1)).map fun typeId ↦ Text.codePoints (numeral typeId) := by
        rw [storedRows, List.map_map, List.map_map]
        rfl
      rw [hmap, List.Nodup, List.pairwise_map]
      exact c.ascending.imp fun hlt heq ↦ hlt.ne (numeral_injective (Text.codePoints_injective heq))
    · rw [rejoined, storedRows, storedRows, List.map_map, List.forall₂_map_left_iff,
        List.forall₂_map_right_iff, List.forall₂_same]
      intro row _
      refine ⟨⟨_, rfl, rfl⟩, Json.readsAs_array ?_⟩
      rw [List.map_map, List.forall₂_map_left_iff, List.forall₂_map_right_iff, List.forall₂_same]
      exact fun name _ ↦ Json.readsAs_string name
  have hnames : (["types", "primitives"].map Json.name).Nodup := by decide
  exact Json.readsAs_object hnames
    (.cons ⟨hname "types", htypes.readsAs⟩ (.cons ⟨hname "primitives", hprimitives⟩ .nil))

/-- The file of a context is read back with the names that come back. -/
theorem load_toBytes (hnumerals : c.HasNumerals)
    (hkinds : ∀ kind ∈ c.kinds, kind.declaration.HasNumerals) :
    load c.toBytes = .ok c.rejoined := by
  have hread : Json.ofBytes c.toBytes = .ok c.rejoined.toData :=
    (readsAs_toData hkinds).ofBytes_write
  rw [load, hread]
  exact mapError_eq_ok.mpr (ofData_toData hnumerals.rejoined)

/-- What is generated is the file of the context that the parameters describe. -/
theorem load_of_generate {parameters contents : Bytes} (h : generate parameters = .ok contents) :
    ∃ v c, Json.ofBytes parameters = .ok v ∧ ofParameters v = .ok c ∧ contents = c.toBytes ∧
      load contents = .ok c.rejoined := by
  have hgenerate := mapError_eq_ok.mp h
  obtain ⟨v, hv, hgenerate⟩ := exists_of_bind_eq_ok hgenerate
  have hread := mapError_eq_ok.mp hv
  obtain ⟨c, hc, hgenerate⟩ := exists_of_bind_eq_ok hgenerate
  cases hgenerate
  refine ⟨v, c, hread, hc, rfl, ?_⟩
  exact load_toBytes (.of_ofParameters hc) (hasNumerals_declarations (.of_ofBytes hread) hc)

/-- **What is generated is the file of the context that the parameters describe, and it is read
back.** -/
theorem exists_of_generate {parameters contents : Bytes} (h : generate parameters = .ok contents) :
    ∃ v c, Json.ofBytes parameters = .ok v ∧ ofParameters v = .ok c ∧ contents = c.toBytes ∧
      (c.HasTextNames → load contents = .ok c) := by
  obtain ⟨v, c, hv, hc, rfl, hload⟩ := load_of_generate h
  refine ⟨v, c, hv, hc, rfl, fun hnames ↦ ?_⟩
  rw [hload, hnames.rejoined_eq]

end Context

end TermEmbedding
