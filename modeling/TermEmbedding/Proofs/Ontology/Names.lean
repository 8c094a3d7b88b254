import TermEmbedding.Proofs.Json.Shown
import TermEmbedding.Proofs.Ontology.Dimensions
import TermEmbedding.Proofs.Ontology.Stored

/-!
# Names of primitive terms

Parameters list values as the names of the primitive terms of a type. Equal values are refused, and
only then is each value taken for a name. So two terms of one type can have one name: a string among
the values may be what is shown for another value, and these two are not equal.

A context that is generated is stored in a file, where a name is written in 16-bit units and comes
back as it comes back from them. So in the context that is loaded two terms of one type have one
name if their names have the same units, and that can be so although they differ: two stray
surrogates that stand side by side have the units of a character.
-/

namespace TermEmbedding

/-! ## Values that are listed -/

/-- The values that the members with the names of primitive terms list for a type. Of the members
that spell the type, the last one counts. -/
def listedValues (rows : Json.Members) (typeId : TypeId) : Except DataFault (List Json) :=
  match rows.reverse.find? fun row ↦ (Json.string row.1).toInteger.toOption = some typeId with
  | none => return []
  | some row => row.2.toItems

def listedNames (members : Json.Members) (typeId : TypeId) : Except DataFault (List Json) := do
  match Json.Members.find? members "primitives" with
  | none => return []
  | some value => listedValues (← value.toMembers) typeId

private theorem hasRepetition_of_refuseRepetition {typeId : TypeId} {values : List Json}
    (h : refuseRepetition typeId values = .ok ()) : Json.hasRepetition values = .ok false := by
  obtain ⟨repeated, hrepeated, h⟩ := exists_of_bind_eq_ok h
  have hok : Json.hasRepetition values = .ok repeated := mapError_eq_ok.mp hrepeated
  cases repeated with
  | false => exact hok
  | true => cases h

section

variable {members : Json.Members} {table : Table TypeId (List TermName)}

/-- Names that are read are those of the values that are listed, which are checked. -/
private theorem exists_listedValues (h : readNames refuseRepetition members = .ok table)
    (typeId : TypeId) :
    ∃ values, listedValues members typeId = .ok values ∧ Json.hasRepetition values = .ok false ∧
      (table.get? typeId).getD [] = values.map Json.asName := by
  induction members using List.reverseRecOn generalizing table with
  | nil =>
    cases h
    exact ⟨[], rfl, rfl, rfl⟩
  | append_singleton members last ih =>
    obtain ⟨before, key, values, hbefore, hkey, hvalues, hcheck, rfl⟩ :=
      readNames_concat_eq_ok_iff.mp h
    have hspells : (Json.string last.1).toInteger.toOption = some typeId ↔ key = typeId := by
      rw [hkey]
      exact Option.some_inj
    rw [listedValues, List.reverse_concat, Table.get?_insert]
    by_cases heq : key = typeId
    · rw [List.find?_cons_of_pos (by simpa using hspells.mpr heq), if_pos heq]
      exact ⟨values, hvalues, hasRepetition_of_refuseRepetition hcheck, rfl⟩
    · rw [List.find?_cons_of_neg (by simpa using fun hspelled ↦ heq (hspells.mp hspelled)),
        if_neg heq]
      exact ih hbefore

private theorem exists_listedNames (h : readPrimitives refuseRepetition members = .ok table)
    (typeId : TypeId) :
    ∃ values, listedNames members typeId = .ok values ∧ Json.hasRepetition values = .ok false ∧
      (table.get? typeId).getD [] = values.map Json.asName := by
  rw [readPrimitives] at h
  split at h
  · rename_i hmissing
    cases h
    exact ⟨[], by rw [listedNames, hmissing]; rfl, rfl, rfl⟩
  · rename_i value hvalue
    obtain ⟨rows, hrows, h⟩ := exists_of_bind_eq_ok h
    obtain ⟨values, hlisted, hvalues⟩ := exists_listedValues h typeId
    have hobject : value.toMembers = .ok rows := mapError_eq_ok.mp hrows
    refine ⟨values, ?_, hvalues⟩
    rw [listedNames, hvalue]
    exact (bind_ok hobject _).trans hlisted

end

/-! ## Names in contexts -/

namespace Context

variable {c : Context}

private theorem exists_of_checkPrimitives {kinds : List Kind} {types : List TypeId}
    (h : checkPrimitives kinds types = .ok ()) :
    ∀ t ∈ types, 0 ≤ t ∧ ∃ kind ∈ kinds[t.toNat]?, kind.isFunction = true := by
  induction types with
  | nil => exact List.forall_mem_nil _
  | cons t types ih =>
    rw [checkPrimitives] at h
    split at h
    · cases h
    · rename_i kind hkind
      split_ifs at hkind h with hneg hfunction
      exact List.forall_mem_cons.mpr ⟨⟨Int.not_lt.mp hneg, kind, hkind, hfunction⟩, ih h⟩

theorem primitiveNames_of_ofDeclarations {declarations : List Declaration}
    {names : Table TypeId (List TermName)} (h : ofDeclarations declarations names = .ok c)
    (typeId : TypeId) : c.primitiveNames typeId = (names.get? typeId).getD [] := by
  obtain ⟨types, -, h⟩ := exists_of_bind_eq_ok h
  obtain ⟨⟨⟩, hcheck, h⟩ := exists_of_bind_eq_ok h
  have hmem : ∀ row, row ∈ c.primitives ↔
      (∃ kind ∈ types.kinds[row.1]?, kind.isFunction = true) ∧ names.get? row.1 = some row.2 := by
    cases h
    exact fun _ ↦ mem_arranged_iff
  cases hget : names.get? typeId with
  | none =>
    rw [primitiveNames]
    split
    · rename_i row hrow
      have htype : (row.1 : TypeId) = typeId := by simpa using List.find?_some hrow
      have hnames := ((hmem row).mp (List.mem_of_find?_eq_some hrow)).2
      rw [htype, hget] at hnames
      cases hnames
    · rfl
  | some list =>
    obtain ⟨hnonneg, hfunction⟩ := exists_of_checkPrimitives hcheck typeId
      (List.mem_map_of_mem (Table.mem_of_get? hget))
    obtain ⟨n, rfl⟩ := Int.eq_ofNat_of_zero_le hnonneg
    exact primitiveNames_of_mem ((hmem (n, list)).mpr ⟨hfunction, hget⟩)

theorem primitiveNames_rejoined (c : Context) (typeId : TypeId) :
    c.rejoined.primitiveNames typeId = (c.primitiveNames typeId).map CodePoint.paired := by
  have hfind : (c.rejoined.primitives.find? fun row ↦ (row.1 : TypeId) = typeId) =
      (c.primitives.find? fun row ↦ (row.1 : TypeId) = typeId).map
        fun row ↦ (row.1, row.2.map CodePoint.paired) := List.find?_map ..
  rw [primitiveNames, primitiveNames, hfind]
  cases c.primitives.find? fun row ↦ (row.1 : TypeId) = typeId with
  | none => rfl
  | some row => rfl

/-- **When the names of primitive terms are distinct.** For parameters that a context is generated
from, the terms of a type are named by the values that are listed for the type. Their names are
distinct in the context that is generated if and only if none of the strings among the values is
what is shown for another of them, and they are distinct in the context that is loaded if and only
if no two of them have the same units. -/
theorem nodup_primitiveNames_iff {parameters contents : Bytes}
    (h : generate parameters = .ok contents) :
    ∃ members c loaded, Json.ofBytes parameters = .ok (.object members) ∧
      ofParameters (.object members) = .ok c ∧ contents = c.toBytes ∧
      load contents = .ok loaded ∧ ∀ typeId, ∃ values,
        listedNames members typeId = .ok values ∧
        c.primitiveNames typeId = values.map Json.asName ∧
        ((c.primitiveNames typeId).Nodup ↔
          ∀ value ∈ values, .string value.asName ∈ values → value = .string value.asName) ∧
        loaded.primitiveNames typeId = (c.primitiveNames typeId).map CodePoint.paired ∧
        ((loaded.primitiveNames typeId).Nodup ↔ (c.primitiveNames typeId).Pairwise fun s s' ↦
          s.flatMap CodePoint.units ≠ s'.flatMap CodePoint.units) := by
  obtain ⟨v, c, hv, hc, rfl, hload⟩ := load_of_generate h
  obtain ⟨members, _, _, declarations, names, rfl, -, -, -, hnames, hbuilt⟩ :=
    exists_of_ofParameters hc
  refine ⟨members, c, c.rejoined, hv, hc, rfl, hload, fun typeId ↦ ?_⟩
  obtain ⟨values, hlisted, hrepetition, hvalues⟩ := exists_listedNames hnames typeId
  rw [← primitiveNames_of_ofDeclarations hbuilt] at hvalues
  refine ⟨values, hlisted, hvalues, ?_, primitiveNames_rejoined c typeId, ?_⟩
  · rw [hvalues]
    exact Json.nodup_map_asName_iff hrepetition
  · rw [primitiveNames_rejoined, List.Nodup, List.pairwise_map]
    simp only [ne_eq, CodePoint.paired_eq_iff]

/-- Parameters with an integer and its numeral as names of one type, and with a character and the
two halves of its pair as names of another. -/
def repeatedNames : Bytes :=
  Text.utf8 ("\x7b\"types\": [\x7b\"vector\": 1\x7d, \x7b\"function\": [0, 0]\x7d, ".toList ++
    "\x7b\"function\": [0, 0]\x7d], \"primitives\": ".toList ++
    "\x7b\"1\": [1, \"1\"], \"2\": [\"\\ud800\\udc00\", \"".toList) ++
  [0xED, 0xA0, 0x80, 0xED, 0xB0, 0x80] ++ Text.utf8 "\"]\x7d\x7d".toList

theorem nodup_primitiveNames_iff_repeated :
    ∃ (contents : Bytes) (c loaded : Context), generate repeatedNames = .ok contents ∧
      contents = c.toBytes ∧ load contents = .ok loaded ∧ ¬(c.primitiveNames 1).Nodup ∧
      (c.primitiveNames 2).Nodup ∧ ¬(loaded.primitiveNames 2).Nodup := by
  have hcomputed : (do
      let v ← (Json.ofBytes repeatedNames).toOption
      let c ← (ofParameters v).toOption
      some (c.primitiveNames 1, c.primitiveNames 2, (generate repeatedNames).toOption.isSome)) =
        some ([Text.codePoints ['1'], Text.codePoints ['1']],
          [[.char (.ofNat 0x10000)], [.surrogate 0, .surrogate 0x400]], true) := by
    decide +kernel
  obtain ⟨v, hv, hcomputed⟩ := Option.bind_eq_some_iff.mp hcomputed
  obtain ⟨c, hc, hcomputed⟩ := Option.bind_eq_some_iff.mp hcomputed
  rw [toOption_eq_some_iff] at hv hc
  simp only [Option.some.injEq, Prod.mk.injEq] at hcomputed
  obtain ⟨hone, htwo, hgenerate⟩ := hcomputed
  obtain ⟨contents, hcontents⟩ := Option.isSome_iff_exists.mp hgenerate
  rw [toOption_eq_some_iff] at hcontents
  obtain ⟨members, c', loaded, hv', hc', hfile, hload, hnames⟩ :=
    nodup_primitiveNames_iff hcontents
  cases hv.symm.trans hv'
  cases hc.symm.trans hc'
  obtain ⟨_, -, -, -, -, hiff⟩ := hnames 2
  refine ⟨contents, c, loaded, hcontents, hfile, hload, ?_, ?_, ?_⟩
  · rw [hone]
    decide
  · rw [htwo]
    decide
  · rw [hiff, htwo]
    decide

end Context

end TermEmbedding
