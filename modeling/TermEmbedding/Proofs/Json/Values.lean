import TermEmbedding.Json.Conversion
import TermEmbedding.Proofs.Json.Scalars
import TermEmbedding.Proofs.Table
import TermEmbedding.Proofs.Text.Pieces

/-!
# Values of data files

A value without numbers that are no integers is read as it was written, if its integers are short
enough for that, if the names of members differ in each object, and if all strings are strings of
characters. What is written is indented, and the reader skips the blanks.

A string with stray surrogates may come back as another one. So what is shown for each kind of value
is which value is read where it is written, and a plain value is one that is read as itself.
-/

namespace TermEmbedding

namespace Json

/-- Values that are read as they are written. -/
inductive IsPlain : Json → Prop
  | null : IsPlain null
  | bool (b : Bool) : IsPlain (bool b)
  | integer {i : Int} (h : hasNumeral i = true) : IsPlain (integer i)
  | string (t : Text) : IsPlain (string t.codePoints)
  | array {items : List Json} (h : ∀ item ∈ items, IsPlain item) : IsPlain (array items)
  | object {members : List (List CodePoint × Json)} (hnames : (members.map (·.1)).Nodup)
    (htexts : ∀ member ∈ members, ∃ t : Text, member.1 = t.codePoints)
    (h : ∀ member ∈ members, IsPlain member.2) : IsPlain (object members)

/-! ## Containers -/

section

variable {input mid left rest : List CodePoint} {v : Json} {name : List CodePoint}
  {items : List Json} {members : List (List CodePoint × Json)}

theorem reads_readValue_string {s : List CodePoint} (h : Reads (readString input) s rest) :
    Reads (readValue (.char '"' :: input)) (string s) rest := by
  obtain ⟨r, hr, rfl, rfl⟩ := h
  rw [readValue, hr]
  exact ⟨_, rfl, rfl, rfl⟩

theorem reads_readValue_scalar {p : CodePoint} (hquote : p ≠ .char '"') (hbracket : p ≠ .char '[')
    (hbrace : p ≠ .char '\x7b') (h : Reads (readScalar (p :: input)) v rest) :
    Reads (readValue (p :: input)) v rest := by
  rw [readValue]
  · exact h
  · rintro _ ⟨⟩
    exact hquote rfl
  · rintro _ ⟨⟩
    exact hbracket rfl
  · rintro _ ⟨⟩
    exact hbrace rfl

theorem reads_readValue_array_nil (h : skipGap input = .char ']' :: rest) :
    Reads (readValue (.char '[' :: input)) (array []) rest := by
  rw [readValue]
  split
  · rename_i left hleft
    cases h.symm.trans hleft
    exact reads_ok_iff.mpr ⟨rfl, rfl⟩
  · rename_i hother
    exact absurd h (hother rest)

theorem reads_readValue_array (hne : ∀ left, skipGap input ≠ .char ']' :: left)
    (h : Reads (readItems (skipGap input)) items rest) :
    Reads (readValue (.char '[' :: input)) (array items) rest := by
  obtain ⟨r, hr, rfl, rfl⟩ := h
  rw [readValue]
  split
  · rename_i left hleft
    exact absurd hleft (hne left)
  · rw [hr]
    exact ⟨_, rfl, rfl, rfl⟩

theorem reads_readValue_object_nil (h : skipGap input = .char '\x7d' :: rest) :
    Reads (readValue (.char '\x7b' :: input)) (object []) rest := by
  rw [readValue]
  split
  · rename_i left hleft
    cases h.symm.trans hleft
    exact reads_ok_iff.mpr ⟨rfl, rfl⟩
  · rename_i hother
    exact absurd h (hother rest)

theorem reads_readValue_object (hne : ∀ left, skipGap input ≠ .char '\x7d' :: left)
    (h : Reads (readMembers (skipGap input)) members rest) :
    Reads (readValue (.char '\x7b' :: input)) (object (Table.ofRows members)) rest := by
  obtain ⟨r, hr, rfl, rfl⟩ := h
  rw [readValue]
  split
  · rename_i left hleft
    exact absurd hleft (hne left)
  · rw [hr]
    exact ⟨_, rfl, rfl, rfl⟩

private theorem reads_readItems_last (hv : Reads (readValue input) v mid)
    (hmid : skipGap mid = .char ']' :: rest) : Reads (readItems input) [v] rest := by
  obtain ⟨r, hr, rfl, rfl⟩ := hv
  rw [readItems, bind_ok hr]
  split
  · rename_i left hleft
    cases hmid.symm.trans hleft
    exact reads_ok_iff.mpr ⟨rfl, rfl⟩
  · rename_i left hleft
    cases hmid.symm.trans hleft
  · rename_i hother _
    exact absurd hmid (hother rest)

private theorem reads_readItems_cons (hv : Reads (readValue input) v mid)
    (hmid : skipGap mid = .char ',' :: left)
    (hitems : Reads (readItems (skipGap left)) items rest) :
    Reads (readItems input) (v :: items) rest := by
  obtain ⟨r, hr, rfl, rfl⟩ := hv
  obtain ⟨r', hr', rfl, rfl⟩ := hitems
  rw [readItems, bind_ok hr]
  split
  · rename_i left hleft
    cases hmid.symm.trans hleft
  · rename_i left hleft
    cases hmid.symm.trans hleft
    rw [hr']
    exact ⟨_, rfl, rfl, rfl⟩
  · rename_i hother
    exact absurd hmid (hother left)

private theorem reads_readMembers_last {right : List CodePoint}
    (hname : Reads (readString input) name mid)
    (hmid : skipGap mid = .char ':' :: right) {after : List CodePoint}
    (hv : Reads (readValue (skipGap right)) v after)
    (hafter : skipGap after = .char '\x7d' :: rest) :
    Reads (readMembers (.char '"' :: input)) [(name, v)] rest := by
  obtain ⟨r, hr, rfl, rfl⟩ := hname
  obtain ⟨r', hr', rfl, rfl⟩ := hv
  rw [readMembers, bind_ok hr]
  split
  · rename_i right' hright
    cases hmid.symm.trans hright
    rw [bind_ok hr']
    split
    · rename_i left hleft
      cases hafter.symm.trans hleft
      exact reads_ok_iff.mpr ⟨rfl, rfl⟩
    · rename_i left hleft
      cases hafter.symm.trans hleft
    · rename_i hother _
      exact absurd hafter (hother rest)
  · rename_i hother
    exact absurd hmid (hother right)

private theorem reads_readMembers_cons {right : List CodePoint}
    (hname : Reads (readString input) name mid)
    (hmid : skipGap mid = .char ':' :: right) {after : List CodePoint}
    (hv : Reads (readValue (skipGap right)) v after) (hafter : skipGap after = .char ',' :: left)
    (hmembers : Reads (readMembers (skipGap left)) members rest) :
    Reads (readMembers (.char '"' :: input)) ((name, v) :: members) rest := by
  obtain ⟨r, hr, rfl, rfl⟩ := hname
  obtain ⟨r', hr', rfl, rfl⟩ := hv
  obtain ⟨r'', hr'', rfl, rfl⟩ := hmembers
  rw [readMembers, bind_ok hr]
  split
  · rename_i right' hright
    cases hmid.symm.trans hright
    rw [bind_ok hr']
    split
    · rename_i left hleft
      cases hafter.symm.trans hleft
    · rename_i left hleft
      cases hafter.symm.trans hleft
      rw [bind_ok hr'']
      exact reads_ok_iff.mpr ⟨rfl, rfl⟩
    · rename_i hother
      exact absurd hafter (hother left)
  · rename_i hother
    exact absurd hmid (hother right)

end

/-! ## Written values -/

/-- Whether a text begins with something that is no blank and no bracket that closes. -/
def Begins (input : List CodePoint) : Prop :=
  ∃ c rest, input = .char c :: rest ∧ 0x20 < c.toNat ∧ c ≠ ']' ∧ c ≠ '\x7d'

section

variable {input rest : List CodePoint}

private theorem isGap_eq_false {c : Char} (h : 0x20 < c.toNat) : isGap (.char c) = false := by
  rw [isGap]
  all_goals
    intro hc
    injection hc with hc
    rw [hc] at h
    exact absurd h (by decide)

theorem Begins.skipGap_eq (h : Begins input) : skipGap input = input := by
  obtain ⟨c, rest, rfl, hc, -, -⟩ := h
  exact skipGap_of_not_isGap (isGap_eq_false hc) rest

theorem Begins.ne (h : Begins input) {c : Char} (hc : c = ']' ∨ c = '\x7d')
    (left : List CodePoint) : input ≠ .char c :: left := by
  obtain ⟨d, rest, rfl, -, hd, hd'⟩ := h
  rintro ⟨⟩
  rcases hc with rfl | rfl
  · exact hd rfl
  · exact hd' rfl

private theorem begins_cons {c : Char} (h : 0x20 < c.toNat ∧ c ≠ ']' ∧ c ≠ '\x7d')
    (rest : List CodePoint) : Begins (.char c :: rest) :=
  ⟨c, rest, rfl, h⟩

private theorem enclosed_eq_cons (opening closing : Char) (indent : Nat) (parts : List Text) :
    ∃ t, enclosed opening closing indent parts = opening :: t := by
  cases parts with
  | nil => exact ⟨_, rfl⟩
  | cons part parts => exact ⟨_, rfl⟩

private theorem exists_cons_integerNumeral (i : Int) :
    ∃ c t, integerNumeral i = c :: t ∧ (c = '-' ∨ c.isDigit = true) := by
  have hne : integerNumeral i ≠ [] := by
    rw [integerNumeral]
    split
    · exact List.cons_ne_nil _ _
    · exact numeral_ne_nil _
  obtain ⟨c, t, h⟩ := List.exists_cons_of_ne_nil hne
  exact ⟨c, t, h, mem_integerNumeral (h ▸ List.mem_cons_self)⟩

private theorem endsNumber_lineBreak (indent : Nat) (rest : List CodePoint) :
    EndsNumber (Text.codePoints (lineBreak indent) ++ rest) :=
  endsNumber_cons (by decide) _

private theorem skipGap_comma (indent : Nat) (input : List CodePoint) :
    skipGap (Text.codePoints (',' :: lineBreak indent) ++ input) =
      .char ',' :: (Text.codePoints (lineBreak indent) ++ input) :=
  skipGap_of_not_isGap rfl _

/-- Wherever `v` is written, `w` is read. What is written begins with no blank and with no bracket
that closes, so it can stand in a container, and it is ASCII, so it can stand in a file. -/
structure ReadsAs (v w : Json) : Prop where
  begins (indent : Nat) (rest : List CodePoint) :
    Begins (Text.codePoints (v.written indent) ++ rest)
  isAscii (indent : Nat) : ∀ c ∈ v.written indent, IsAscii c
  reads (indent : Nat) (rest : List CodePoint) (hrest : EndsNumber rest) :
    Reads (readValue (Text.codePoints (v.written indent) ++ rest)) w rest

/-! ### Scalars and strings -/

private theorem isAscii_of_mem_word {t : Text}
    (ht : t ∈ ["null".toList, "true".toList, "false".toList]) : ∀ c ∈ t, IsAscii c := by
  have hwords : ∀ t ∈ ["null".toList, "true".toList, "false".toList], ∀ c ∈ t, IsAscii c := by
    simp [IsAscii]
  exact hwords t ht

private theorem readsAs_null : null.ReadsAs null where
  begins _ _ := begins_cons (by decide) _
  isAscii _ := isAscii_of_mem_word (.head _)
  reads _ rest _ :=
    reads_readValue_scalar (by decide) (by decide) (by decide) (reads_readScalar_null rest)

private theorem readsAs_bool (b : Bool) : (bool b).ReadsAs (bool b) where
  begins _ _ := by
    cases b
    · exact begins_cons (by decide) _
    · exact begins_cons (by decide) _
  isAscii _ := by
    cases b
    · exact isAscii_of_mem_word (.tail _ (.tail _ (.head _)))
    · exact isAscii_of_mem_word (.tail _ (.head _))
  reads _ rest _ := by
    have hscalar := reads_readScalar_bool b rest
    cases b
    · exact reads_readValue_scalar (by decide) (by decide) (by decide) hscalar
    · exact reads_readValue_scalar (by decide) (by decide) (by decide) hscalar

private theorem isAscii_of_isDigit {c : Char} (h : c.isDigit = true) : IsAscii c := by
  obtain ⟨hlow, hhigh⟩ := Char.isDigit_iff_toNat.mp h
  exact ⟨Nat.lt_of_lt_of_le (by decide) hlow, Nat.lt_of_le_of_lt hhigh (by decide)⟩

private theorem readsAs_integer {i : Int} (h : hasNumeral i = true) :
    (integer i).ReadsAs (integer i) := by
  obtain ⟨c, t, hc, hfirst⟩ := exists_cons_integerNumeral i
  refine ⟨fun indent rest ↦ ?_, fun indent d hd ↦ ?_, fun indent rest hrest ↦ ?_⟩
  · rw [written, hc]
    rcases hfirst with rfl | hdigit
    · exact begins_cons (by decide) _
    · refine begins_cons ⟨?_, ?_, ?_⟩ _
      · exact Nat.lt_of_lt_of_le (by decide) (Char.isDigit_iff_toNat.mp hdigit).1
      · rintro rfl
        cases hdigit
      · rintro rfl
        cases hdigit
  · rw [written] at hd
    rcases mem_integerNumeral hd with rfl | hdigit
    · exact ⟨by decide, by decide⟩
    · exact isAscii_of_isDigit hdigit
  · have hother : ∀ {d : Char}, d ≠ '-' ∧ d.isDigit = false → CodePoint.char c ≠ .char d := by
      rintro d ⟨hminus, hd⟩ hcd
      injection hcd with hcd
      rcases hfirst with hc | hc
      · exact hminus (hcd.symm.trans hc)
      · rw [hcd, hd] at hc
        cases hc
    have hscalar := reads_readScalar_integer h hrest
    rw [written]
    rw [hc] at hscalar ⊢
    exact reads_readValue_scalar (hother (by decide)) (hother (by decide)) (hother (by decide))
      hscalar

/-- A string is read as it comes back from its units. -/
theorem readsAs_string (s : List CodePoint) :
    (string s).ReadsAs (string (CodePoint.paired s)) where
  begins _ _ := begins_cons (by decide) _
  isAscii _ _ := isAscii_of_mem_stringText
  reads indent rest _ := by
    have hwritten : Text.codePoints ((string s).written indent) ++ rest =
        .char '"' :: (Text.codePoints (s.flatMap CodePoint.inString) ++ .char '"' :: rest) := by
      simp [written, stringText, Text.codePoints]
    rw [hwritten]
    exact reads_readValue_string (reads_readString_stringText s rest)

/-! ### Arrays -/

private theorem isAscii_of_mem_enclosed {opening closing : Char} (hopening : IsAscii opening)
    (hclosing : IsAscii closing) {indent : Nat} {parts : List Text}
    (hparts : ∀ part ∈ parts, ∀ c ∈ part, IsAscii c) {c : Char}
    (h : c ∈ enclosed opening closing indent parts) : IsAscii c := by
  have hbreak : ∀ {indent : Nat} {c : Char}, c ∈ lineBreak indent → IsAscii c := by
    intro indent c hc
    rcases List.mem_cons.mp hc with rfl | hc
    · exact ⟨by decide, by decide⟩
    · rw [List.eq_of_mem_replicate hc]
      exact ⟨by decide, by decide⟩
  cases parts with
  | nil =>
    simp only [enclosed, List.mem_cons, List.not_mem_nil, or_false] at h
    rcases h with rfl | rfl
    · exact hopening
    · exact hclosing
  | cons part parts =>
    simp only [enclosed, List.cons_append, List.mem_cons, List.mem_append, List.not_mem_nil,
      or_false] at h
    rcases h with rfl | ((h | h) | h) | rfl
    · exact hopening
    · exact hbreak h
    · rcases Text.mem_join h with h | ⟨other, hother, h⟩
      · rcases List.mem_cons.mp h with rfl | h
        · exact ⟨by decide, by decide⟩
        · exact hbreak h
      · exact hparts other hother c h
    · exact hbreak h
    · exact hclosing

private theorem writtenItems_eq_map (indent : Nat) (items : List Json) :
    writtenItems indent items = items.map (·.written indent) := by
  induction items with
  | nil => rfl
  | cons item items ih => rw [writtenItems, ih, List.map_cons]

private theorem reads_readItems_written {items items' : List Json} (hne : items ≠ [])
    (h : List.Forall₂ ReadsAs items items') (indent outer : Nat) (rest : List CodePoint) :
    ∃ input, Text.codePoints (Text.join (',' :: lineBreak indent) (writtenItems indent items)) ++
        (Text.codePoints (lineBreak outer) ++ .char ']' :: rest) = input ∧
      Begins input ∧ Reads (readItems input) items' rest := by
  refine ⟨_, rfl, ?_⟩
  induction h with
  | nil => exact absurd rfl hne
  | @cons item item' items items' hitem hitems ih =>
    cases items with
    | nil =>
      cases hitems
      refine ⟨hitem.begins indent _, ?_⟩
      refine reads_readItems_last (hitem.reads indent _ (endsNumber_lineBreak outer _)) ?_
      rw [skipGap_lineBreak]
      exact skipGap_of_not_isGap rfl rest
    | cons next items =>
      obtain ⟨hbegins, hreads⟩ := ih (List.cons_ne_nil _ _)
      have hjoin : Text.join (',' :: lineBreak indent)
          (writtenItems indent (item :: next :: items)) = item.written indent ++
            (',' :: lineBreak indent) ++
              Text.join (',' :: lineBreak indent) (writtenItems indent (next :: items)) := rfl
      rw [hjoin, Text.codePoints_append, Text.codePoints_append, List.append_assoc,
        List.append_assoc]
      refine ⟨hitem.begins indent _, ?_⟩
      refine reads_readItems_cons (hitem.reads indent _ (endsNumber_cons (by decide) _))
        (skipGap_comma indent _) ?_
      rw [skipGap_lineBreak, hbegins.skipGap_eq]
      exact hreads

theorem readsAs_array {items items' : List Json} (h : List.Forall₂ ReadsAs items items') :
    (array items).ReadsAs (array items') := by
  refine ⟨fun indent rest ↦ ?_, fun indent c hc ↦ ?_, fun indent rest _ ↦ ?_⟩
  · obtain ⟨t, ht⟩ := enclosed_eq_cons '[' ']' indent _
    rw [written, ht]
    exact begins_cons (by decide) _
  · rw [written] at hc
    refine isAscii_of_mem_enclosed ⟨by decide, by decide⟩ ⟨by decide, by decide⟩ ?_ hc
    rw [writtenItems_eq_map, List.forall_mem_map]
    exact ((List.forall₂_and_left _ _).mp (h.imp fun _ _ hitem ↦ ⟨hitem.isAscii _, hitem⟩)).1
  · cases items with
    | nil =>
      cases h
      exact reads_readValue_array_nil (skipGap_of_not_isGap rfl rest)
    | cons item items =>
      obtain ⟨input, hinput, hbegins, hreads⟩ :=
        reads_readItems_written (List.cons_ne_nil _ _) h (indent + levelIndent) indent rest
      have hwritten : Text.codePoints ((array (item :: items)).written indent) ++ rest =
          .char '[' :: (Text.codePoints (lineBreak (indent + levelIndent)) ++ input) := by
        rw [← hinput]
        simp [written, writtenItems, enclosed, Text.codePoints]
      rw [hwritten]
      refine reads_readValue_array (fun left ↦ ?_) ?_
      · rw [skipGap_lineBreak, hbegins.skipGap_eq]
        exact hbegins.ne (.inl rfl) left
      · rw [skipGap_lineBreak, hbegins.skipGap_eq]
        exact hreads

/-! ### Objects -/

/-- A member is read as one of the same name. -/
structure MemberReadsAs (member member' : List CodePoint × Json) : Prop where
  name : ∃ t : Text, member.1 = t.codePoints ∧ member'.1 = t.codePoints
  value : member.2.ReadsAs member'.2

private theorem writtenMembers_eq_map (indent : Nat) (members : List (List CodePoint × Json)) :
    writtenMembers indent members = members.map fun member ↦
      stringText member.1 ++ [':', ' '] ++ member.2.written indent := by
  induction members with
  | nil => rfl
  | cons member members ih => rw [writtenMembers, ih, List.map_cons]

private theorem codePoints_member (t : Text) (v : Json) (indent : Nat) (mid : List CodePoint) :
    Text.codePoints (stringText t.codePoints ++ [':', ' '] ++ v.written indent) ++ mid =
      .char '"' :: (Text.codePoints (t.codePoints.flatMap CodePoint.inString) ++
        .char '"' :: .char ':' :: .char ' ' :: (Text.codePoints (v.written indent) ++ mid)) := by
  simp [stringText, Text.codePoints]

private theorem reads_readString_name (t : Text) (rest : List CodePoint) :
    Reads (readString (Text.codePoints (t.codePoints.flatMap CodePoint.inString) ++
      .char '"' :: rest)) t.codePoints rest := by
  have hreads := reads_readString_stringText t.codePoints rest
  rwa [CodePoint.paired_codePoints] at hreads

private theorem ReadsAs.reads_behind_blank {v w : Json} (h : v.ReadsAs w) (indent : Nat)
    {mid : List CodePoint} (hmid : EndsNumber mid) :
    Reads (readValue (skipGap
      (.char ' ' :: (Text.codePoints (v.written indent) ++ mid)))) w mid := by
  have hgap : skipGap (.char ' ' :: (Text.codePoints (v.written indent) ++ mid)) =
      Text.codePoints (v.written indent) ++ mid := (h.begins indent mid).skipGap_eq
  rw [hgap]
  exact h.reads indent mid hmid

private theorem reads_readMembers_written {members members' : List (List CodePoint × Json)}
    (hne : members ≠ []) (h : List.Forall₂ MemberReadsAs members members') (indent outer : Nat)
    (rest : List CodePoint) :
    ∃ input, Text.codePoints (Text.join (',' :: lineBreak indent)
        (writtenMembers indent members)) ++
          (Text.codePoints (lineBreak outer) ++ .char '\x7d' :: rest) = input ∧
      Begins input ∧ Reads (readMembers input) members' rest := by
  refine ⟨_, rfl, ?_⟩
  induction h with
  | nil => exact absurd rfl hne
  | @cons member member' members members' hmember hmembers ih =>
    obtain ⟨name, v⟩ := member
    obtain ⟨name', w⟩ := member'
    obtain ⟨⟨t, ht, ht'⟩, hv⟩ := hmember
    obtain rfl : name = t.codePoints := ht
    obtain rfl : name' = t.codePoints := ht'
    cases members with
    | nil =>
      cases hmembers
      change Begins (Text.codePoints (stringText t.codePoints ++ [':', ' '] ++
          v.written indent) ++ _) ∧
        Reads (readMembers (Text.codePoints (stringText t.codePoints ++ [':', ' '] ++
          v.written indent) ++ _)) _ _
      rw [codePoints_member]
      refine ⟨begins_cons (by decide) _, ?_⟩
      refine reads_readMembers_last (reads_readString_name t _) (skipGap_of_not_isGap rfl _)
        (hv.reads_behind_blank indent (endsNumber_lineBreak outer _)) ?_
      rw [skipGap_lineBreak]
      exact skipGap_of_not_isGap rfl rest
    | cons next members =>
      obtain ⟨hbegins, hreads⟩ := ih (List.cons_ne_nil _ _)
      have hjoin : Text.join (',' :: lineBreak indent)
          (writtenMembers indent ((t.codePoints, v) :: next :: members)) =
            stringText t.codePoints ++ [':', ' '] ++ v.written indent ++
              (',' :: lineBreak indent) ++
                Text.join (',' :: lineBreak indent) (writtenMembers indent (next :: members)) := rfl
      rw [hjoin, Text.codePoints_append, Text.codePoints_append (_ ++ v.written indent),
        List.append_assoc, List.append_assoc, codePoints_member]
      refine ⟨begins_cons (by decide) _, ?_⟩
      refine reads_readMembers_cons (reads_readString_name t _) (skipGap_of_not_isGap rfl _)
        (hv.reads_behind_blank indent (endsNumber_cons (by decide) _)) (skipGap_comma indent _) ?_
      rw [skipGap_lineBreak, hbegins.skipGap_eq]
      exact hreads

private theorem map_fst_eq_of_forall₂ {members members' : List (List CodePoint × Json)}
    (h : List.Forall₂ MemberReadsAs members members') : members'.map (·.1) = members.map (·.1) := by
  induction h with
  | nil => rfl
  | cons hmember _ ih =>
    obtain ⟨t, ht, ht'⟩ := hmember.name
    rw [List.map_cons, List.map_cons, ht, ht', ih]

private theorem isAscii_of_mem_writtenMembers {members members' : List (List CodePoint × Json)}
    (h : List.Forall₂ MemberReadsAs members members') (indent : Nat) :
    ∀ t ∈ writtenMembers indent members, ∀ c ∈ t, IsAscii c := by
  rw [writtenMembers_eq_map, List.forall_mem_map]
  intro member hmember c hc
  have hvalues := ((List.forall₂_and_left _ _).mp
    (h.imp fun _ _ hmember ↦ ⟨hmember.value.isAscii indent, hmember⟩)).1
  simp only [List.mem_append, List.mem_cons, List.not_mem_nil, or_false] at hc
  rcases hc with (hc | rfl | rfl) | hc
  · exact isAscii_of_mem_stringText hc
  · exact ⟨by decide, by decide⟩
  · exact ⟨by decide, by decide⟩
  · exact hvalues member hmember c hc

theorem readsAs_object {members members' : List (List CodePoint × Json)}
    (hnames : (members.map (·.1)).Nodup) (h : List.Forall₂ MemberReadsAs members members') :
    (object members).ReadsAs (object members') := by
  refine ⟨fun indent rest ↦ ?_, fun indent c hc ↦ ?_, fun indent rest _ ↦ ?_⟩
  · obtain ⟨t, ht⟩ := enclosed_eq_cons '\x7b' '\x7d' indent _
    rw [written, ht]
    exact begins_cons (by decide) _
  · rw [written] at hc
    exact isAscii_of_mem_enclosed ⟨by decide, by decide⟩ ⟨by decide, by decide⟩
      (isAscii_of_mem_writtenMembers h _) hc
  · rw [← map_fst_eq_of_forall₂ h] at hnames
    cases members with
    | nil =>
      cases h
      exact reads_readValue_object_nil (skipGap_of_not_isGap rfl rest)
    | cons member members =>
      obtain ⟨input, hinput, hbegins, hreads⟩ :=
        reads_readMembers_written (List.cons_ne_nil _ _) h (indent + levelIndent) indent rest
      have hwritten : Text.codePoints ((object (member :: members)).written indent) ++ rest =
          .char '\x7b' :: (Text.codePoints (lineBreak (indent + levelIndent)) ++ input) := by
        rw [← hinput]
        simp [written, writtenMembers, enclosed, Text.codePoints]
      rw [hwritten, ← Table.ofRows_eq (Table.pairwise_of_nodup hnames)]
      refine reads_readValue_object (fun left ↦ ?_) ?_
      · rw [skipGap_lineBreak, hbegins.skipGap_eq]
        exact hbegins.ne (.inr rfl) left
      · rw [skipGap_lineBreak, hbegins.skipGap_eq]
        exact hreads

/-! ### Plain values -/

/-- **A plain value is read as it is written.** -/
theorem IsPlain.readsAs {v : Json} (h : v.IsPlain) : v.ReadsAs v := by
  induction h with
  | null => exact readsAs_null
  | bool b => exact readsAs_bool b
  | integer hi => exact readsAs_integer hi
  | string t =>
    have hstring := readsAs_string t.codePoints
    rwa [CodePoint.paired_codePoints] at hstring
  | array _ ih => exact readsAs_array (List.forall₂_same.mpr ih)
  | object hnames htexts _ ih =>
    refine readsAs_object hnames (List.forall₂_same.mpr fun member hmember ↦ ?_)
    obtain ⟨t, ht⟩ := htexts member hmember
    exact ⟨⟨t, ht, ht⟩, ih member hmember⟩

/-! ## Files -/

/-- **The file that a value is written to holds the value that is read of it.** -/
theorem ReadsAs.ofBytes_write {v w : Json} (h : v.ReadsAs w) :
    ofBytes (Text.utf8 v.write) = .ok w := by
  have hpoints := Bytes.codePoints?_utf8 (h.isAscii 0)
  have hbegins := h.begins 0 []
  have hback := h.reads 0 [] endsNumber_nil
  rw [List.append_nil] at hbegins hback
  obtain ⟨r, hr, hvalue, hrest⟩ := hback
  have hread : read (Text.codePoints v.write) = .ok w := by
    rw [read, write, hbegins.skipGap_eq, bind_ok hr, hrest, hvalue]
    rfl
  rw [ofBytes, write, hpoints]
  dsimp only
  rw [← write, hread]
  rfl

theorem IsPlain.ofBytes_write {v : Json} (h : v.IsPlain) : ofBytes (Text.utf8 v.write) = .ok v :=
  h.readsAs.ofBytes_write

end

end Json

end TermEmbedding
