import Mathlib.Tactic.IntervalCases
import TermEmbedding.Json.Reader
import TermEmbedding.Json.Writer
import TermEmbedding.Proofs.Reading
import TermEmbedding.Proofs.Text.Pairs

/-!
# Strings of data files

What is written of a string is ASCII: a character without a visible ASCII form is escaped, in one
unit of four hexadecimal digits or in the two units of a surrogate pair. The reader puts the units
together again and gives back the string.

A stray surrogate is written as a unit of its own, and two of them side by side are read as the pair
that their units are. So a string comes back as it comes back from its units, and a string of
characters as it is.
-/

namespace TermEmbedding

namespace Json

/-! ## Units -/

private theorem hexadecimal_one {n : Nat} (h : n < 16) : hexadecimal 1 n = [Nat.digitChar n] := by
  rw [hexadecimal, Nat.toDigits_of_lt_base h]
  rfl

private theorem hexadecimal_succ {width : Nat} (h : 1 ≤ width) (n : Nat) :
    hexadecimal (width + 1) n = hexadecimal width (n / 16) ++ [Nat.digitChar (n % 16)] := by
  rw [hexadecimal, hexadecimal]
  by_cases hn : n < 16
  · rw [Nat.toDigits_of_lt_base hn, Nat.div_eq_of_lt hn, Nat.mod_eq_of_lt hn]
    obtain ⟨k, rfl⟩ := Nat.exists_eq_add_of_le' h
    simp [List.leftpad, Nat.toDigits_of_lt_base (b := 16) (by decide : 0 < 16),
      List.replicate_succ']
  · rw [Nat.toDigits_of_base_le (by decide) (Nat.not_lt.mp hn)]
    simp [List.leftpad]

private theorem hexadecimal_unit {n : Nat} (h : n < 0x10000) : hexadecimal 4 n =
    [Nat.digitChar (n / 16 / 16 / 16), Nat.digitChar (n / 16 / 16 % 16),
      Nat.digitChar (n / 16 % 16), Nat.digitChar (n % 16)] := by
  rw [hexadecimal_succ (by decide), hexadecimal_succ (by decide), hexadecimal_succ (by decide),
    hexadecimal_one (by omega)]
  rfl

theorem hexValue?_digitChar {d : Nat} (h : d < 16) :
    hexValue? (.char (Nat.digitChar d)) = some d := by
  interval_cases d <;> decide

private theorem reads_readUnit_cons {a b c d : CodePoint} {i j k l : Nat}
    (ha : hexValue? a = some i)
    (hb : hexValue? b = some j) (hc : hexValue? c = some k) (hd : hexValue? d = some l)
    (rest : List CodePoint) :
    Reads (readUnit (a :: b :: c :: d :: rest)) (((i * 16 + j) * 16 + k) * 16 + l) rest := by
  rw [readUnit, ha, hb, hc, hd]
  exact reads_ok_iff.mpr ⟨rfl, rfl⟩

theorem reads_readUnit {n : Nat} (h : n < 0x10000) (rest : List CodePoint) :
    Reads (readUnit (Text.codePoints (hexadecimal 4 n) ++ rest)) n rest := by
  have hfour := reads_readUnit_cons (hexValue?_digitChar (d := n / 16 / 16 / 16) (by omega))
    (hexValue?_digitChar (d := n / 16 / 16 % 16) (by omega))
    (hexValue?_digitChar (d := n / 16 % 16) (by omega))
    (hexValue?_digitChar (d := n % 16) (by omega)) rest
  have hvalue :
      ((n / 16 / 16 / 16 * 16 + n / 16 / 16 % 16) * 16 + n / 16 % 16) * 16 + n % 16 = n := by
    omega
  rw [hvalue] at hfour
  rw [hexadecimal_unit h]
  exact hfour

/-! ## Escapes -/

private theorem ofUnit_value (p : CodePoint) : ofUnit p.value = p := by
  rw [ofUnit, CodePoint.ofNat?_value]
  rfl

private theorem reads_readUnits_one {input rest : List CodePoint} {n : Nat}
    (h : Reads (readUnit input) n rest) (hn : ¬(0xD800 ≤ n ∧ n < 0xDC00)) :
    Reads (readUnits input) (ofUnit n) rest := by
  obtain ⟨r, hr, rfl, rfl⟩ := h
  rw [readUnits, hr]
  exact ⟨r.map ofUnit, if_neg hn, rfl, rfl⟩

/-- A unit that could begin a pair stands for itself if no unit follows that ends the pair. -/
private theorem reads_readUnits_alone {input rest : List CodePoint} {n : Nat}
    (h : Reads (readUnit input) n rest)
    (hrest : ∀ next, rest = .char '\\' :: .char 'u' :: next →
      ∃ low left, Reads (readUnit next) low left ∧ CodePoint.ofPair? n low = none) :
    Reads (readUnits input) (ofUnit n) rest := by
  obtain ⟨r, hr, rfl, rfl⟩ := h
  by_cases hhigh : 0xD800 ≤ r.value ∧ r.value < 0xDC00
  · rw [readUnits, hr]
    change Reads (if _ then _ else _) _ _
    rw [if_pos hhigh]
    split
    · rename_i next hnext
      obtain ⟨low, left, hlow, hpair⟩ := hrest next hnext
      obtain ⟨low, hlow, rfl, -⟩ := hlow
      refine reads_bind_iff.mpr ⟨low, hlow, ?_⟩
      rw [hpair]
      exact reads_ok_iff.mpr ⟨rfl, rfl⟩
    · exact reads_ok_iff.mpr ⟨rfl, rfl⟩
  · exact reads_readUnits_one ⟨r, hr, rfl, rfl⟩ hhigh

private theorem reads_readUnits_two {input next rest : List CodePoint} {high low : Nat}
    {p : CodePoint} (h : Reads (readUnit input) high (.char '\\' :: .char 'u' :: next))
    (hlow : Reads (readUnit next) low rest) (hpair : CodePoint.ofPair? high low = some p) :
    Reads (readUnits input) p rest := by
  have hhigh : 0xD800 ≤ high ∧ high < 0xDC00 := by
    rw [CodePoint.ofPair?] at hpair
    split_ifs at hpair with hboth
    exact ⟨hboth.1, hboth.2.1⟩
  obtain ⟨⟨_, _, hshorter⟩, hr, rfl, rfl⟩ := h
  obtain ⟨low', hlow', rfl, rfl⟩ := hlow
  rw [readUnits, hr]
  change Reads (if _ then _ else _) _ _
  rw [if_pos hhigh]
  change Reads (readUnit next >>= fun low ↦ _) _ _
  refine reads_bind_iff.mpr ⟨low', hlow', ?_⟩
  rw [hpair]
  exact reads_ok_iff.mpr ⟨rfl, rfl⟩

/-- **The escape of a character is read as the character.** -/
theorem reads_readUnits_escaped (c : Char) (rest : List CodePoint) :
    ∃ input, Text.codePoints (CodePoint.inString.escaped (.char c)) ++ rest =
      .char '\\' :: .char 'u' :: input ∧ Reads (readUnits input) (.char c) rest := by
  have hhalf := CodePoint.not_isHalf c
  rcases CodePoint.units_cases (.char c) with
    ⟨hlt, hunits⟩ | ⟨high, low, hhigh, hlow, hunits, hpair⟩
  · refine ⟨Text.codePoints (hexadecimal 4 c.toNat) ++ rest, ?_, ?_⟩
    · rw [CodePoint.inString.escaped, hunits, List.flatMap_singleton]
      rfl
    · rw [← ofUnit_value (.char c)]
      exact reads_readUnits_one (reads_readUnit hlt rest)
        fun h ↦ hhalf ⟨h.1, Nat.lt_trans h.2 (by decide)⟩
  · refine ⟨Text.codePoints (hexadecimal 4 high) ++
      .char '\\' :: .char 'u' :: (Text.codePoints (hexadecimal 4 low) ++ rest), ?_, ?_⟩
    · rw [CodePoint.inString.escaped, hunits, List.flatMap_cons, List.flatMap_singleton,
        Text.codePoints_append, List.append_assoc]
      rfl
    · exact reads_readUnits_two (reads_readUnit hhigh _) (reads_readUnit hlow rest) hpair

/-! ## Strings -/

section

variable {input mid rest : List CodePoint} {p : CodePoint} {ps : List CodePoint}

private theorem reads_readEscape_units (h : Reads (readUnits input) p rest) :
    Reads (readEscape (.char 'u' :: input)) p rest := by
  obtain ⟨r, hr, rfl, rfl⟩ := h
  rw [readEscape, hr]
  exact ⟨_, rfl, rfl, rfl⟩

private theorem reads_readString_nil (rest : List CodePoint) :
    Reads (readString (.char '"' :: rest)) [] rest := by
  rw [readString]
  exact ⟨_, rfl, rfl, rfl⟩

private theorem reads_readString_escape (h : Reads (readEscape input) p mid)
    (hrest : Reads (readString mid) ps rest) :
    Reads (readString (.char '\\' :: input)) (p :: ps) rest := by
  obtain ⟨r, hr, rfl, rfl⟩ := h
  obtain ⟨r', hr', rfl, rfl⟩ := hrest
  rw [readString, hr]
  change Reads (readString r.rest >>= fun ps ↦ _) _ _
  rw [hr']
  exact ⟨_, rfl, rfl, rfl⟩

private theorem reads_readString_plain (hquote : p ≠ .char '"') (hbackslash : p ≠ .char '\\')
    (hvalue : 0x20 ≤ p.value) (hrest : Reads (readString input) ps rest) :
    Reads (readString (p :: input)) (p :: ps) rest := by
  obtain ⟨r, hr, rfl, rfl⟩ := hrest
  rw [readString, if_neg (Nat.not_lt.mpr hvalue), hr]
  · exact ⟨_, rfl, rfl, rfl⟩
  · exact hquote
  · exact hbackslash

end

/-- How a code point stands in a string: by an escape of two characters, by itself, or by its
units. -/
private theorem inString_cases (p : CodePoint) :
    (∃ d, p.inString = ['\\', d] ∧ d ≠ 'u' ∧ IsAscii d ∧
      ∀ rest, Reads (readEscape (.char d :: rest)) p rest) ∨
    (∃ c, p = .char c ∧ p.inString = [c] ∧ c ≠ '"' ∧ c ≠ '\\' ∧ 0x20 ≤ c.toNat ∧ IsAscii c) ∨
    p.inString = CodePoint.inString.escaped p := by
  rcases p with c | k
  swap
  · exact .inr (.inr rfl)
  have hascii : ∀ d ∈ ['"', '\\', 'n', 'r', 't', 'b', 'f'], d ≠ 'u' ∧ IsAscii d := by
    simp [IsAscii]
  have hescape : ∀ d ∈ ['"', '\\', 'n', 'r', 't', 'b', 'f'], ∀ p : CodePoint,
      (∀ rest, Reads (readEscape (.char d :: rest)) p rest) → p.inString = ['\\', d] →
      ∃ d, p.inString = ['\\', d] ∧ d ≠ 'u' ∧ IsAscii d ∧
        ∀ rest, Reads (readEscape (.char d :: rest)) p rest :=
    fun d hd p hreads hp ↦ ⟨d, hp, (hascii d hd).1, (hascii d hd).2, hreads⟩
  by_cases hmarked : c = '"' ∨ c = '\\' ∨ c = '\n' ∨ c = '\r' ∨ c = '\t' ∨ c = '\x08' ∨ c = '\x0c'
  · left
    rcases hmarked with rfl | rfl | rfl | rfl | rfl | rfl | rfl
    · exact hescape '"' (by decide) _ (fun _ ↦ ⟨_, rfl, rfl, rfl⟩) rfl
    · exact hescape '\\' (by decide) _ (fun _ ↦ ⟨_, rfl, rfl, rfl⟩) rfl
    · exact hescape 'n' (by decide) _ (fun _ ↦ ⟨_, rfl, rfl, rfl⟩) rfl
    · exact hescape 'r' (by decide) _ (fun _ ↦ ⟨_, rfl, rfl, rfl⟩) rfl
    · exact hescape 't' (by decide) _ (fun _ ↦ ⟨_, rfl, rfl, rfl⟩) rfl
    · exact hescape 'b' (by decide) _ (fun _ ↦ ⟨_, rfl, rfl, rfl⟩) rfl
    · exact hescape 'f' (by decide) _ (fun _ ↦ ⟨_, rfl, rfl, rfl⟩) rfl
  · right
    simp only [not_or] at hmarked
    obtain ⟨hquote, hbackslash, hn, hr, ht, hb, hf⟩ := hmarked
    have hother : CodePoint.inString (.char c) =
        if ' ' ≤ c ∧ c ≤ '~' then [c] else CodePoint.inString.escaped (.char c) := by
      rw [CodePoint.inString]
      all_goals
        intro h
        injection h with h
        contradiction
    by_cases hvisible : ' ' ≤ c ∧ c ≤ '~'
    · left
      rw [hother, if_pos hvisible]
      have hlow : 0x20 ≤ c.toNat := hvisible.1
      have hhigh : c.toNat ≤ 0x7E := hvisible.2
      exact ⟨c, rfl, rfl, hquote, hbackslash, hlow, Nat.lt_of_lt_of_le (by decide) hlow,
        Nat.lt_of_le_of_lt hhigh (by decide)⟩
    · right
      rw [hother, if_neg hvisible]

private theorem reads_readString_inString {input rest : List CodePoint} {ps : List CodePoint}
    (c : Char) (hrest : Reads (readString input) ps rest) :
    Reads (readString (Text.codePoints (CodePoint.inString (.char c)) ++ input))
      (.char c :: ps) rest := by
  rcases inString_cases (.char c) with
    ⟨d, hd, -, -, hreads⟩ | ⟨_, ⟨⟩, hc, hquote, hbackslash, hvalue, -⟩ | hescaped
  · rw [hd]
    exact reads_readString_escape (hreads input) hrest
  · rw [hc]
    refine reads_readString_plain (fun h ↦ hquote ?_) (fun h ↦ hbackslash ?_) hvalue hrest
    · injection h
    · injection h
  · obtain ⟨left, hleft, hreads⟩ := reads_readUnits_escaped c input
    rw [hescaped, hleft]
    exact reads_readString_escape (reads_readEscape_units hreads) hrest

private theorem codePoints_inString_surrogate (k : Fin 0x800) (input : List CodePoint) :
    Text.codePoints (CodePoint.inString (.surrogate k)) ++ input =
      .char '\\' :: .char 'u' :: (Text.codePoints (hexadecimal 4 (0xD800 + k)) ++ input) := by
  change Text.codePoints (CodePoint.inString.escaped (.surrogate k)) ++ input = _
  rw [CodePoint.inString.escaped, CodePoint.units_surrogate, List.flatMap_singleton]
  rfl

/-- Where what is written of a string begins with a unit, it is the first one of the string. -/
private theorem exists_unit_of_escape {s input next : List CodePoint}
    (h : Text.codePoints (s.flatMap CodePoint.inString) ++ .char '"' :: input =
      .char '\\' :: .char 'u' :: next) :
    ∃ p s' low left, s = p :: s' ∧ low ∈ p.units.head? ∧ Reads (readUnit next) low left := by
  rcases s with _ | ⟨p, s⟩
  · cases h
  · rw [List.flatMap_cons, Text.codePoints_append, List.append_assoc] at h
    rcases inString_cases p with ⟨d, hd, hu, -⟩ | ⟨c, -, hc, -, hbackslash, -⟩ | hescaped
    · rw [hd] at h
      exact absurd (CodePoint.char.inj (List.cons.inj (List.cons.inj h).2).1) hu
    · rw [hc] at h
      exact absurd (CodePoint.char.inj (List.cons.inj h).1) hbackslash
    · obtain ⟨n, ns, hunits⟩ := List.exists_cons_of_ne_nil p.units_ne_nil
      have hlt := CodePoint.lt_of_mem_units (p := p) (n := n) (hunits ▸ List.mem_cons_self)
      rw [hescaped, CodePoint.inString.escaped, hunits, List.flatMap_cons,
        Text.codePoints_append, List.append_assoc] at h
      obtain rfl := (List.cons.inj (List.cons.inj h).2).2
      exact ⟨p, s, n, _, rfl, by rw [hunits]; rfl, reads_readUnit hlt _⟩

/-- **A string comes back from what is written of it as it comes back from its units.** -/
theorem reads_readString_stringText (s rest : List CodePoint) :
    Reads (readString (Text.codePoints (s.flatMap CodePoint.inString) ++ .char '"' :: rest))
      (CodePoint.paired s) rest := by
  induction hlength : s.length using Nat.strongRecOn generalizing s with
  | ind length ih =>
    subst hlength
    rcases s with _ | ⟨c | k, s⟩
    · exact reads_readString_nil rest
    · rw [CodePoint.paired_char, List.flatMap_cons, Text.codePoints_append, List.append_assoc]
      exact reads_readString_inString c (ih s.length (Nat.lt_succ_self _) s rfl)
    · have hunit : 0xD800 + k.val < 0x10000 := by omega
      rw [List.flatMap_cons, Text.codePoints_append, List.append_assoc,
        codePoints_inString_surrogate]
      by_cases hpair : ∃ l s' p, s = .surrogate l :: s' ∧
          CodePoint.ofPair? (0xD800 + k) (0xD800 + l) = some p
      · obtain ⟨l, s', p, rfl, hp⟩ := hpair
        have hunit' : 0xD800 + l.val < 0x10000 := by omega
        rw [CodePoint.paired_pair hp, List.flatMap_cons, Text.codePoints_append,
          List.append_assoc, codePoints_inString_surrogate]
        refine reads_readString_escape (reads_readEscape_units
          (reads_readUnits_two (reads_readUnit hunit _) (reads_readUnit hunit' _) hp)) ?_
        exact ih s'.length (Nat.lt_succ_of_lt (Nat.lt_succ_self _)) s' rfl
      · have hnone : ∀ l s', s = .surrogate l :: s' →
            CodePoint.ofPair? (0xD800 + k) (0xD800 + l) = none := fun l s' hs ↦
          Option.eq_none_iff_forall_ne_some.mpr fun p hp ↦ hpair ⟨l, s', p, hs, hp⟩
        rw [CodePoint.paired_surrogate hnone]
        refine reads_readString_escape (reads_readEscape_units ?_)
          (ih s.length (Nat.lt_succ_self _) s rfl)
        rw [← ofUnit_value (.surrogate k)]
        refine reads_readUnits_alone (reads_readUnit hunit _) fun next hnext ↦ ?_
        obtain ⟨c | l, s', low, left, rfl, hlow, hread⟩ := exists_unit_of_escape hnext
        · exact ⟨low, left, hread, CodePoint.ofPair?_head_units hlow⟩
        · rw [CodePoint.units_surrogate] at hlow
          cases hlow
          exact ⟨_, left, hread, hnone l s' rfl⟩

/-! ## What is written of a string -/

private theorem isAscii_digitChar {d : Nat} (h : d < 16) : IsAscii (Nat.digitChar d) := by
  interval_cases d <;> exact ⟨by decide, by decide⟩

theorem isAscii_of_mem_hexadecimal {n : Nat} (h : n < 0x10000) {c : Char}
    (hc : c ∈ hexadecimal 4 n) : IsAscii c := by
  rw [hexadecimal_unit h] at hc
  simp only [List.mem_cons, List.not_mem_nil, or_false] at hc
  rcases hc with rfl | rfl | rfl | rfl <;> exact isAscii_digitChar (by omega)

theorem isAscii_of_mem_inString {p : CodePoint} {d : Char} (hd : d ∈ p.inString) : IsAscii d := by
  have hbackslash : IsAscii '\\' := ⟨by decide, by decide⟩
  have hu : IsAscii 'u' := ⟨by decide, by decide⟩
  rcases inString_cases p with ⟨e, he, -, hascii, -⟩ | ⟨c, -, hc, -, -, -, hascii⟩ | hescaped
  · rw [he] at hd
    simp only [List.mem_cons, List.not_mem_nil, or_false] at hd
    rcases hd with rfl | rfl
    · exact hbackslash
    · exact hascii
  · rw [hc] at hd
    rwa [List.mem_singleton.mp hd]
  · rw [hescaped, CodePoint.inString.escaped] at hd
    obtain ⟨unit, hunit, hd⟩ := List.mem_flatMap.mp hd
    simp only [List.mem_cons] at hd
    rcases hd with rfl | rfl | hd
    · exact hbackslash
    · exact hu
    · exact isAscii_of_mem_hexadecimal (CodePoint.lt_of_mem_units hunit) hd

theorem isAscii_of_mem_stringText {s : List CodePoint} {c : Char} (h : c ∈ stringText s) :
    IsAscii c := by
  have hquote : IsAscii '"' := ⟨by decide, by decide⟩
  simp only [stringText, List.cons_append, List.mem_cons, List.mem_append, List.mem_flatMap,
    List.not_mem_nil, or_false] at h
  rcases h with rfl | ⟨p, -, hc⟩ | rfl
  · exact hquote
  · exact isAscii_of_mem_inString hc
  · exact hquote

end Json

end TermEmbedding
