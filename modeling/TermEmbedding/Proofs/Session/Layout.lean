import TermEmbedding.Proofs.Exceptions
import TermEmbedding.Proofs.Text.Pieces
import TermEmbedding.Session.Command

/-!
# The layout of command lines

A line is a word, and an argument behind it if there is one. Blanks stand around the line and
between its two parts, and how many there are and of what kind says nothing: a line of any layout is
taken apart into the word and the argument that it was put together from, and only a line without a
word is not taken apart.

## The grammar

  line := word (separator argument)?

What may come next is known from what has come before, and of the texts of the terminal that may
come next the longest one is taken. The grammar is applied to a line without the blanks around it.
Then it never gets stuck: the longest word ends at a blank or at the end of the line, the longest
separator ends at the argument since a line does not end with a blank, and an argument is all that
is left, with the blanks and the line ends in it.

## Bindings

The argument of a binding is split once more, at its first equals sign, and blanks around both parts
say nothing again. The expression may have equals signs of its own.
-/

namespace TermEmbedding

namespace Command

open Text (AllBlank EndsPlain EndsRun)

/-! ## Lines of any layout -/

/-- A word: characters that are no blanks. -/
structure IsWord (w : Text) : Prop where
  nonempty : w ≠ []
  plain : ∀ c ∈ w, isBlank c = false

/-- What separates the argument from the word. -/
structure IsSeparator (s : Text) : Prop where
  nonempty : s ≠ []
  blank : AllBlank s

/-- An argument: any characters, but no blank at either end. -/
structure IsArgument (a : Text) : Prop where
  nonempty : a ≠ []
  begins : EndsRun isBlank a
  ends : EndsPlain a

/-- The lines of a word and an argument in all layouts. -/
inductive Spells : Text → Text → Option Text → Prop
  | word {p w q : Text} (hp : AllBlank p) (hw : IsWord w) (hq : AllBlank q) :
      Spells (p ++ (w ++ q)) w none
  | argument {p w s a q : Text} (hp : AllBlank p) (hw : IsWord w) (hs : IsSeparator s)
      (ha : IsArgument a) (hq : AllBlank q) : Spells (p ++ (w ++ (s ++ a) ++ q)) w (some a)

/-! ## The grammar of lines -/

/-- The terminals of the grammar. -/
inductive Terminal where
  | word
  | separator
  | argument

/-- The texts of a terminal. An argument is all that follows a character that is no blank. -/
def Terminal.Matches : Terminal → Text → Prop
  | word, t => t ≠ [] ∧ ∀ c ∈ t, isBlank c = false
  | separator, t => t ≠ [] ∧ ∀ c ∈ t, isBlank c = true
  | argument, t => ∃ c rest, t = c :: rest ∧ isBlank c = false

/-- The longest text of a terminal at the beginning of an input. -/
structure Terminal.Scans (terminal : Terminal) (input lexeme rest : Text) : Prop where
  split : input = lexeme ++ rest
  matched : terminal.Matches lexeme
  longest : ∀ longer, longer <+: input → terminal.Matches longer → longer.length ≤ lexeme.length

/-- A line of the grammar. Behind a word there is the end or a separator, and behind a separator
there is an argument. -/
inductive IsLine : Text → Text → Option Text → Prop
  | word {line w : Text} (hw : Terminal.word.Scans line w []) : IsLine line w none
  | argument {line w behind s left a : Text} (hw : Terminal.word.Scans line w behind)
      (hs : Terminal.separator.Scans behind s left) (ha : Terminal.argument.Scans left a []) :
      IsLine line w (some a)

section

variable {line w s a rest : Text}

private theorem Terminal.scans_of_endsRun {terminal : Terminal} {kind : Char → Bool}
    (hkind : ∀ t, terminal.Matches t ↔ t ≠ [] ∧ ∀ c ∈ t, kind c = true) {run : Text}
    (hrun : run ≠ [] ∧ ∀ c ∈ run, kind c = true) (hrest : EndsRun kind rest) :
    terminal.Scans (run ++ rest) run rest := by
  refine ⟨rfl, (hkind run).mpr hrun, fun longer hprefix hlonger ↦ ?_⟩
  by_contra hlt
  obtain ⟨more, hmore⟩ := List.prefix_of_prefix_length_le (List.prefix_append run rest) hprefix
    (Nat.le_of_not_le hlt)
  obtain ⟨c, tail, rfl⟩ := List.exists_cons_of_ne_nil (l := more) (by
    rintro rfl
    exact hlt (by rw [← hmore, List.append_nil]))
  -- the longer text goes on with the character that ends the run
  rw [← hmore, List.prefix_append_right_inj] at hprefix
  obtain ⟨left, rfl⟩ := hprefix
  have hc := ((hkind longer).mp hlonger).2 c (by rw [← hmore]; simp)
  rw [hrest c rfl] at hc
  cases hc

private theorem isWord_of_all (hne : w ≠ []) (h : w.all (!isBlank ·) = true) : IsWord w :=
  ⟨hne, fun c hc ↦ by simpa using List.all_eq_true.mp h c hc⟩

theorem IsWord.scans (hw : IsWord w) (hrest : EndsRun (!isBlank ·) rest) :
    Terminal.word.Scans (w ++ rest) w rest :=
  Terminal.scans_of_endsRun (fun t ↦ by simp [Terminal.Matches])
    ⟨hw.nonempty, fun c hc ↦ by simp [hw.plain c hc]⟩ hrest

private theorem IsSeparator.endsRun (hs : IsSeparator s) (rest : Text) :
    EndsRun (!isBlank ·) (s ++ rest) := by
  obtain ⟨c, tail, rfl⟩ := List.exists_cons_of_ne_nil hs.nonempty
  rintro _ ⟨⟩
  simp [hs.blank c List.mem_cons_self]

theorem IsSeparator.scans (hs : IsSeparator s) (hrest : EndsRun isBlank rest) :
    Terminal.separator.Scans (s ++ rest) s rest :=
  Terminal.scans_of_endsRun (fun _ ↦ Iff.rfl) ⟨hs.nonempty, hs.blank⟩ hrest

theorem IsArgument.scans (ha : IsArgument a) : Terminal.argument.Scans a a [] := by
  obtain ⟨c, tail, rfl⟩ := List.exists_cons_of_ne_nil ha.nonempty
  refine ⟨(List.append_nil _).symm, ⟨c, tail, rfl, ha.begins c rfl⟩, fun longer hprefix _ ↦ ?_⟩
  exact hprefix.length_le

theorem Terminal.Scans.unique {terminal : Terminal} {input l l' r r' : Text}
    (h : terminal.Scans input l r) (h' : terminal.Scans input l' r') : l = l' ∧ r = r' := by
  have hprefix : l <+: input := ⟨r, h.split.symm⟩
  have hprefix' : l' <+: input := ⟨r', h'.split.symm⟩
  have hlength :=
    Nat.le_antisymm (h'.longest l hprefix h.matched) (h.longest l' hprefix' h'.matched)
  exact List.append_inj (h.split.symm.trans h'.split) hlength

private theorem Terminal.not_scans_nil {terminal : Terminal} {lexeme : Text} :
    ¬terminal.Scans [] lexeme rest := by
  intro h
  obtain ⟨rfl, -⟩ := List.append_eq_nil_iff.mp h.split.symm
  cases terminal with
  | word => exact h.matched.1 rfl
  | separator => exact h.matched.1 rfl
  | argument => obtain ⟨c, rest, ⟨⟩, -⟩ := h.matched

theorem IsLine.exists_scans {r : Option Text} (h : IsLine line w r) :
    ∃ behind, Terminal.word.Scans line w behind := by
  cases h with
  | word hw => exact ⟨_, hw⟩
  | argument hw _ _ => exact ⟨_, hw⟩

theorem IsLine.unique {w' : Text} {r r' : Option Text} (h : IsLine line w r)
    (h' : IsLine line w' r') : w = w' ∧ r = r' := by
  obtain ⟨_, hw⟩ := h.exists_scans
  obtain ⟨_, hw'⟩ := h'.exists_scans
  obtain ⟨rfl, -⟩ := hw.unique hw'
  cases h with
  | word hw =>
    cases h' with
    | word => exact ⟨rfl, rfl⟩
    | argument hw' hs' _ =>
      obtain ⟨-, rfl⟩ := hw.unique hw'
      exact absurd hs' Terminal.not_scans_nil
  | argument hw hs ha =>
    cases h' with
    | word hw' =>
      obtain ⟨-, rfl⟩ := hw.unique hw'
      exact absurd hs Terminal.not_scans_nil
    | argument hw' hs' ha' =>
      obtain ⟨-, rfl⟩ := hw.unique hw'
      obtain ⟨-, rfl⟩ := hs.unique hs'
      exact ⟨rfl, congrArg some (ha.unique ha').1⟩

/-! ## Splitting -/

theorem Spells.strip_eq {r : Option Text} (h : Spells line w r) :
    IsWord w ∧ (r = none ∧ Text.strip line = w ∨
      ∃ s a, IsSeparator s ∧ IsArgument a ∧ r = some a ∧ Text.strip line = w ++ (s ++ a)) := by
  have hbegins : ∀ {w rest : Text}, IsWord w → EndsRun isBlank (w ++ rest) := by
    intro w rest hw c hc
    obtain ⟨d, tail, rfl⟩ := List.exists_cons_of_ne_nil hw.nonempty
    cases hc
    exact hw.plain _ List.mem_cons_self
  cases h with
  | word hp hw hq =>
    have hends : EndsPlain w := fun c hc ↦ hw.plain c (List.mem_of_getLast? hc)
    have hstart : EndsRun isBlank (w ++ []) := hbegins hw
    rw [List.append_nil] at hstart
    exact ⟨hw, .inl ⟨rfl, Text.strip_between hp hq hstart hends⟩⟩
  | @argument p w s a q hp hw hs ha hq =>
    have hends : EndsPlain (w ++ (s ++ a)) := by
      intro c hc
      obtain ⟨d, tail, rfl⟩ := List.exists_cons_of_ne_nil ha.nonempty
      refine ha.ends c ?_
      rwa [← List.append_assoc, List.getLast?_append_of_ne_nil _ ha.nonempty] at hc
    exact ⟨hw, .inr ⟨s, a, hs, ha, rfl, Text.strip_between hp hq (hbegins hw) hends⟩⟩

private theorem isArgument_strip {t : Text} (h : ¬AllBlank t) : IsArgument (Text.strip t) :=
  ⟨fun hnil ↦ h (Text.strip_eq_nil_iff.mp hnil), Text.endsRun_strip t,
    fun _ ↦ Text.isBlank_of_getLast?_strip⟩

private theorem IsArgument.exists_word (ha : IsArgument a) :
    ∃ w behind, a = w ++ behind ∧ IsWord w ∧ EndsRun (!isBlank ·) behind := by
  obtain ⟨hsplit, hplain, hends⟩ := Text.takeWhile_dropWhile_iff.mp
    (⟨rfl, rfl⟩ : a.takeWhile (!isBlank ·) = _ ∧ a.dropWhile (!isBlank ·) = _)
  refine ⟨_, _, hsplit, ⟨fun hnil ↦ ?_, fun c hc ↦ by simpa using hplain c hc⟩, hends⟩
  -- without a word the first character would be a blank
  rw [hnil, List.nil_append] at hsplit
  rw [← hsplit] at hends
  obtain ⟨c, tail, rfl⟩ := List.exists_cons_of_ne_nil ha.nonempty
  have hc := hends c rfl
  simp only [ha.begins c rfl] at hc
  cases hc

private theorem exists_separator {behind : Text} (hne : behind ≠ [])
    (hbegins : EndsRun (!isBlank ·) behind) (hends : EndsPlain behind) :
    ∃ s a, behind = s ++ a ∧ IsSeparator s ∧ IsArgument a := by
  obtain ⟨hsplit, hblank, hplain⟩ := Text.takeWhile_dropWhile_iff.mp
    (⟨rfl, rfl⟩ : behind.takeWhile isBlank = _ ∧ behind.dropWhile isBlank = _)
  refine ⟨_, _, hsplit, ⟨fun hnil ↦ ?_, hblank⟩, ⟨fun hnil ↦ ?_, hplain, fun c hc ↦ ?_⟩⟩
  · rw [hnil, List.nil_append] at hsplit
    rw [← hsplit] at hplain
    obtain ⟨c, tail, rfl⟩ := List.exists_cons_of_ne_nil hne
    have hc := hbegins c rfl
    simp only [hplain c rfl] at hc
    cases hc
  · rw [hnil, List.append_nil] at hsplit
    rw [← hsplit] at hblank
    have hlast := List.getLast?_eq_some_getLast hne
    have hc := hends _ hlast
    rw [hblank _ (List.mem_of_getLast? hlast)] at hc
    cases hc
  · refine hends c ?_
    rw [hsplit, List.getLast?_append, Option.mem_def.mp hc]
    rfl

private theorem spells_of_not_allBlank {p q t : Text} (hp : AllBlank p) (hw : IsWord w)
    (hs : IsSeparator s) (ht : ¬AllBlank t) (hq : AllBlank q) :
    Spells (p ++ (w ++ (s ++ t) ++ q)) w (some (Text.strip t)) := by
  obtain ⟨before, behind, hbefore, hbehind, hsplit⟩ := Text.exists_blanks_around t
  have hs' : IsSeparator (s ++ before) :=
    ⟨List.append_ne_nil_of_left_ne_nil hs.nonempty _,
      List.forall_mem_append.mpr ⟨hs.blank, hbefore⟩⟩
  have hq' : AllBlank (behind ++ q) := List.forall_mem_append.mpr ⟨hbehind, hq⟩
  have hline : p ++ (w ++ (s ++ t) ++ q) =
      p ++ (w ++ ((s ++ before) ++ Text.strip t) ++ (behind ++ q)) := by
    conv_lhs => rw [hsplit]
    simp only [List.append_assoc]
  rw [hline]
  exact .argument hp hw hs' (isArgument_strip ht) hq'

theorem allBlank_or_exists_spells (line : Text) : AllBlank line ∨ ∃ w r, Spells line w r := by
  by_cases hblank : AllBlank line
  · exact .inl hblank
  obtain ⟨p, q, hp, hq, hline⟩ := Text.exists_blanks_around line
  have htrimmed := isArgument_strip hblank
  obtain ⟨w, behind, hsplit, hw, hbegins⟩ := htrimmed.exists_word
  rw [hsplit] at hline
  by_cases hne : behind = []
  · rw [hne, List.append_nil] at hline
    exact .inr ⟨w, none, hline ▸ .word hp hw hq⟩
  · have hends : EndsPlain behind := fun c hc ↦ htrimmed.ends c (by
      rw [hsplit, List.getLast?_append, Option.mem_def.mp hc]
      rfl)
    obtain ⟨s, a, rfl, hs, ha⟩ := exists_separator hne hbegins hends
    exact .inr ⟨w, some a, hline ▸ .argument hp hw hs ha hq⟩

theorem split_of_allBlank (h : AllBlank line) : split line = .error .empty := by
  rw [split, Text.strip_eq_nil_iff.mpr h]
  rfl

private theorem IsWord.takeWhile_append (hw : IsWord w) (hrest : EndsRun (!isBlank ·) rest) :
    (w ++ rest).takeWhile (!isBlank ·) = w ∧ (w ++ rest).dropWhile (!isBlank ·) = rest :=
  Text.takeWhile_dropWhile_iff.mpr ⟨rfl, fun c hc ↦ by simp [hw.plain c hc], hrest⟩

private theorem split_of_strip (hne : w ≠ []) (h : Text.strip line = w) :
    split line = match Text.stripStart (w.dropWhile (!isBlank ·)) with
      | [] => .ok (w.takeWhile (!isBlank ·), none)
      | a => .ok (w.takeWhile (!isBlank ·), some a) := by
  obtain ⟨c, tail, rfl⟩ := List.exists_cons_of_ne_nil hne
  rw [split, h]
  rfl

theorem split_of_spells {r : Option Text} (h : Spells line w r) : split line = .ok (w, r) := by
  obtain ⟨hw, ⟨rfl, hstrip⟩ | ⟨s, a, hs, ha, rfl, hstrip⟩⟩ := h.strip_eq
  · obtain ⟨htake, hdrop⟩ := hw.takeWhile_append (Text.endsRun_nil _)
    rw [List.append_nil] at htake hdrop
    rw [split_of_strip hw.nonempty hstrip, htake, hdrop]
    rfl
  · obtain ⟨htake, hdrop⟩ := hw.takeWhile_append (hs.endsRun a)
    have hargument : Text.stripStart (s ++ a) = a :=
      (Text.takeWhile_dropWhile_iff.mpr ⟨rfl, hs.blank, ha.begins⟩).2
    rw [split_of_strip (List.append_ne_nil_of_left_ne_nil hw.nonempty _) hstrip, htake, hdrop,
      hargument]
    obtain ⟨c, tail, rfl⟩ := List.exists_cons_of_ne_nil ha.nonempty
    rfl

theorem split_eq_ok_iff {r : Option Text} : split line = .ok (w, r) ↔ Spells line w r := by
  refine ⟨fun h ↦ ?_, split_of_spells⟩
  rcases allBlank_or_exists_spells line with hblank | ⟨w', r', hspells⟩
  · cases h.symm.trans (split_of_allBlank hblank)
  · cases h.symm.trans (split_of_spells hspells)
    exact hspells

theorem split_eq_error_iff {e : CommandError} :
    split line = .error e ↔ e = .empty ∧ AllBlank line := by
  constructor
  · intro h
    rcases allBlank_or_exists_spells line with hblank | ⟨w, r, hspells⟩
    · cases h.symm.trans (split_of_allBlank hblank)
      exact ⟨rfl, hblank⟩
    · cases h.symm.trans (split_of_spells hspells)
  · rintro ⟨rfl, hblank⟩
    exact split_of_allBlank hblank

theorem Spells.isLine {r : Option Text} (h : Spells line w r) : IsLine (Text.strip line) w r := by
  obtain ⟨hw, ⟨rfl, hstrip⟩ | ⟨s, a, hs, ha, rfl, hstrip⟩⟩ := h.strip_eq
  · have hscans := hw.scans (Text.endsRun_nil _)
    rw [List.append_nil] at hscans
    rw [hstrip]
    exact .word hscans
  · rw [hstrip]
    exact .argument (hw.scans (hs.endsRun a)) (hs.scans ha.begins) ha.scans

/-- The grammar takes apart what is left of a line without the blanks around it. -/
theorem spells_iff_isLine {r : Option Text} :
    Spells line w r ↔ IsLine (Text.strip line) w r := by
  refine ⟨Spells.isLine, fun h ↦ ?_⟩
  rcases allBlank_or_exists_spells line with hblank | ⟨w', r', hspells⟩
  · obtain ⟨behind, hw⟩ := h.exists_scans
    rw [Text.strip_eq_nil_iff.mpr hblank] at hw
    exact absurd hw Terminal.not_scans_nil
  · obtain ⟨rfl, rfl⟩ := h.unique hspells.isLine
    exact hspells

/-! ## Bindings -/

private theorem dropWhile_append_cons {kind : Char → Bool} {c : Char} (hc : kind c = false)
    (t rest : Text) : (t ++ c :: rest).dropWhile kind = t.dropWhile kind ++ c :: rest := by
  induction t with
  | nil => exact List.dropWhile_cons_of_neg (Bool.eq_false_iff.mp hc)
  | cons d t ih =>
    rw [List.cons_append, List.dropWhile_cons, List.dropWhile_cons, ih]
    split <;> rfl

/-- The argument of a binding loses blanks in front of the name and behind the expression. -/
private theorem strip_binding (v x : Text) :
    Text.strip (v ++ '=' :: x) = Text.stripStart v ++ '=' :: Text.stripEnd x := by
  have hmark : isBlank '=' = false := by decide
  rw [Text.strip, Text.stripStart, dropWhile_append_cons hmark, ← Text.stripStart, Text.stripEnd,
    List.reverse_append, List.reverse_cons, List.append_assoc, List.singleton_append,
    dropWhile_append_cons hmark, List.reverse_append, List.reverse_cons, List.reverse_reverse,
    List.append_assoc]
  rfl

/-- A binding is split at its first equals sign, and blanks around both parts say nothing. -/
private theorem readBinding_strip {v x : Text} (hplain : '=' ∉ v) (hv : ¬AllBlank v)
    (hx : ¬AllBlank x) :
    readBinding (Text.strip (v ++ '=' :: x)) = .ok (.letBind (Text.strip v) (Text.strip x)) := by
  have hname : ∀ c ∈ Text.stripStart v, decide (c ≠ '=') = true := by
    intro c hc
    refine decide_eq_true fun hmark ↦ hplain ?_
    exact hmark ▸ (List.dropWhile_suffix isBlank).mem hc
  obtain ⟨htake, hdrop⟩ := Text.takeWhile_dropWhile_iff.mpr
    ⟨rfl, hname, (by rintro c ⟨⟩; decide : EndsRun (· ≠ '=') ('=' :: Text.stripEnd x))⟩
  rw [strip_binding, readBinding, hdrop, htake]
  have hv' : Text.strip v ≠ [] := fun hnil ↦ hv (Text.strip_eq_nil_iff.mp hnil)
  have hx' : Text.strip x ≠ [] := fun hnil ↦ hx (Text.strip_eq_nil_iff.mp hnil)
  dsimp only
  rw [Text.strip_stripStart, Text.strip_stripEnd, if_neg (by simp [hv', hx'])]
  rfl

/-- **Layout says nothing.** A line is split into a word and an argument exactly if it is a layout
of them, so in one way, and the word and the argument are those that the grammar finds. Without a
word it is not split. The command depends on the word and the argument alone, and a binding on its
name and its expression alone. -/
theorem layout_says_nothing :
    (∀ line e, split line = .error e ↔ e = .empty ∧ AllBlank line) ∧
    (∀ line w r, split line = .ok (w, r) ↔ Spells line w r) ∧
    (∀ line w r, Spells line w r ↔ IsLine (Text.strip line) w r) ∧
    (∀ line w r, Spells line w r → IsWord w ∧ (r = none ∧ Text.strip line = w ∨
      ∃ s a, IsSeparator s ∧ IsArgument a ∧ r = some a ∧ Text.strip line = w ++ (s ++ a))) ∧
    (∀ line w r, Spells line w r → read line = ofWord w r) ∧
    ∀ p s v x q, AllBlank p → IsSeparator s → '=' ∉ v → ¬AllBlank v → ¬AllBlank x → AllBlank q →
      read (p ++ ("let".toList ++ (s ++ (v ++ '=' :: x)) ++ q)) =
        .ok (.letBind (Text.strip v) (Text.strip x)) := by
  have hread : ∀ {line w r}, Spells line w r → read line = ofWord w r :=
    fun h ↦ bind_ok (split_of_spells h) _
  refine ⟨fun _ _ ↦ split_eq_error_iff, fun _ _ _ ↦ split_eq_ok_iff, fun _ _ _ ↦ spells_iff_isLine,
    fun _ _ _ ↦ Spells.strip_eq, fun _ _ _ ↦ hread, ?_⟩
  intro p s v x q hp hs hplain hv hx hq
  have hword : IsWord "let".toList := isWord_of_all (by decide) (by decide)
  have hargument : ¬AllBlank (v ++ '=' :: x) := fun h ↦
    hv fun c hc ↦ h c (List.mem_append_left _ hc)
  rw [hread (spells_of_not_allBlank hp hword hs hargument hq), ofWord, if_pos rfl]
  exact readBinding_strip hplain hv hx

/-- A binding with blanks of several kinds, and an expression with an equals sign and a line end. -/
theorem layout_says_nothing_binding :
    read " \tlet\n  x  = (f\n=)\u3000".toList = .ok (.letBind "x".toList "(f\n=)".toList) ∧
      split " \tlet\n  x  = (f\n=)\u3000".toList =
        .ok ("let".toList, some "x  = (f\n=)".toList) ∧
      split " \u3000".toList = .error .empty := by
  obtain ⟨herror, hsplit, -, -, -, hlet⟩ := layout_says_nothing
  have hbinding := hlet " \t".toList "\n  ".toList "x  ".toList " (f\n=)".toList "\u3000".toList
    (by decide) ⟨by decide, by decide⟩ (by decide) (by decide) (by decide) (by decide)
  have hspells : Spells (" \t".toList ++ ("let".toList ++ ("\n  ".toList ++ "x  = (f\n=)".toList) ++
      "\u3000".toList)) "let".toList (some "x  = (f\n=)".toList) :=
    .argument (by decide) (isWord_of_all (by decide) (by decide)) ⟨by decide, by decide⟩
      ⟨by decide, by rintro c ⟨⟩; decide, by rintro c ⟨⟩; decide⟩ (by decide)
  exact ⟨hbinding, (hsplit _ _ _).mpr hspells, (herror _ _).mpr ⟨rfl, by decide⟩⟩

end

end Command

end TermEmbedding
