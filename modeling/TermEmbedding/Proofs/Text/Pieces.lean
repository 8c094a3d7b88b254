import Mathlib.Data.List.TakeWhile
import TermEmbedding.Reading
import TermEmbedding.Text.Blank

/-!
# Runs, pieces and blanks

A text is taken apart in three ways: at the end of a run of characters of one kind, between the
marks of a list, and at the blanks around it. In each case there is one way to do it, and it is
known by what it leaves.
-/

namespace TermEmbedding

namespace Text

/-! ## Runs -/

/-- No character of a kind comes next, so a run of such characters ends here. -/
def EndsRun (kind : Char → Bool) (rest : Text) : Prop := ∀ c ∈ rest.head?, kind c = false

theorem endsRun_nil (kind : Char → Bool) : EndsRun kind [] := by
  rintro c ⟨⟩

theorem endsRun_dropWhile (kind : Char → Bool) (t : Text) : EndsRun kind (t.dropWhile kind) := by
  induction t with
  | nil => exact endsRun_nil kind
  | cons d t ih =>
    by_cases hd : kind d = true
    · rw [List.dropWhile_cons_of_pos hd]
      exact ih
    · rw [List.dropWhile_cons_of_neg hd]
      rintro c ⟨⟩
      exact Bool.eq_false_iff.mpr hd

/-- A run at the beginning of a text that ends where no character of its kind comes next. -/
theorem takeWhile_dropWhile_iff {kind : Char → Bool} {t run rest : Text} :
    t.takeWhile kind = run ∧ t.dropWhile kind = rest ↔
      t = run ++ rest ∧ (∀ c ∈ run, kind c = true) ∧ EndsRun kind rest := by
  constructor
  · rintro ⟨rfl, rfl⟩
    exact ⟨List.takeWhile_append_dropWhile.symm, fun c ↦ List.mem_takeWhile_imp,
      endsRun_dropWhile kind t⟩
  · rintro ⟨rfl, hrun, hrest⟩
    rw [List.takeWhile_append_of_pos hrun, List.dropWhile_append_of_pos hrun]
    cases rest with
    | nil => exact ⟨List.append_nil run, rfl⟩
    | cons c rest =>
      have hc : ¬kind c = true := Bool.eq_false_iff.mp (hrest c rfl)
      rw [List.takeWhile_cons_of_neg hc, List.dropWhile_cons_of_neg hc]
      exact ⟨List.append_nil run, rfl⟩

theorem dropWhile_of_endsRun {kind : Char → Bool} {t : Text} (h : EndsRun kind t) :
    t.dropWhile kind = t :=
  (takeWhile_dropWhile_iff.mpr ⟨(List.nil_append t).symm, List.forall_mem_nil _, h⟩).2

/-! ## Pieces -/

theorem pieces_of_not_mem {mark : Char} {t : Text} (h : mark ∉ t) : pieces mark t = [t] := by
  induction t with
  | nil => rfl
  | cons c t ih =>
    rw [List.mem_cons, not_or] at h
    rw [pieces, if_neg (Ne.symm h.1), ih h.2]

theorem pieces_append {mark : Char} {t : Text} (h : mark ∉ t) (rest : Text) :
    pieces mark (t ++ mark :: rest) = t :: pieces mark rest := by
  induction t with
  | nil => rw [List.nil_append, pieces, if_pos rfl]
  | cons c t ih =>
    rw [List.mem_cons, not_or] at h
    rw [List.cons_append, pieces, if_neg (Ne.symm h.1), ih h.2]

theorem pieces_ne_nil (mark : Char) (t : Text) : pieces mark t ≠ [] := by
  cases t with
  | nil => exact List.cons_ne_nil _ _
  | cons c t =>
    rw [pieces]
    split
    · exact List.cons_ne_nil _ _
    · split
      · exact List.cons_ne_nil _ _
      · exact List.cons_ne_nil _ _

theorem join_pieces (mark : Char) (t : Text) :
    (∀ p ∈ pieces mark t, mark ∉ p) ∧ t = join [mark] (pieces mark t) := by
  induction t with
  | nil => exact ⟨by simp [pieces], rfl⟩
  | cons c t ih =>
    obtain ⟨hplain, hjoin⟩ := ih
    obtain ⟨p, ps, hps⟩ := List.exists_cons_of_ne_nil (pieces_ne_nil mark t)
    rw [hps] at hplain hjoin
    by_cases hc : c = mark
    · rw [pieces, if_pos hc, hps]
      refine ⟨List.forall_mem_cons.mpr ⟨List.not_mem_nil, hplain⟩, ?_⟩
      rw [hjoin, hc]
      rfl
    · rw [pieces, if_neg hc, hps]
      rw [List.forall_mem_cons] at hplain ⊢
      refine ⟨⟨?_, hplain.2⟩, ?_⟩
      · rw [List.mem_cons, not_or]
        exact ⟨Ne.symm hc, hplain.1⟩
      · rw [hjoin]
        cases ps <;> rfl

theorem pieces_join {mark : Char} {ps : List Text} (hne : ps ≠ []) (hplain : ∀ p ∈ ps, mark ∉ p) :
    pieces mark (join [mark] ps) = ps := by
  induction ps with
  | nil => exact absurd rfl hne
  | cons p rest ih =>
    rw [List.forall_mem_cons] at hplain
    cases rest with
    | nil => rw [join, pieces_of_not_mem hplain.1]
    | cons q rest =>
      rw [join, List.append_assoc, List.singleton_append, pieces_append hplain.1,
        ih (List.cons_ne_nil _ _) hplain.2]

/-- **The pieces of a text are the list without marks in it that makes up the text.** -/
theorem pieces_eq_iff {mark : Char} {t : Text} {ps : List Text} :
    pieces mark t = ps ↔ ps ≠ [] ∧ (∀ p ∈ ps, mark ∉ p) ∧ t = join [mark] ps := by
  constructor
  · rintro rfl
    exact ⟨pieces_ne_nil mark t, join_pieces mark t⟩
  · rintro ⟨hne, hplain, rfl⟩
    exact pieces_join hne hplain

theorem mem_join {separator : Text} {ps : List Text} {c : Char} (h : c ∈ join separator ps) :
    c ∈ separator ∨ ∃ p ∈ ps, c ∈ p := by
  fun_induction join separator ps with
  | case1 => cases h
  | case2 p => exact .inr ⟨p, List.mem_singleton_self p, h⟩
  | case3 p q rest ih =>
    rw [List.append_assoc, List.mem_append, List.mem_append] at h
    rcases h with h | h | h
    · exact .inr ⟨p, List.mem_cons_self, h⟩
    · exact .inl h
    · exact (ih h).imp_right fun ⟨p, hp, hc⟩ ↦ ⟨p, List.mem_cons_of_mem _ hp, hc⟩

/-! ## Blanks -/

def AllBlank (t : Text) : Prop := ∀ c ∈ t, isBlank c = true

/-- Whether a text ends with something that is no blank, if it is not empty. -/
def EndsPlain (t : Text) : Prop := ∀ c ∈ t.getLast?, isBlank c = false

instance (t : Text) : Decidable (AllBlank t) := List.decidableBAll _ t

section

variable {t before behind : Text}

theorem stripStart_append (h : AllBlank before) (t : Text) :
    stripStart (before ++ t) = stripStart t :=
  List.dropWhile_append_of_pos h

private theorem stripEnd_append (h : AllBlank behind) (t : Text) :
    stripEnd (t ++ behind) = stripEnd t := by
  have hreverse : ∀ c ∈ behind.reverse, isBlank c = true := fun c hc ↦ h c (List.mem_reverse.mp hc)
  rw [stripEnd, stripEnd, List.reverse_append, List.dropWhile_append_of_pos hreverse]

theorem strip_cons_blank {c : Char} (hc : isBlank c = true) (t : Text) :
    strip (c :: t) = strip t := by
  rw [strip, strip, stripStart, stripStart, List.dropWhile_cons_of_pos hc]

theorem length_strip_le (t : Text) : (strip t).length ≤ t.length := by
  rw [strip, stripEnd, List.length_reverse]
  refine Nat.le_trans (length_dropWhile_le isBlank _) ?_
  rw [List.length_reverse]
  exact length_stripStart_le t

/-! ### Texts without blanks around them -/

private theorem stripEnd_of_endsPlain (h : EndsPlain t) : stripEnd t = t := by
  have hends : EndsRun isBlank t.reverse := by
    intro c hc
    rw [List.head?_reverse] at hc
    exact h c hc
  rw [stripEnd, dropWhile_of_endsRun hends, List.reverse_reverse]

theorem strip_eq_self (hbegins : EndsRun isBlank t) (hends : EndsPlain t) : strip t = t := by
  rw [strip, stripStart, dropWhile_of_endsRun hbegins, stripEnd_of_endsPlain hends]

theorem strip_of_forall (h : ∀ c ∈ t, isBlank c = false) : strip t = t :=
  strip_eq_self (fun c hc ↦ h c (List.mem_of_mem_head? hc)) fun c hc ↦ h c (List.mem_of_getLast? hc)

theorem strip_of_ends {c d : Char} (hc : isBlank c = false) (hd : isBlank d = false) :
    strip (c :: (t ++ [d])) = c :: (t ++ [d]) := by
  refine strip_eq_self ?_ fun e he ↦ ?_
  · rintro _ ⟨⟩
    exact hc
  · rw [← List.cons_append, List.getLast?_concat] at he
    cases he
    exact hd

/-- A text that is no blank at either end is what is left when blanks are put around it. -/
theorem strip_between (hbefore : AllBlank before) (hbehind : AllBlank behind)
    (hbegins : EndsRun isBlank t) (hends : EndsPlain t) : strip (before ++ (t ++ behind)) = t := by
  rw [strip, stripStart_append hbefore]
  rcases t with _ | ⟨c, t⟩
  · rw [List.nil_append, stripStart, List.dropWhile_eq_nil_iff.mpr hbehind]
    rfl
  · have hc : ¬isBlank c = true := Bool.eq_false_iff.mp (hbegins c rfl)
    rw [List.cons_append, stripStart, List.dropWhile_cons_of_neg hc, ← List.cons_append,
      stripEnd_append hbehind, stripEnd_of_endsPlain hends]

/-! ### What is left without blanks -/

theorem allBlank_takeWhile (t : Text) : AllBlank (t.takeWhile isBlank) :=
  fun _ ↦ List.mem_takeWhile_imp

private theorem exists_stripEnd_append (t : Text) :
    ∃ blanks, AllBlank blanks ∧ t = stripEnd t ++ blanks := by
  refine ⟨(t.reverse.takeWhile isBlank).reverse, fun c hc ↦ ?_, ?_⟩
  · exact allBlank_takeWhile _ c (List.mem_reverse.mp hc)
  · rw [stripEnd, ← List.reverse_append, List.takeWhile_append_dropWhile, List.reverse_reverse]

theorem exists_blanks_around (t : Text) :
    ∃ before behind, AllBlank before ∧ AllBlank behind ∧ t = before ++ (strip t ++ behind) := by
  obtain ⟨behind, hbehind, hend⟩ := exists_stripEnd_append (stripStart t)
  refine ⟨t.takeWhile isBlank, behind, allBlank_takeWhile t, hbehind, ?_⟩
  rw [strip, ← hend, stripStart, List.takeWhile_append_dropWhile]

theorem endsRun_strip (t : Text) : EndsRun isBlank (strip t) := by
  intro c hc
  refine endsRun_dropWhile isBlank t c ?_
  obtain ⟨blanks, -, hsplit⟩ := exists_stripEnd_append (stripStart t)
  rw [← stripStart, hsplit, List.head?_append, ← strip, Option.mem_def.mp hc]
  rfl

theorem isBlank_of_getLast?_strip {c : Char} (h : c ∈ (strip t).getLast?) :
    isBlank c = false := by
  rw [strip, stripEnd, List.getLast?_reverse] at h
  exact endsRun_dropWhile isBlank _ c h

theorem strip_strip (t : Text) : strip (strip t) = strip t :=
  strip_eq_self (endsRun_strip t) fun _ ↦ isBlank_of_getLast?_strip

theorem strip_stripStart (t : Text) : strip (stripStart t) = strip t := by
  have hstart : stripStart (stripStart t) = stripStart t :=
    dropWhile_of_endsRun (endsRun_dropWhile isBlank t)
  rw [strip, hstart, strip]

theorem strip_stripEnd (t : Text) : strip (stripEnd t) = strip t := by
  obtain ⟨blanks, hblanks, ht⟩ := exists_stripEnd_append t
  obtain ⟨before, behind, hbefore, hbehind, hleft⟩ := exists_blanks_around (stripEnd t)
  have hsplit : t = before ++ (strip (stripEnd t) ++ (behind ++ blanks)) := by
    rw [← List.append_assoc (strip _), ← List.append_assoc before, ← hleft, ← ht]
  have hall : AllBlank (behind ++ blanks) := List.forall_mem_append.mpr ⟨hbehind, hblanks⟩
  have hstrip := strip_between hbefore hall (endsRun_strip (stripEnd t)) fun _ ↦
    isBlank_of_getLast?_strip
  rw [← hsplit] at hstrip
  exact hstrip.symm

theorem strip_eq_nil_iff : strip t = [] ↔ ∀ c ∈ t, isBlank c = true := by
  constructor
  · intro h
    obtain ⟨before, behind, hbefore, hbehind, hsplit⟩ := exists_blanks_around t
    rw [h, List.nil_append] at hsplit
    rw [hsplit]
    exact List.forall_mem_append.mpr ⟨hbefore, hbehind⟩
  · intro h
    rw [strip, stripStart, List.dropWhile_eq_nil_iff.mpr h]
    rfl

theorem eq_nil_of_strip_eq_append {front rest : Text} (h : strip t = front ++ rest)
    (hrest : strip rest = []) : rest = [] := by
  rcases List.eq_nil_or_concat rest with rfl | ⟨before, c, rfl⟩
  · rfl
  · have hblank : isBlank c = true := strip_eq_nil_iff.mp hrest c (by simp)
    have hlast : c ∈ (strip t).getLast? := by
      rw [h]
      simp
    rw [isBlank_of_getLast?_strip hlast] at hblank
    cases hblank

end

end Text

end TermEmbedding
