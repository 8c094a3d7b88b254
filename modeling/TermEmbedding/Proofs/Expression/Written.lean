import TermEmbedding.Proofs.Expression.References
import TermEmbedding.Proofs.Snapshot.Terms

/-!
# Expressions as text and back

An expression is written with one argument to an application, and the reader takes any number of
them, so what is written is one of many texts of the expression. It is read back as it was written,
in any bindings, since there are no names in it.

The parts of an application are read from the middle of a text, so what is said of a text is said
with the rest behind it. All that matters of the rest is that it does not go on with the digits of a
term: behind what is applied there is a blank, and behind an argument a parenthesis.
-/

namespace TermEmbedding

/-! ## References -/

/-- What follows a reference matters only to the digits of a term. -/
private theorem IsReference.replace_rest {c rest rest' : Text} {r : TermReference Float}
    (h : IsReference c rest r)
    (hrest : ∀ p, r = .function p → Text.EndsRun Char.isDigit rest') : IsReference c rest' r := by
  cases h with
  | vector htype hvector => exact .vector htype hvector
  | function htype hindex =>
    have hends := hrest _ rfl
    cases hindex with
    | primitive hdigits _ => exact .function htype (.primitive hdigits hends)
    | nonprimitive hdigits _ => exact .function htype (.nonprimitive hdigits hends)

/-- What can be written so that it is read back: the numbers are not too long, types have no sign,
and vectors have an entry, hold finite numbers and carry no mark. -/
structure TermReference.IsLiteral (r : TermReference Float) : Prop where
  hasText : r.hasText = true
  readable : r.Readable
  finite : r.IsFinite
  unmarked : r.unmarked = r

theorem TermReference.IsLiteral.isReference {r : TermReference Float} (h : r.IsLiteral)
    {rest : Text} (hrest : ∀ p, r = .function p → Text.EndsRun Char.isDigit rest) :
    IsReference r.text rest r := by
  have hread : Reads (readReference r.text) r [] :=
    (reads_readReference_text_iff h.hasText h.readable).mpr ⟨h.finite, h.unmarked.symm, rfl⟩
  obtain ⟨c, hc, href⟩ := reads_readReference_iff.mp hread
  rw [List.append_nil] at hc
  exact hc ▸ href.replace_rest hrest

/-! ## Applications -/

variable {bindings : Bindings Float}

theorem isApplication_text {f : Callee Float} {x : Expression Float}
    (hf : ∀ {rest}, Text.EndsRun Char.isDigit rest → IsAtom bindings f.text rest f.expression)
    (hx : ∀ {rest}, Text.EndsRun Char.isDigit rest → IsAtom bindings x.text rest x) (rest : Text) :
    IsApplication bindings (Expression.application f x).text rest (.application f x) := by
  have hclose : AreParts bindings ([] ++ [')']) rest [] := .close (List.forall_mem_nil _)
  have hargument : AreParts bindings ([' '] ++ (x.text ++ [')'])) rest [x] :=
    .atom (List.forall_mem_singleton.mpr rfl) (hx (by rintro c ⟨⟩; rfl)) hclose
  have hparts : AreParts bindings ([] ++ (f.text ++ ([' '] ++ (x.text ++ [')'])))) rest
      [f.expression, x] :=
    .atom (List.forall_mem_nil _) (hf (by rintro c ⟨⟩; rfl)) hargument
  have htext : (Expression.application f x).text =
      '(' :: ([] ++ (f.text ++ ([' '] ++ (x.text ++ [')'])))) := by
    simp [Expression.text]
  rw [htext]
  exact .intro hparts

mutual

theorem Callee.isAtom_text : (f : Callee Float) → (∀ r ∈ f.references, r.IsLiteral) →
    ∀ {rest : Text}, Text.EndsRun Char.isDigit rest → IsAtom bindings f.text rest f.expression
  | .term p, hrefs, rest, hrest => by
    have hp : (TermReference.function p).IsLiteral := hrefs _ (List.mem_singleton_self _)
    exact .reference (hp.isReference fun _ _ ↦ hrest)
  | .application f x, hrefs, rest, _ => by
    refine .application (isApplication_text ?_ ?_ rest)
    · exact f.isAtom_text fun r hr ↦ hrefs r (List.mem_append_left _ hr)
    · exact x.isAtom_text fun r hr ↦ hrefs r (List.mem_append_right _ hr)

/-- **The text of an expression is an atom that stands for the expression**, whatever follows it but
a digit. -/
theorem Expression.isAtom_text : (e : Expression Float) → (∀ r ∈ e.references, r.IsLiteral) →
    ∀ {rest : Text}, Text.EndsRun Char.isDigit rest → IsAtom bindings e.text rest e
  | .reference r, hrefs, rest, hrest => by
    have hr := hrefs r (List.mem_singleton_self _)
    exact .reference (hr.isReference fun _ _ ↦ hrest)
  | .application f x, hrefs, rest, _ => by
    refine .application (isApplication_text ?_ ?_ rest)
    · exact f.isAtom_text fun r hr ↦ hrefs r (List.mem_append_left _ hr)
    · exact x.isAtom_text fun r hr ↦ hrefs r (List.mem_append_right _ hr)

end

/-! ## Blanks around an atom -/

private theorem isBlank_of_isDigit {c : Char} (h : c.isDigit = true) : isBlank c = false := by
  have hrange : 48 ≤ c.toNat ∧ c.toNat ≤ 57 := by
    simpa [Char.isDigit, UInt32.le_iff_toNat_le] using h
  simp only [isBlank, blankRanges, List.any_cons, List.any_nil, Bool.or_false]
  simp
  omega

private theorem AreParts.exists_concat {c rest : Text} {parts : List (Expression Float)}
    (h : AreParts bindings c rest parts) : ∃ front, c = front ++ [')'] := by
  induction parts generalizing c with
  | nil =>
    cases h with
    | close => exact ⟨_, rfl⟩
  | cons e others ih =>
    cases h with
    | @atom blanks c tail _ _ _ _ _ hothers =>
      obtain ⟨front, rfl⟩ := ih hothers
      exact ⟨blanks ++ (c ++ front), by simp⟩

theorem IsReference.strip_eq {c rest : Text} {r : TermReference Float}
    (h : IsReference c rest r) : Text.strip c = c := by
  cases h with
  | @vector digits v _ t xs htype hvector =>
    cases hvector with
    | @intro entries =>
      have hends : '#' :: (digits ++ '[' :: (Text.join [','] entries ++ [']'])) =
          '#' :: ((digits ++ '[' :: Text.join [','] entries) ++ [']']) := by simp
      rw [hends]
      exact Text.strip_of_ends (by decide) (by decide)
  | @function digits i _ t index htype hindex =>
    obtain ⟨letter, run, rfl, hletter, hrun⟩ : ∃ letter run, i = letter :: run ∧
        isBlank letter = false ∧ ∀ c ∈ run, c.isDigit = true := by
      cases hindex with
      | primitive hdigits => exact ⟨'p', _, rfl, by decide, hdigits.isDigit⟩
      | nonprimitive hdigits => exact ⟨'n', _, rfl, by decide, hdigits.isDigit⟩
    apply Text.strip_of_forall
    rw [List.forall_mem_cons, List.forall_mem_append, List.forall_mem_cons]
    exact ⟨by decide, fun c hc ↦ isBlank_of_isDigit (htype.isDigit c hc), hletter,
      fun c hc ↦ isBlank_of_isDigit (hrun c hc)⟩

theorem IsAtom.strip_eq {c rest : Text} {e : Expression Float} (h : IsAtom bindings c rest e) :
    Text.strip c = c := by
  cases h with
  | application h =>
    cases h with
    | intro hparts =>
      obtain ⟨front, rfl⟩ := hparts.exists_concat
      exact Text.strip_of_ends (by decide) (by decide)
  | reference h => exact h.strip_eq
  | identifier _ h =>
    refine Text.strip_of_forall fun c hc ↦ ?_
    have hends := h.characters c hc
    rw [endsIdentifier, Bool.not_or, Bool.and_eq_true] at hends
    simpa using hends.1

/-! ## Reading what was written -/

/-- A text is read as what it stands for as one atom, but for the blanks around it. -/
theorem Expression.read_eq_ok_iff {text : Text} {e : Expression Float} :
    Expression.read bindings text = .ok e ↔ IsAtom bindings (Text.strip text) [] e := by
  have hrest : ∀ {e rest}, Reads (readAtom bindings (Text.strip text)) e rest →
      ∃ c, Text.strip text = c ++ rest := fun h ↦ (reads_readAtom_iff.mp h).imp fun _ hc ↦ hc.1
  rw [Expression.read, complete_eq_ok_iff hrest, reads_readAtom_iff]
  simp

/-- What is written without names reads as itself in any bindings. -/
theorem Expression.read_text_of_isLiteral {e : Expression Float}
    (h : ∀ r ∈ e.references, r.IsLiteral) : Expression.read bindings e.text = .ok e := by
  have hatom : IsAtom bindings e.text [] e := e.isAtom_text h (by rintro c ⟨⟩)
  rw [Expression.read_eq_ok_iff, hatom.strip_eq]
  exact hatom

/-- **What is written is read back.** An expression whose vectors are finite is read back from its
text in any bindings, with its applications, the numbers of its terms and the signs of its zeros.
So is a reference from the beginning of a text, whatever follows it, as long as no digit follows a
term. Expressions that are not the same are therefore never written alike. -/
theorem read_text (bindings : Bindings Float) :
    (∀ e : Expression Float, (∀ r ∈ e.references, r.IsLiteral) →
      Expression.read bindings e.text = .ok e) ∧
    (∀ (r : TermReference Float) (rest : Text), r.IsLiteral →
      (∀ p, r = .function p → Text.EndsRun Char.isDigit rest) →
      Reads (readReference (r.text ++ rest)) r rest) ∧
    ∀ e e' : Expression Float, (∀ r ∈ e.references, r.IsLiteral) →
      (∀ r ∈ e'.references, r.IsLiteral) → e.text = e'.text → e = e' := by
  refine ⟨fun e he ↦ e.read_text_of_isLiteral he, fun r rest hr hrest ↦ ?_, ?_⟩
  · exact reads_readReference_iff.mpr ⟨r.text, rfl, hr.isReference hrest⟩
  · intro e e' he he' htext
    have hread : Expression.read bindings e.text = .ok e := e.read_text_of_isLiteral he
    rw [htext, e'.read_text_of_isLiteral he'] at hread
    exact (Except.ok.inj hread).symm

/-- A function of two arguments: a vector that begins with the given number, and a term. -/
def curriedText (x : Float) : Expression Float :=
  .application (.application (.term ⟨2, .primitive 0⟩) (.reference (.vector 0 [x, 1e-5] .anywhere)))
    (.reference (.function ⟨1, .nonprimitive 12⟩))

/-- The sign of a zero is written and comes back, and so do an exponent and a number of two digits
in front of a parenthesis. -/
theorem read_text_zeros :
    Expression.read [] "((#2p0 #0[-0.0, 1e-05]) #1n12)".toList = .ok (curriedText (-0.0)) ∧
    Reads (readReference "#1n12)".toList) (.function ⟨1, .nonprimitive 12⟩) [')'] ∧
    (curriedText (-0.0)).text ≠ (curriedText 0.0).text := by
  have hterm : ∀ p ∈ [(⟨2, .primitive 0⟩ : TermPointer), ⟨1, .nonprimitive 12⟩],
      (TermReference.function p).IsLiteral := by
    intro p hp
    rcases List.mem_pair.mp hp with rfl | rfl
    · exact ⟨by decide +kernel, Int.natCast_nonneg 2, trivial, rfl⟩
    · exact ⟨by decide +kernel, Int.natCast_nonneg 1, trivial, rfl⟩
  have hvector : ∀ x ∈ [-0.0, (0.0 : Float)],
      (TermReference.vector 0 [x, 1e-5] .anywhere).IsLiteral := by
    intro x hx
    have hnumeral : hasNumeral 0 = true := by decide +kernel
    refine ⟨hnumeral, ⟨by decide, List.cons_ne_nil _ _⟩, ?_, rfl⟩
    refine List.forall_mem_cons.mpr ⟨?_, List.forall_mem_singleton.mpr (by decide +kernel)⟩
    rcases List.mem_pair.mp hx with rfl | rfl
    · decide +kernel
    · decide +kernel
  have hrefs : ∀ x ∈ [-0.0, (0.0 : Float)], ∀ r ∈ (curriedText x).references, r.IsLiteral := by
    intro x hx r hr
    simp only [curriedText, Expression.references, Callee.references, List.cons_append,
      List.nil_append, List.mem_cons, List.not_mem_nil, or_false] at hr
    rcases hr with rfl | rfl | rfl
    · exact hterm _ (by simp)
    · exact hvector x hx
    · exact hterm _ (by simp)
  have hnegative := hrefs (-0.0) (by simp)
  have hpositive := hrefs 0.0 (by simp)
  obtain ⟨hread, hreference, hinjective⟩ := read_text []
  have htext : (curriedText (-0.0)).text = "((#2p0 #0[-0.0, 1e-05]) #1n12)".toList := by
    decide +kernel
  have hlast : (TermReference.function (K := Float) ⟨1, .nonprimitive 12⟩).text ++ [')'] =
      "#1n12)".toList := by
    decide +kernel
  refine ⟨htext ▸ hread _ hnegative, ?_, fun heq ↦ ?_⟩
  · have hrest : Text.EndsRun Char.isDigit [')'] := by
      rintro c ⟨⟩
      rfl
    rw [← hlast]
    exact hreference _ _ (hterm _ (by simp)) fun _ _ ↦ hrest
  · have hsame := congrArg Expression.references (hinjective _ _ hnegative hpositive heq)
    have hzeros : (-0.0 : Float) ≠ 0.0 := by decide +kernel
    simp [curriedText, Expression.references, Callee.references, hzeros] at hsame

end TermEmbedding
