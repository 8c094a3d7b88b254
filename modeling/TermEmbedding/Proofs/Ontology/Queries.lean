import TermEmbedding.Proofs.Ontology.Dimensions
import TermEmbedding.Proofs.Ontology.Unreported

/-!
# Questions that are answered by recursion

The dimensions and the text of a type follow the types that it refers to. They can be asked for by
recursion along these references, over any list of declarations: such a question fails where a
reference leads to no type, and it need not end where references lead in a circle. Checks that ask
for dimensions in this way do so in the middle of the list that they check, with nothing known of
the types behind.

No question that a check asks fails or goes on forever, since the references of a type are checked
before its dimension is asked for, and they lead to types that have passed. So the checks end as
those do that pass types one by one, and behind them every question has the answer that is computed
in one pass.

A question asks others, and these ask others again. Where questions may be nested only to some
depth, those that go deeper have no outcome, and a question that goes on forever has none at any
depth. To say that a question ends is to give a depth from which on it has its outcome. Each type
on the way costs three questions, and references lead to smaller numbers, so three times the number
of types, and two for the question itself, are enough.
-/

namespace TermEmbedding

open Context (TypeFault atType)

/-- A question about a type, which has no outcome if questions are nested too deeply. -/
abbrev Query (α : Type) := ExceptT TypeFault Option α

namespace Kind

private theorem allTexts_snoc (kinds : List Kind) (kind : Kind) :
    allTexts (kinds ++ [kind]) = allTexts kinds ++ [kind.text (allTexts kinds)] := by
  rw [allTexts, List.foldl_append]
  rfl

private theorem length_allTexts (kinds : List Kind) : (allTexts kinds).length = kinds.length := by
  induction kinds using List.reverseRecOn with
  | nil => rfl
  | append_singleton kinds kind ih =>
    rw [allTexts_snoc, List.length_append, List.length_append, ih]
    rfl

private theorem allTexts_isPrefix (kinds more : List Kind) :
    allTexts kinds <+: allTexts (kinds ++ more) := by
  induction more using List.reverseRecOn with
  | nil => rw [List.append_nil]
  | append_singleton more kind ih =>
    rw [← List.append_assoc, allTexts_snoc]
    exact ih.trans (List.prefix_append _ _)

end Kind

namespace Query

/-! ## Questions -/

/-- What comes of a question that is nested too deeply. -/
def tooDeep {α : Type} : Query α := ExceptT.mk none

mutual

def full (ds : List Declaration) : Nat → TypeId → Query Int
  | 0, _ => tooDeep
  | depth + 1, t => do
    match ← atType ds t with
    | .vector dimension => return dimension
    | .function _ _ _ =>
      let (output, features) ← functionSpace ds depth t
      return output * features

def compressed (ds : List Declaration) : Nat → TypeId → Query Int
  | 0, _ => tooDeep
  | depth + 1, t => do
    match ← atType ds t with
    | .function _ _ (some dimension) => return dimension
    | _ => full ds depth t

def functionSpace (ds : List Declaration) : Nat → TypeId → Query (Int × Int)
  | 0, _ => tooDeep
  | depth + 1, t => do
    match ← atType ds t with
    | .vector _ => throw (.noFunctionType t)
    | .function argument result _ =>
      let output ← compressed ds depth result
      let base ← featureSpace ds depth argument
      return (output, base + 1)

def featureSpace (ds : List Declaration) : Nat → TypeId → Query Int
  | 0, _ => tooDeep
  | depth + 1, t => full ds depth t

end

def display (ds : List Declaration) : Nat → TypeId → Query Text
  | 0, _ => tooDeep
  | depth + 1, t => do
    match ← atType ds t with
    | .vector dimension => return "Vec(".toList ++ integerNumeral dimension ++ [')']
    | .function argument result _ =>
      let argumentText ← display ds depth argument
      let resultText ← display ds depth result
      return '(' :: argumentText ++ " -> ".toList ++ resultText ++ [')']

/-! ## Checks -/

/-- Why a list of declarations is refused: a rule is violated, or a question has no answer. -/
inductive Refusal where
  | rule (error : ContextError)
  | question (fault : TypeFault)

def checkReference (index : Nat) (reference : Int) : ExceptT Refusal Option Unit :=
  if 0 ≤ reference ∧ reference < index then return else throw (.rule (.laterType index reference))

def check (ds : List Declaration) (depth : Nat) (declaration : Declaration) (index : Nat) :
    ExceptT Refusal Option Unit :=
  match declaration with
  | .vector dimension => if 1 ≤ dimension then return else throw (.rule (.emptyVector index))
  | .function argument result compressed => do
    checkReference index argument
    checkReference index result
    let dimension ← (full ds depth index).adapt .question
    match compressed with
    | none => return
    | some c =>
      if 1 ≤ c ∧ c ≤ dimension then return
      else if hasNumeral dimension then throw (.rule (.compression index dimension.toNat))
      else throw (.rule (.fault .value))

/-- Checks the declarations of a list from the first one on. -/
def validate (ds : List Declaration) (depth : Nat) : ExceptT Refusal Option Unit :=
  forM ds.zipIdx fun (declaration, index) ↦ check ds depth declaration index

/-! ## Answers -/

section

variable {ds : List Declaration} {t argument result : TypeId} {compressedTo : Option Int}
  {depth : Nat}

theorem full_of_vector {d : Int} (h : atType ds t = .ok (.vector d)) :
    full ds (depth + 1) t = pure d := by
  rw [full, h]
  rfl

theorem compressed_of_vector {d : Int} (h : atType ds t = .ok (.vector d)) :
    compressed ds (depth + 2) t = pure d := by
  rw [compressed, h]
  exact full_of_vector h

theorem functionSpace_of_function {output base : Int}
    (h : atType ds t = .ok (.function argument result compressedTo))
    (hr : compressed ds depth result = pure output)
    (ha : featureSpace ds depth argument = pure base) :
    functionSpace ds (depth + 1) t = pure (output, base + 1) := by
  rw [functionSpace, h]
  change (compressed ds depth result >>= fun _ ↦
    featureSpace ds depth argument >>= fun _ ↦ pure _) = _
  rw [hr, ha]
  rfl

theorem full_of_function {output base : Int}
    (h : atType ds t = .ok (.function argument result compressedTo))
    (hr : compressed ds depth result = pure output)
    (ha : featureSpace ds depth argument = pure base) :
    full ds (depth + 2) t = pure (output * (base + 1)) := by
  rw [full, h, functionSpace_of_function h hr ha]
  rfl

theorem display_of_vector {d : Int} (h : atType ds t = .ok (.vector d)) :
    display ds (depth + 1) t = pure ("Vec(".toList ++ integerNumeral d ++ [')']) := by
  rw [display, h]
  rfl

theorem display_of_function {argumentText resultText : Text}
    (h : atType ds t = .ok (.function argument result compressedTo))
    (ha : display ds depth argument = pure argumentText)
    (hr : display ds depth result = pure resultText) :
    display ds (depth + 1) t =
      pure ('(' :: argumentText ++ " -> ".toList ++ resultText ++ [')']) := by
  rw [display, h]
  change (display ds depth argument >>= fun _ ↦ display ds depth result >>= fun _ ↦ pure _) = _
  rw [ha, hr]
  rfl

end

/-- What the questions about a type answer among the given declarations from some depth on. -/
structure Answers (ds : List Declaration) (t : TypeId) (enough : Nat) (d : Dimensions)
    (text : Text) : Prop where
  full : ∀ depth, enough ≤ depth → Query.full ds depth t = pure (d.full : Int)
  compressed : ∀ depth, enough < depth → Query.compressed ds depth t = pure (d.compressed : Int)
  display : ∀ depth, enough ≤ depth → Query.display ds depth t = pure text

namespace Answers

variable {ds : List Declaration} {t : TypeId} {enough : Nat} {d : Dimensions} {text : Text}

theorem featureSpace (h : Answers ds t enough d text) {depth : Nat} (hdepth : enough < depth) :
    Query.featureSpace ds depth t = pure (d.full : Int) := by
  obtain ⟨depth, rfl⟩ := Nat.exists_eq_succ_of_ne_zero (Nat.ne_zero_of_lt hdepth)
  exact h.full depth (Nat.le_of_lt_succ hdepth)

theorem mono (h : Answers ds t enough d text) {more : Nat} (hmore : enough ≤ more) :
    Answers ds t more d text :=
  ⟨fun _ hdepth ↦ h.full _ (hmore.trans hdepth),
    fun _ hdepth ↦ h.compressed _ (hmore.trans_lt hdepth),
    fun _ hdepth ↦ h.display _ (hmore.trans hdepth)⟩

end Answers

variable {kinds : List Kind} {rest : List Declaration}

private theorem atType_declarations {i : Nat} {kind : Kind} (h : kinds[i]? = some kind)
    (rest : List Declaration) :
    atType (kinds.map Kind.declaration ++ rest) (i : TypeId) = .ok kind.declaration := by
  have hlt : i < (kinds.map Kind.declaration).length := by
    rw [List.length_map]
    exact (List.getElem?_eq_some_iff.mp h).1
  rw [Context.atType_natCast, List.getElem?_append_left hlt, List.getElem?_map, h]
  rfl

private theorem atType_next (kinds : List Kind) (d : Declaration) (rest : List Declaration) :
    atType (kinds.map Kind.declaration ++ d :: rest) (Kind.allDimensions kinds).length = .ok d := by
  rw [Kind.length_allDimensions, Context.atType_natCast,
    List.getElem?_append_right (by rw [List.length_map]), List.length_map, Nat.sub_self]
  rfl

theorem Answers.vector {ds : List Declaration} {t : TypeId} {n : Nat}
    (h : atType ds t = .ok (Kind.vector n).declaration) (known : List Dimensions)
    (texts : List Text) :
    Answers ds t 1 ((Kind.vector n).dimensions known) ((Kind.vector n).text texts) := by
  refine ⟨fun depth hdepth ↦ ?_, fun depth hdepth ↦ ?_, fun depth hdepth ↦ ?_⟩
  · obtain ⟨depth, rfl⟩ := Nat.exists_eq_add_of_le' hdepth
    exact full_of_vector h
  · obtain ⟨depth, rfl⟩ := Nat.exists_eq_add_of_le' hdepth
    exact compressed_of_vector h
  · obtain ⟨depth, rfl⟩ := Nat.exists_eq_add_of_le' hdepth
    rw [display_of_vector h, integerNumeral_of_nonneg (Int.natCast_nonneg n)]
    rfl

section

variable {ds : List Declaration} {t : TypeId} {argument result enough : Nat} {c : Option Nat}
  {known : List Dimensions} {texts : List Text} {da dr : Dimensions} {ta tr : Text}

private theorem full_of_answers {compressedTo : Option Int}
    (h : atType ds t = .ok (.function argument result compressedTo))
    (hda : known[argument]? = some da) (hdr : known[result]? = some dr)
    (ha : Answers ds argument enough da ta) (hr : Answers ds result enough dr tr) {depth : Nat}
    (hdepth : enough + 3 ≤ depth) :
    Query.full ds depth t = pure ((Kind.function argument result c).full known : Int) := by
  obtain ⟨depth, rfl⟩ := Nat.exists_eq_add_of_le' hdepth
  have hasked : enough < depth + (enough + 1) := by omega
  rw [show depth + (enough + 3) = depth + (enough + 1) + 2 from rfl,
    full_of_function h (hr.compressed _ hasked) (ha.featureSpace hasked), Kind.full,
    List.getD_eq_getElem?_getD, List.getD_eq_getElem?_getD, hda, hdr]
  rfl

theorem Answers.function (h : atType ds t = .ok (Kind.function argument result c).declaration)
    (hda : known[argument]? = some da) (hdr : known[result]? = some dr)
    (hta : texts[argument]? = some ta) (htr : texts[result]? = some tr)
    (ha : Answers ds argument enough da ta) (hr : Answers ds result enough dr tr) :
    Answers ds t (enough + 3) ((Kind.function argument result c).dimensions known)
      ((Kind.function argument result c).text texts) := by
  have hfull : ∀ depth, enough + 3 ≤ depth → Query.full ds depth t = _ :=
    fun _ ↦ full_of_answers (c := c) h hda hdr ha hr
  refine ⟨hfull, fun depth hdepth ↦ ?_, fun depth hdepth ↦ ?_⟩
  · obtain ⟨depth, rfl⟩ := Nat.exists_eq_succ_of_ne_zero (Nat.ne_zero_of_lt hdepth)
    cases c with
    | none =>
      rw [Query.compressed, h]
      exact hfull depth (Nat.le_of_lt_succ hdepth)
    | some n =>
      rw [Query.compressed, h]
      rfl
  · obtain ⟨depth, rfl⟩ := Nat.exists_eq_add_of_le' hdepth
    have hasked : enough ≤ depth + (enough + 2) := by omega
    rw [show depth + (enough + 3) = depth + (enough + 2) + 1 from rfl,
      display_of_function h (ha.display _ hasked) (hr.display _ hasked), Kind.text,
      List.getD_eq_getElem?_getD, List.getD_eq_getElem?_getD, hta, htr]
    rfl

end

/-- **Questions about types that make sense are answered**, whatever is declared behind them. -/
theorem exists_answers (h : Kind.WellFormed kinds) (rest : List Declaration) {i : Nat}
    (hi : i < kinds.length) :
    ∃ d text, (Kind.allDimensions kinds)[i]? = some d ∧ (Kind.allTexts kinds)[i]? = some text ∧
      Answers (kinds.map Kind.declaration ++ rest) i (3 * kinds.length) d text := by
  -- types are answered in the order of their definition
  induction h generalizing i rest with
  | nil => cases hi
  | @snoc kinds last hkinds hlast ih =>
    have hlast' : (kinds ++ [last])[kinds.length]? = some last := List.getElem?_concat_length
    have hdeclaration := atType_declarations hlast' rest
    rw [Kind.allDimensions_snoc, Kind.allTexts_snoc]
    have hlen : (Kind.allDimensions kinds).length = kinds.length := Kind.length_allDimensions kinds
    have hlen' : (Kind.allTexts kinds).length = kinds.length := Kind.length_allTexts kinds
    have hsplit : (kinds ++ [last]).map Kind.declaration ++ rest =
        kinds.map Kind.declaration ++ (last.declaration :: rest) := by
      rw [List.map_append, List.append_assoc]
      rfl
    rw [hsplit] at hdeclaration ⊢
    by_cases hbefore : i < kinds.length
    · obtain ⟨d, text, hd, htext, hanswers⟩ := ih (last.declaration :: rest) hbefore
      refine ⟨d, text, ?_, ?_, hanswers.mono (Nat.mul_le_mul_left 3 (Nat.le_of_lt ?_))⟩
      · rw [List.getElem?_append_left (by omega), hd]
      · rw [List.getElem?_append_left (by omega), htext]
      · rw [List.length_append, List.length_singleton]
        exact Nat.lt_succ_self _
    · obtain rfl : i = kinds.length := by
        rw [List.length_append, List.length_singleton] at hi
        omega
      refine ⟨last.dimensions (Kind.allDimensions kinds), last.text (Kind.allTexts kinds),
        ?_, ?_, ?_⟩
      · rw [← hlen, List.getElem?_concat_length]
      · rw [← hlen', List.getElem?_concat_length]
      rw [List.length_append, List.length_singleton, Nat.mul_succ]
      cases last with
      | vector n => exact (Answers.vector hdeclaration _ _).mono (by omega)
      | function argument result c =>
        obtain ⟨ha, hr, -⟩ := hlast
        rw [hlen] at ha hr
        obtain ⟨da, ta, hda, hta, hargument⟩ := ih _ ha
        obtain ⟨dr, tr, hdr, htr, hresult⟩ := ih _ hr
        exact .function hdeclaration hda hdr hta htr hargument hresult

/-! ## Checks that end -/

variable {α : Type}

/-- The outcome of checks that end as another computation does. -/
def settled (x : Except ContextError α) : ExceptT Refusal Option Unit :=
  ExceptT.mk (some ((x.map fun _ ↦ ()).mapError .rule))

theorem checkReference_eq (index : Nat) (reference : Int) :
    checkReference index reference = settled (Ontology.earlier index reference) := by
  rw [checkReference, Ontology.earlier]
  by_cases h : 0 ≤ reference ∧ reference < index
  · rw [if_pos h, dif_pos h]
    rfl
  · rw [if_neg h, dif_neg h]
    rfl

private theorem full_of_earlier (h : Kind.WellFormed kinds) {argument result : Int}
    {a r : { n : Nat // n < (Kind.allDimensions kinds).length }}
    (ha : Ontology.earlier (Kind.allDimensions kinds).length argument = .ok a)
    (hr : Ontology.earlier (Kind.allDimensions kinds).length result = .ok r)
    (compressedTo : Option Int) (rest : List Declaration) (c : Option Nat) {depth : Nat}
    (hdepth : 3 * (kinds.length + 1) ≤ depth) :
    full (kinds.map Kind.declaration ++ .function argument result compressedTo :: rest) depth
        (Kind.allDimensions kinds).length =
      pure ((Kind.function a r c).full (Kind.allDimensions kinds) : Int) := by
  obtain rfl := Ontology.natCast_of_earlier ha
  obtain rfl := Ontology.natCast_of_earlier hr
  have hlen : (Kind.allDimensions kinds).length = kinds.length := Kind.length_allDimensions kinds
  obtain ⟨da, ta, hda, -, hargument⟩ := exists_answers h
    (.function a r compressedTo :: rest) (a.2.trans_eq hlen)
  obtain ⟨dr, tr, hdr, -, hresult⟩ := exists_answers h
    (.function a r compressedTo :: rest) (r.2.trans_eq hlen)
  exact full_of_answers (atType_next _ _ _) hda hdr hargument hresult hdepth

private theorem check_eq (h : Kind.WellFormed kinds) (d : Declaration) (rest : List Declaration)
    {depth : Nat} (hdepth : 3 * (kinds.length + 1) ≤ depth) :
    check (kinds.map Kind.declaration ++ d :: rest) depth d (Kind.allDimensions kinds).length =
      settled (Ontology.pass (Kind.allDimensions kinds) d) := by
  cases d with
  | vector dimension =>
    rw [check, Ontology.pass]
    by_cases hd : 1 ≤ dimension
    · rw [if_pos hd, dif_pos hd]
      rfl
    · rw [if_neg hd, dif_neg hd]
      rfl
  | function argument result compressedTo =>
    rw [check, Ontology.pass, checkReference_eq, checkReference_eq]
    cases ha : Ontology.earlier (Kind.allDimensions kinds).length argument with
    | error e => rfl
    | ok a =>
      cases hr : Ontology.earlier (Kind.allDimensions kinds).length result with
      | error e => rfl
      | ok r =>
        have hfull := fun c ↦ full_of_earlier h ha hr compressedTo rest c hdepth
        cases compressedTo with
        | none =>
          change ((full _ _ _).adapt Refusal.question >>= fun _ ↦ pure ()) = settled (.ok _)
          rw [hfull none]
          rfl
        | some c =>
          change ((full _ _ _).adapt Refusal.question >>= fun dimension ↦
            if 1 ≤ c ∧ c ≤ dimension then pure () else _) = settled (dite (1 ≤ c ∧ c ≤ _) _ _)
          rw [hfull (some c.toNat)]
          change ite (1 ≤ c ∧ c ≤ _) (pure ()) (ite _ _ _) = _
          split_ifs <;> rfl

/-- Behind types that have passed, the rest of a list is checked as it is passed type by type. -/
private theorem forM_check_eq (h : Kind.WellFormed kinds) (rest : List Declaration) {depth : Nat}
    (hdepth : 3 * (kinds.length + rest.length) ≤ depth) :
    forM (rest.zipIdx kinds.length)
        (fun (d, i) ↦ check (kinds.map Kind.declaration ++ rest) depth d i) =
      settled (rest.foldlM Ontology.push ⟨kinds, h⟩) := by
  -- the types that have passed grow by one declaration of the rest
  induction rest generalizing kinds with
  | nil => rfl
  | cons d rest ih =>
    rw [List.length_cons] at hdepth
    rw [List.zipIdx_cons, List.forM_cons, List.foldlM_cons, Ontology.push]
    dsimp only
    rw [← Kind.length_allDimensions kinds, check_eq h d rest (by omega)]
    cases hpass : Ontology.pass (Kind.allDimensions kinds) d with
    | error e => rfl
    | ok kind =>
      have hsplit : (kinds ++ [kind.1]).map Kind.declaration ++ rest =
          kinds.map Kind.declaration ++ d :: rest := by
        rw [List.map_append, List.append_assoc, List.map_singleton,
          Kind.declaration_of_pass hpass, List.singleton_append]
      have hrest := ih (h.snoc kind.2) (by simpa using by omega)
      rw [hsplit, List.length_append, List.length_singleton] at hrest
      rw [Kind.length_allDimensions]
      exact hrest

/-- **Checks that ask by recursion end**, and as those end that pass types one by one. -/
theorem validate_eq (ds : List Declaration) {depth : Nat} (hdepth : 3 * ds.length ≤ depth) :
    validate ds depth = settled (Ontology.ofDeclarations ds) :=
  forM_check_eq .nil ds (by simpa using hdepth)

private theorem kind?_of_earlier {reference : Int} {index : Nat} {e : ContextError}
    (h : Ontology.earlier index reference = .error e) : e.kind? = some .definition := by
  rw [Ontology.earlier] at h
  split_ifs at h
  · cases h
  · cases h
    rfl

/-- A declaration that does not pass violates a rule, which cannot be told if it is about a
dimension without a numeral. -/
private theorem error_of_pass (h : Kind.WellFormed kinds) {d : Declaration} {e : ContextError}
    (he : Ontology.pass (Kind.allDimensions kinds) d = .error e) (rest : List Declaration)
    {depth : Nat} (hdepth : 3 * (kinds.length + 1) ≤ depth) :
    e.kind? = some .definition ∨ e = .fault .value ∧ ∃ n : Nat, hasNumeral n = false ∧
      full (kinds.map Kind.declaration ++ d :: rest) depth (Kind.allDimensions kinds).length =
        pure (n : Int) := by
  cases d with
  | vector dimension =>
    rw [Ontology.pass] at he
    split_ifs at he
    · cases he
    · cases he
      exact .inl rfl
  | function argument result compressedTo =>
    rw [Ontology.pass] at he
    rcases bind_eq_error_iff.mp he with ha | ⟨a, ha, he⟩
    · exact .inl (kind?_of_earlier ha)
    rcases bind_eq_error_iff.mp he with hr | ⟨r, hr, he⟩
    · exact .inl (kind?_of_earlier hr)
    cases compressedTo with
    | none => cases he
    | some c =>
      dsimp only at he
      split_ifs at he with hc hnumeral
      · cases he
      · cases he
        exact .inl rfl
      · cases he
        exact .inr ⟨rfl, _, Bool.eq_false_of_not_eq_true hnumeral,
          full_of_earlier h ha hr _ _ _ hdepth⟩

private theorem error_of_foldlM (h : Kind.WellFormed kinds) {rest : List Declaration}
    {e : ContextError} (he : rest.foldlM Ontology.push ⟨kinds, h⟩ = .error e) {depth : Nat}
    (hdepth : 3 * (kinds.length + rest.length) ≤ depth) :
    e.kind? = some .definition ∨ e = .fault .value ∧ ∃ (t : TypeId) (n : Nat),
      hasNumeral n = false ∧
        full (kinds.map Kind.declaration ++ rest) depth t = pure (n : Int) := by
  induction rest generalizing kinds with
  | nil => cases he
  | cons d rest ih =>
    rw [List.length_cons] at hdepth
    rw [List.foldlM_cons, Ontology.push] at he
    rcases bind_eq_error_iff.mp he with hpush | ⟨types, hpush, he⟩
    · rcases bind_eq_error_iff.mp hpush with hpass | ⟨kind, -, ⟨⟩⟩
      have hnext : 3 * (kinds.length + 1) ≤ depth := by omega
      rcases error_of_pass h hpass rest hnext with hkind | ⟨he, n, hn⟩
      · exact .inl hkind
      · exact .inr ⟨he, _, n, hn⟩
    · obtain ⟨kind, hpass, hpush⟩ := exists_of_bind_eq_ok hpush
      cases hpush
      have hrest := ih _ he (by simpa using by omega)
      rw [List.map_append, List.append_assoc, List.map_singleton,
        Kind.declaration_of_pass hpass, List.singleton_append] at hrest
      exact hrest

end Query

namespace Context

/-- What is answered to the questions about a type of a context, by recursion to some depth and in
one pass. -/
structure Answers (ds : List Declaration) (depth : Nat) (c : Context) (t : TypeId) (n k : Nat)
    (text : Text) : Prop where
  full : Query.full ds depth t = pure (n : Int) ∧ c.full t = .ok n
  compressed : Query.compressed ds depth t = pure (k : Int) ∧ c.compressed t = .ok k
  featureSpace : Query.featureSpace ds depth t = pure (n : Int) ∧ c.featureSpace t = .ok ⟨n⟩
  display : Query.display ds depth t = pure text ∧ c.display t = .ok text

variable {c : Context}

private theorem display_natCast {i : Nat} {text : Text}
    (h : (Kind.allTexts c.kinds)[i]? = some text) : c.display (i : TypeId) = .ok text := by
  have hi : i < (c.kinds.take (i + 1)).length := by
    have := (List.getElem?_eq_some_iff.mp h).1
    rw [Kind.length_allTexts] at this
    rw [List.length_take]
    omega
  obtain ⟨rest, hrest⟩ := Kind.allTexts_isPrefix (c.kinds.take (i + 1)) (c.kinds.drop (i + 1))
  rw [List.take_append_drop] at hrest
  rw [← hrest, List.getElem?_append_left (by rwa [Kind.length_allTexts])] at h
  rw [display, Int.toNat_natCast, atType_natCast, h]

variable {ds : List Declaration} {depth : Nat}

theorem exists_answers (hds : c.kinds.map Kind.declaration = ds) (hdepth : 3 * ds.length < depth)
    {i : Nat} (hi : i < c.kinds.length) :
    ∃ n k text, Answers ds depth c i n k text ∧ 1 ≤ k ∧ k ≤ n := by
  obtain ⟨d, text, hd, htext, hanswers⟩ := Query.exists_answers c.wellFormed [] hi
  have hlength : c.kinds.length = ds.length := by rw [← hds, List.length_map]
  rw [List.append_nil, hds, hlength] at hanswers
  obtain ⟨d', hd', hfull, hcompressed⟩ := exists_dimensions hi
  cases hd.symm.trans hd'
  obtain ⟨-, hpos, hle⟩ := c.wellFormed.pos hd
  refine ⟨d.full, d.compressed, text, ⟨⟨hanswers.full depth hdepth.le, hfull⟩,
    ⟨hanswers.compressed depth hdepth, hcompressed⟩, ⟨hanswers.featureSpace hdepth, ?_⟩,
    ⟨hanswers.display depth hdepth.le, display_natCast htext⟩⟩, hpos, hle⟩
  rw [featureSpace, hfull]
  rfl

private theorem declaration_of_signature {t argument result : TypeId}
    (h : c.signature t = .ok (argument, result)) : ∃ compressedTo,
      atType (c.kinds.map Kind.declaration) t = .ok (.function argument result compressedTo) := by
  obtain ⟨kind, hkind, h⟩ := exists_of_bind_eq_ok h
  obtain ⟨i, rfl, hget⟩ := atType_eq_ok hkind
  have hdeclaration := Query.atType_declarations hget []
  rw [List.append_nil] at hdeclaration
  cases kind with
  | vector n => cases h
  | function a r compressedTo =>
    cases h
    exact ⟨_, hdeclaration⟩

private theorem exists_functionSpace (hds : c.kinds.map Kind.declaration = ds)
    (hdepth : 3 * ds.length + 2 ≤ depth) {t argument result : TypeId}
    (h : c.signature t = .ok (argument, result)) :
    ∃ a r : Nat, c.full argument = .ok a ∧ c.compressed result = .ok r ∧
      Query.functionSpace ds depth t = pure ((r : Int), (a : Int) + 1) ∧
      c.functionSpace t = .ok ⟨r, a + 1⟩ ∧ c.full t = .ok (r * (a + 1)) := by
  obtain ⟨a, r, harrow⟩ := exists_arrow h
  refine ⟨a, r, harrow.argumentFull, harrow.resultCompressed, ?_, harrow.functionSpace,
    harrow.full⟩
  have hlt : ∀ {i : Nat} {d : Dimensions}, c.dimensions[i]? = some d → i < c.kinds.length := by
    intro i d hd
    rw [← Kind.length_allDimensions]
    exact (List.getElem?_eq_some_iff.mp hd).1
  obtain ⟨depth, rfl⟩ := Nat.exists_eq_succ_of_ne_zero (Nat.ne_zero_of_lt hdepth)
  have hasked : 3 * ds.length < depth := Nat.le_of_lt_succ hdepth
  obtain ⟨i, di, rfl, hdi, -⟩ := exists_of_full harrow.argumentFull
  obtain ⟨j, dj, rfl, hdj, -⟩ := exists_of_compressed harrow.resultCompressed
  obtain ⟨n, _, _, hargument, -⟩ := exists_answers hds hasked (hlt hdi)
  obtain ⟨_, k, _, hresult, -⟩ := exists_answers hds hasked (hlt hdj)
  cases hargument.full.2.symm.trans harrow.argumentFull
  cases hresult.compressed.2.symm.trans harrow.resultCompressed
  obtain ⟨compressedTo, hdeclaration⟩ := declaration_of_signature h
  exact Query.functionSpace_of_function (hds ▸ hdeclaration) hresult.compressed.1
    hargument.featureSpace.1

/-- **The checks of a context end, and every question about its types is answered.** Let questions
be nested at least to three times the number of types and two further. A lower limit on the depth of
recursion, and one on memory, are left out of account. -/
theorem validation_ends (ds : List Declaration) {depth : Nat}
    (hdepth : 3 * ds.length + 2 ≤ depth) :
    Query.validate ds depth = Query.settled (ofDeclarations ds []) ∧
    (∀ e, ofDeclarations ds [] = .error e → e.kind? = some .definition ∨
      e = .fault .value ∧ ∃ (t : TypeId) (n : Nat), hasNumeral n = false ∧
        Query.full ds depth t = pure (n : Int)) ∧
    ∀ names c, ofDeclarations ds names = .ok c → ∀ t : TypeId, 0 ≤ t → t < c.size →
      ∃ n k text, Answers ds depth c t n k text ∧ 1 ≤ k ∧ k ≤ n ∧
        ∀ argument result, c.signature t = .ok (argument, result) → ∃ a r : Nat,
          c.full argument = .ok a ∧ c.compressed result = .ok r ∧
          Query.functionSpace ds depth t = pure ((r : Int), (a : Int) + 1) ∧
          c.functionSpace t = .ok ⟨r, a + 1⟩ ∧ n = r * (a + 1) := by
  have henough : 3 * ds.length < depth := Nat.lt_of_succ_lt hdepth
  refine ⟨?_, ?_, ?_⟩
  · rw [Query.validate_eq ds henough.le, ofDeclarations]
    cases Ontology.ofDeclarations ds <;> rfl
  · intro e he
    rcases bind_eq_error_iff.mp he with htypes | ⟨types, -, ⟨⟩⟩
    refine Query.error_of_foldlM .nil htypes ?_
    rw [List.length_nil, Nat.zero_add]
    exact henough.le
  · intro names c hc t h0 ht
    have hds : c.kinds.map Kind.declaration = ds := by
      obtain ⟨types, htypes, hc⟩ := exists_of_bind_eq_ok hc
      obtain ⟨-, -, hc⟩ := exists_of_bind_eq_ok hc
      cases hc
      exact Ontology.declarations_of_ofDeclarations htypes
    obtain ⟨i, rfl⟩ := Int.eq_ofNat_of_zero_le h0
    obtain ⟨n, k, text, hanswers, hpos, hle⟩ := exists_answers hds henough (Int.ofNat_lt.mp ht)
    refine ⟨n, k, text, hanswers, hpos, hle, ?_⟩
    intro argument result hsignature
    obtain ⟨a, r, ha, hr, hquery, hspace, hfull⟩ := exists_functionSpace hds hdepth hsignature
    exact ⟨a, r, ha, hr, hquery, hspace, Except.ok.inj (hanswers.full.2.symm.trans hfull)⟩

/-- Functions from vectors to functions, which are compressed. -/
theorem validation_ends_compressed :
    ∃ c, ofDeclarations [.vector 2, .function 0 0 none, .function 0 1 (some 4)] [] = .ok c ∧
      ∃ n k text, 1 ≤ k ∧ k ≤ n ∧
        Answers [.vector 2, .function 0 0 none, .function 0 1 (some 4)] 11 c 2 n k text := by
  obtain ⟨-, -, h⟩ := validation_ends [.vector 2, .function 0 0 none, .function 0 1 (some 4)]
    (le_refl 11)
  obtain ⟨n, k, text, hanswers, hpos, hle, -⟩ := h [] _ rfl 2 (by decide) (by decide)
  exact ⟨_, rfl, n, k, text, hpos, hle, hanswers⟩

end Context

end TermEmbedding
