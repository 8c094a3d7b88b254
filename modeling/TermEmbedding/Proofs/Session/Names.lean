import Mathlib.Logic.Relation
import TermEmbedding.Proofs.Expression.Written
import TermEmbedding.Proofs.Session.Marks

/-!
# What names stand for

A name stands for what it was bound to until it is bound again. Whether it can be used is another
question: everything in front of the first equals sign of a line can be bound, and not all of it can
be read. A text with a blank or a closing parenthesis in it is not read as one name, and one that
begins with an opening parenthesis or a pound sign is read as something else.
-/

namespace TermEmbedding

/-! ## Texts that are read as names -/

/-- Whether a text is read as a name. -/
def IsName (v : Text) : Prop :=
  v ≠ [] ∧ v.all (!endsIdentifier ·) = true ∧ v.head? ≠ some '(' ∧ v.head? ≠ some '#'

instance decidableIsName (v : Text) : Decidable (IsName v) :=
  inferInstanceAs (Decidable (v ≠ [] ∧ v.all (!endsIdentifier ·) = true ∧
    v.head? ≠ some '(' ∧ v.head? ≠ some '#'))

private theorem Callee.exists_applyAll_eq {K : Type} (f : Callee K) (x : Expression K)
    (others : List (Expression K)) : ∃ g y, f.applyAll x others = .application g y := by
  induction others generalizing f x with
  | nil => exact ⟨f, x, rfl⟩
  | cons next rest ih => exact ih (.application f x) next

/-- A text without blanks around it is read as a reference if it is the text of the reference, or a
name that is bound to it. -/
theorem read_eq_reference_iff {bindings : Bindings Float} {v : Text} (hstrip : Text.strip v = v)
    {r : TermReference Float} : Expression.read bindings v = .ok (.reference r) ↔
      IsReference v [] r ∨ IsName v ∧ bindings.get? v = some r := by
  rw [Expression.read_eq_ok_iff, hstrip]
  constructor
  · intro h
    generalize he : Expression.reference r = e at h
    cases h with
    | application h =>
      cases h with
      | @intro _ _ f x others =>
        obtain ⟨g, y, happly⟩ := f.exists_applyAll_eq x others
        cases he.trans happly
    | reference h =>
      cases he
      exact .inl h
    | identifier hstart h =>
      cases he
      refine .inr ⟨⟨h.nonempty, List.all_eq_true.mpr h.characters, ?_, ?_⟩, h.bound⟩
      · exact fun hc ↦ (hstart _ hc).1 rfl
      · exact fun hc ↦ (hstart _ hc).2 rfl
  · rintro (h | ⟨⟨hne, hcharacters, hopen, hpound⟩, hbound⟩)
    · exact .reference h
    · refine .identifier ?_ ⟨List.all_eq_true.mp hcharacters, hne, by rintro c ⟨⟩, hbound⟩
      intro c hc
      exact ⟨fun h ↦ hopen (h ▸ hc), fun h ↦ hpound (h ▸ hc)⟩

/-! ## What is bound -/

theorem Bindings.exists_bind_eq (bindings : Bindings Float) (name : Text)
    (r : TermReference Float) : ∃ bound : TermReference Float, bound.unmarked = r.unmarked ∧
      (r.unmarked = r → bound = r) ∧ bindings.bind name r = bindings.insert name bound := by
  cases r with
  | function p => exact ⟨.function p, rfl, fun _ ↦ rfl, rfl⟩
  | vector t xs o =>
    cases o with
    | result row => exact ⟨.vector t xs (.binding bindings.freshMark), rfl, by rintro ⟨⟩, rfl⟩
    | anywhere => exact ⟨_, rfl, fun _ ↦ rfl, rfl⟩
    | binding n => exact ⟨_, rfl, fun _ ↦ rfl, rfl⟩

namespace Command

/-- The name that a command binds if it goes well. -/
def target? : Command → Option Text
  | letBind name _ => some name
  | evaluate _ => some Session.answerName
  | _ => none

private theorem Binds.target?_eq {command : Command} {name text : Text}
    (h : command.Binds name text) : command.target? = some name := by
  cases h with
  | letBind => rfl
  | evaluate => rfl

private theorem mem_of_lookup_eq_some {α : Type} {word : Text} {a : α} {rows : List (Text × α)}
    (h : rows.lookup word = some a) : (word, a) ∈ rows := by
  obtain ⟨before, after, rfl, -⟩ := List.lookup_eq_some_iff.mp h
  exact List.mem_append_right _ List.mem_cons_self

private theorem exists_readBinding_of_read {line v x : Text} (h : read line = .ok (.letBind v x)) :
    ∃ body, readBinding body = .ok (.letBind v x) := by
  obtain ⟨⟨word, argument⟩, -, h⟩ := exists_of_bind_eq_ok h
  dsimp only at h
  cases argument with
  | none =>
    rw [ofWord] at h
    cases hlookup : plainWords.lookup word with
    | none =>
      rw [hlookup] at h
      cases h
    | some command =>
      rw [hlookup] at h
      cases h
      have hnone : ∀ row ∈ plainWords, row.2 ≠ .letBind v x := by simp [plainWords]
      exact absurd rfl (hnone _ (mem_of_lookup_eq_some hlookup))
  | some argument =>
    rw [ofWord] at h
    split at h
    · exact ⟨argument, h⟩
    · cases hlookup : argumentWords.lookup word with
      | none =>
        rw [hlookup] at h
        cases h
      | some command =>
        rw [hlookup] at h
        have hnone : ∀ row ∈ argumentWords, row.2 argument ≠ .letBind v x := by
          simp [argumentWords]
        exact absurd (Except.ok.inj h) (hnone _ (mem_of_lookup_eq_some hlookup))

private theorem strip_of_read_letBind {line v x : Text} (h : read line = .ok (.letBind v x)) :
    Text.strip v = v := by
  obtain ⟨body, hbody⟩ := exists_readBinding_of_read h
  rw [readBinding] at hbody
  cases hrest : body.dropWhile (· ≠ '=') with
  | nil =>
    rw [hrest] at hbody
    cases hbody
  | cons c rest =>
    rw [hrest] at hbody
    dsimp only at hbody
    split at hbody
    · cases hbody
    · cases hbody
      exact Text.strip_strip _

end Command

namespace Session

section

variable [Routines Float] {settings : Settings} {s s₁ s₂ : Session} {answer : Answer}

/-! ## What lines do to bindings -/

/-- Whether two sessions have the same bindings. -/
def SameBindings (s s' : Session) : Prop := s'.bindings = s.bindings

/-- **A command leaves all bindings as they are, or it goes well and binds its name.** -/
theorem bindings_of_carryOut {command : Command}
    (hend : (s.carryOut settings command).MayEnd (s₁, answer)) : s.SameBindings s₁ ∨
      ∃ name r said, command.target? = some name ∧ answer = .ok said ∧
        s₁.bindings = s.bindings.bind name r := by
  cases carriedOut hend with
  | bound hbinds => exact .inr ⟨_, _, _, hbinds.target?_eq, rfl, rfl⟩
  | _ => exact .inl rfl

/-- Whether a line leads from one session to another one and does not bind a name: it is no command,
or its command fails or binds another name or none. -/
def LeavesName (settings : Settings) (v : Text) (s s' : Session) : Prop :=
  ∃ line answer, (s.handle settings line).MayEnd (s', answer) ∧
    ∀ command said, Command.read line = .ok command → command.target? = some v →
      ¬(s.carryOut settings command).MayEnd (s', .ok said)

private theorem LeavesName.get?_eq {v : Text} (h : LeavesName settings v s s₁) :
    s₁.bindings.get? v = s.bindings.get? v := by
  obtain ⟨line, answer, hend, hnot⟩ := h
  rcases handle_cases hend with ⟨e, -, rfl, -⟩ | ⟨command, outcome, hread, hcommand, -⟩
  · rfl
  · rcases bindings_of_carryOut hcommand with hsame | ⟨name, r, said, htarget, rfl, hbound⟩
    · rw [hsame]
    · have hne : name ≠ v := by
        rintro rfl
        exact hnot command said hread htarget hcommand
      obtain ⟨bound, -, -, hinsert⟩ := s.bindings.exists_bind_eq name r
      rw [hbound, hinsert, Table.get?_insert, if_neg hne]

/-- **A name stands for what it was bound to until it is bound again**, and it is read as this
exactly if it is read as a name at all, or if it happens to be the text of the very reference that
it was bound to. What a name is bound to is the outcome of the evaluation, which is the answer of
the command; a vector with an entry that is no number is marked anew. -/
theorem read_of_letBind [Routines.Shaped Float] (h : Reached settings s) {line v x : Text}
    (hread : Command.read line = .ok (.letBind v x)) {said : List CodePoint}
    (hend : (s.carryOut settings (.letBind v x)).MayEnd (s₁, .ok said)) :
    ∃ w e r w' bound, s.workspace = some w ∧ Expression.read s.bindings x = .ok e ∧
      w.evaluate e = (.ok r, w') ∧ said = r.text.codePoints ∧
      r.WellMarked ∧ bound.unmarked = r.unmarked ∧ (r.unmarked = r → bound = r) ∧
      ∀ s₂, Relation.ReflTransGen (LeavesName settings v) s₁ s₂ →
        s₂.bindings.get? v = some bound ∧
        (Expression.read s₂.bindings v = .ok (.reference bound) ↔
          IsName v ∨ IsReference v [] bound) := by
  cases carriedOut hend with
  | said hsays => cases hsays
  | opened hsource => cases hsource
  | @bound _ _ _ hbinds w hw e hx r hrun =>
    cases hbinds
    obtain ⟨bound, hunmarked, hsame, hinsert⟩ := s.bindings.exists_bind_eq v r
    have hmarked : r.WellMarked :=
      (h.atRest w hw).wellMarked_of_evaluate (h.wellMarked_of_read hx) (Prod.ext hrun rfl)
    refine ⟨w, e, r, _, bound, hw, hx, Prod.ext hrun rfl, rfl, hmarked, hunmarked, hsame, ?_⟩
    intro s₂ hlines
    have hget : s₂.bindings.get? v = some bound := by
      induction hlines with
      | refl => rw [hinsert, Table.get?_insert, if_pos rfl]
      | tail _ hline ih => exact hline.get?_eq.trans ih
    refine ⟨hget, ?_⟩
    rw [read_eq_reference_iff (Command.strip_of_read_letBind hread), hget, or_comm]
    simp

end

/-- A letter can be bound and used. A text of two words can be bound and not used. -/
theorem read_of_letBind_line : ∃ s, Reached lineSettings s ∧
    ∀ v ∈ ["v".toList, "my var".toList], ∃ s₁ said bound,
      (s.carryOut lineSettings (.letBind v "#0[1.0]".toList)).MayEnd (s₁, .ok said) ∧
      s₁.bindings.get? v = some bound ∧
      (Expression.read s₁.bindings v = .ok (.reference bound) ↔ v = "v".toList) := by
  have hfacts : ∀ v ∈ ["v".toList, "my var".toList],
      (Command.read ("let ".toList ++ v ++ " = #0[1.0]".toList)).toOption =
        some (.letBind v "#0[1.0]".toList) ∧
      (((Session.new.after lineSettings lineFiles ["generate_context line.json".toList]).carryOut
        lineSettings (.letBind v "#0[1.0]".toList)).runIn lineFiles).1.2.toOption.isSome = true ∧
      (IsName v ↔ v = "v".toList) ∧ v.head? ≠ some '#' := by
    decide +kernel
  have h : Reached lineSettings
      (Session.new.after lineSettings lineFiles ["generate_context line.json".toList]) :=
    Reached.new.after _ _
  refine ⟨_, h, fun v hv ↦ ?_⟩
  obtain ⟨hread, hanswers, hname, hhead⟩ := hfacts v hv
  generalize Session.new.after lineSettings lineFiles ["generate_context line.json".toList] = s at *
  have hend := Interaction.mayEnd_runIn
    (s.carryOut lineSettings (.letBind v "#0[1.0]".toList)) lineFiles
  rcases hrun : ((s.carryOut lineSettings (.letBind v "#0[1.0]".toList)).runIn lineFiles).1 with
    ⟨s₁, f | said⟩
  · rw [hrun] at hanswers
    cases hanswers
  · rw [hrun] at hend
    obtain ⟨_, _, _, _, bound, -, -, -, -, -, -, -, hlines⟩ :=
      read_of_letBind h (toOption_eq_some_iff.mp hread) hend
    obtain ⟨hget, hiff⟩ := hlines s₁ .refl
    refine ⟨s₁, said, bound, hend, hget, ?_⟩
    have hno : ¬IsReference v [] bound := by
      intro href
      obtain ⟨inner, rfl⟩ := href.exists_cons
      exact hhead rfl
    rw [hiff, or_iff_left hno, hname]

end Session

end TermEmbedding
