import Mathlib.Logic.Relation
import TermEmbedding.Proofs.Ontology.Stored
import TermEmbedding.Proofs.Session.Reached

/-!
# Contexts that are saved and loaded again

A workspace keeps the contents of the file that its context was read from, and no work on the model
touches them. So what is saved is what was read when the context was entered, and loading it enters
the same context again, with the new model that there was at first: a new model depends on the
settings and the context alone.
-/

namespace TermEmbedding

/-! ## Files in memory -/

namespace Tree

variable {t t' : Tree} {path : Path} {contents : Bytes}

/-- Where a path leads depends on the directories alone. -/
private theorem walk_of_directories_eq (hdirectories : t'.directories = t.directories)
    {here parts names : List Text} (h : t.walk here parts = .ok names) :
    t'.walk here parts = .ok names := by
  induction parts generalizing here with
  | nil => exact h
  | cons part rest ih =>
    have hhere : t'.hasDirectory here = t.hasDirectory here := by
      rw [hasDirectory, hasDirectory, hdirectories]
    rw [walk] at h ⊢
    rw [hhere]
    by_cases hdirectory : t.hasDirectory here = true
    · rw [if_pos hdirectory] at h ⊢
      by_cases hup : part = ['.', '.']
      · rw [if_pos hup] at h ⊢
        exact ih h
      · rw [if_neg hup] at h ⊢
        by_cases hlong : nameLimit < (Text.utf8 part).length
        · rw [if_pos hlong] at h
          cases h
        · rw [if_neg hlong] at h ⊢
          exact ih h
    · rw [if_neg hdirectory] at h
      split at h
      · cases h
      · cases h

private theorem resolve_of_directories_eq (hdirectories : t'.directories = t.directories)
    (hworking : t'.working = t.working) {names : List Text} (h : t.resolve path = .ok names) :
    t'.resolve path = .ok names := by
  rw [resolve] at h ⊢
  by_cases hlong : pathLimit < (Text.utf8 path.text).length
  · rw [if_pos hlong] at h
    cases h
  · rw [if_neg hlong] at h ⊢
    rw [hworking]
    exact walk_of_directories_eq hdirectories h

/-- **What is written into a file is read from it.** -/
theorem readFile_of_writeFile (h : t.writeFile path contents = .ok t') :
    t'.readFile path = .ok contents := by
  obtain ⟨names, hnames, h⟩ := exists_of_bind_eq_ok h
  by_cases hdirectory : t.hasDirectory names = true
  · rw [if_pos hdirectory] at h
    cases h
  · rw [if_neg hdirectory] at h
    by_cases hparent : t.hasDirectory names.dropLast = true
    · rw [if_pos hparent] at h
      obtain rfl := Except.ok.inj h
      have hwritten : Tree.resolve { t with files := t.files.insert names contents } path =
          .ok names := by
        apply resolve_of_directories_eq _ _ hnames
        · rfl
        · rfl
      rw [readFile, bind_ok hwritten]
      refine (if_neg hdirectory).trans ?_
      rw [Table.get?_insert, if_pos rfl]
      rfl
    · rw [if_neg hparent] at h
      cases h

end Tree

namespace Interaction

variable {α β : Type}

private theorem runIn_bind (i : Interaction α) (f : α → Interaction β) (t : Tree) :
    (i >>= f).runIn t = (f (i.runIn t).1).runIn (i.runIn t).2 := by
  induction i generalizing t with
  | done a => rfl
  | read path next ih => exact ih _ t
  | write path contents next ih =>
    change (write path contents fun answer ↦ next answer >>= f).runIn t = _
    rw [runIn, runIn]
    cases t.writeFile path contents with
    | ok written => exact ih _ written
    | error e => exact ih _ t
  | status path next ih => exact ih _ t

end Interaction

namespace Session

section

variable {settings : Settings} {s s' : Session} {w w' : Workspace} {command : Command}
  {answer : Answer}

/-! ## What commands leave of a context -/

/-- The workspace of a session has the context that it had, if it has any. -/
def KeepsContext (s s' : Session) : Prop :=
  ∀ w', s'.workspace = some w' → ∃ w, s.workspace = some w ∧ w'.contents = w.contents ∧
    w'.context = w.context

private theorem keepsContext_refl (s : Session) : s.KeepsContext s := fun w hw ↦ ⟨w, hw, rfl, rfl⟩

theorem keepsContext_perform {α : Type} (hw : s.workspace = some w) (work : Live α)
    (bindings : Bindings Float) : s.KeepsContext ⟨bindings, some (w.perform work).2⟩ := by
  rintro _ ⟨⟩
  exact ⟨w, hw, rfl, rfl⟩

variable [Routines Float]

/-- Whether the workspace of a session is a new one, with the context that its file holds. -/
structure HasNew (settings : Settings) (s : Session) (w : Workspace) : Prop where
  workspace : s.workspace = some w
  load : Context.load w.contents = .ok w.context
  new : Workspace.new settings w.contents w.context = .ok w

private theorem hasNew_of_new {contents : Bytes} {c : Context}
    (hload : Context.load contents = .ok c) (hnew : Workspace.new settings contents c = .ok w) :
    HasNew settings { s with workspace := some w } w := by
  obtain ⟨m, snapshot, -, -, rfl⟩ := Workspace.exists_of_new_eq_ok hnew
  exact ⟨rfl, hload, hnew⟩

/-- **A command leaves the context of a session as it is, or enters one.** Only commands that read a
file enter a context. -/
theorem keepsContext_or_hasNew (hend : (s.carryOut settings command).MayEnd (s', answer)) :
    s.KeepsContext s' ∨ command.source?.isSome = true ∧ ∃ w, HasNew settings s' w := by
  cases carriedOut hend with
  | refused => exact .inl s.keepsContext_refl
  | said => exact .inl s.keepsContext_refl
  | closed => exact .inl (by rintro _ ⟨⟩)
  | opened hsource hload hnew => exact .inr ⟨hsource, _, hasNew_of_new hload hnew⟩
  | bound _ hw => exact .inl (keepsContext_perform hw _ _)
  | unbound _ hw => exact .inl (keepsContext_perform hw _ _)
  | simulated hw => exact .inl (keepsContext_perform hw _ _)
  | updated hw => exact .inl (keepsContext_perform hw _ _)

/-! ## The line that has entered the context -/

/-- A line enters a context: it reads a file and leaves a new workspace. -/
def Enters (settings : Settings) (s s' : Session) (w : Workspace) : Prop :=
  (∃ line command answer, Command.read line = .ok command ∧ command.source?.isSome = true ∧
    (s.handle settings line).MayEnd (s', answer)) ∧ HasNew settings s' w

/-- A line leaves the context as it is. -/
def Follows (settings : Settings) (s s' : Session) : Prop :=
  (∃ line answer, (s.handle settings line).MayEnd (s', answer)) ∧ s.KeepsContext s'

/-- A workspace was new when a line entered its context, and no other context has been entered
since. -/
def Since (settings : Settings) (w : Workspace) (s : Session) : Prop :=
  ∃ before first, Reached settings before ∧ Enters settings before first w ∧
    Relation.ReflTransGen (Follows settings) first s

private theorem follows_or_enters {line : Text}
    (hend : (s.handle settings line).MayEnd (s', answer)) :
    Follows settings s s' ∨ ∃ w, Enters settings s s' w := by
  rcases handle_cases hend with ⟨e, -, rfl, -⟩ | ⟨command, outcome, hread, hcommand, -⟩
  · exact .inl ⟨⟨line, answer, hend⟩, s'.keepsContext_refl⟩
  · rcases keepsContext_or_hasNew hcommand with hkeeps | ⟨hsource, w, hnew⟩
    · exact .inl ⟨⟨line, answer, hend⟩, hkeeps⟩
    · exact .inr ⟨w, ⟨line, command, answer, hread, hsource, hend⟩, hnew⟩

/-- **The workspace of a session began with the context that it has.** -/
theorem Reached.exists_since (h : Reached settings s) (hw : s.workspace = some w) :
    ∃ w₀, Since settings w₀ s ∧ w₀.contents = w.contents ∧ w₀.context = w.context := by
  induction h generalizing w with
  | new => cases hw
  | @line before s line answer hbefore hend ih =>
    rcases follows_or_enters hend with hfollows | ⟨w₀, henters⟩
    · obtain ⟨w', hw', hcontents, hcontext⟩ := hfollows.2 w hw
      obtain ⟨w₀, ⟨first, s₀, hfirst, henters, hlines⟩, hsame⟩ := ih hw'
      rw [hcontents, hcontext]
      exact ⟨w₀, ⟨first, s₀, hfirst, henters, hlines.tail hfollows⟩, hsame⟩
    · obtain rfl : w₀ = w := Option.some.inj (henters.2.workspace.symm.trans hw)
      exact ⟨w₀, ⟨before, s, hbefore, henters, .refl⟩, rfl, rfl⟩

/-! ## Saving and loading -/

variable {pathText : Text} {t t' : Tree} {said : List CodePoint}

private theorem readFile_of_saveContext (hw : s.workspace = some w)
    (h : (s.carryOut settings (.saveContext pathText)).runIn t = ((s', .ok said), t')) :
    s' = s ∧ (Path.expand settings.environment pathText).isPassable = true ∧
      t'.readFile (Path.expand settings.environment pathText) = .ok w.contents := by
  rw [carryOut, inWorkspace, hw] at h
  dsimp only at h
  rw [Interaction.runIn_bind, saveContext, Interaction.runIn_bind, Interaction.writeFile] at h
  by_cases hpath : (Path.expand settings.environment pathText).isPassable = true
  · rw [if_pos hpath, Interaction.runIn] at h
    cases hwrite : t.writeFile (Path.expand settings.environment pathText) w.contents with
    | error e =>
      rw [hwrite] at h
      cases h
    | ok written =>
      rw [hwrite] at h
      cases h
      exact ⟨rfl, hpath, Tree.readFile_of_writeFile hwrite⟩
  · rw [if_neg hpath] at h
    cases h

private theorem runIn_loadContext {w₀ : Workspace} {contents : Bytes} {c : Context}
    (hpath : (Path.expand settings.environment pathText).isPassable = true)
    (hfile : t.readFile (Path.expand settings.environment pathText) = .ok contents)
    (hload : Context.load contents = .ok c) (hnew : Workspace.new settings contents c = .ok w₀) :
    (s.carryOut settings (.loadContext pathText)).runIn t =
      (({ s with workspace := some w₀ }, say ("Loaded context with ".toList ++ numeral c.size ++
        " types".toList)), t) := by
  rw [carryOut, loadContext, withFile, Interaction.runIn_bind, Interaction.readFile, if_pos hpath,
    Interaction.runIn, Interaction.runIn, hfile]
  dsimp only
  rw [hload]
  dsimp only
  rw [enter, hnew]
  rfl

/-- Whoever saves the context of a session finds it in the file, and whoever loads the file later,
in whatever session, enters a workspace. -/
def Restores (settings : Settings) (s : Session) (w entered : Workspace) : Prop :=
  ∀ (pathText : Text) (t t' : Tree) (s' : Session) (said : List CodePoint),
    (s.carryOut settings (.saveContext pathText)).runIn t = ((s', .ok said), t') →
    s' = s ∧ t'.readFile (Path.expand settings.environment pathText) = .ok w.contents ∧
    ∀ (later : Session) (files : Tree),
      files.readFile (Path.expand settings.environment pathText) = .ok w.contents →
      (later.carryOut settings (.loadContext pathText)).runIn files =
        (({ later with workspace := some entered }, say ("Loaded context with ".toList ++
          numeral w.context.size ++ " types".toList)), files)

/-- **Contexts come back as they were.** What is generated from parameters is read as the context
that they describe, if its names are strings of characters. A context that is built in any way is
read back from its stored form. In a session that can be reached the contents of the workspace hold
its context; the workspace was new when a line entered this context, and whoever saves the context
and later loads the file enters it again with the model that it had then. -/
theorem contexts_come_back :
    (∀ parameters contents : Bytes, Context.generate parameters = .ok contents →
      ∃ v c, Json.ofBytes parameters = .ok v ∧ Context.ofParameters v = .ok c ∧
        contents = c.toBytes ∧ (c.HasTextNames → Context.load contents = .ok c)) ∧
    (∀ (v : Json) (c : Context), Context.ofParameters v = .ok c ∨ Context.ofData v = .ok c →
      Context.ofData c.toData = .ok c) ∧
    ∀ (settings : Settings) (s : Session) (w : Workspace), Reached settings s →
      s.workspace = some w →
      Context.load w.contents = .ok w.context ∧
      ∃ w₀, Since settings w₀ s ∧ w₀.contents = w.contents ∧ w₀.context = w.context ∧
        Restores settings s w w₀ := by
  refine ⟨fun _ _ ↦ Context.exists_of_generate, ?_, ?_⟩
  · rintro v c (hc | hc)
    · exact Context.ofData_toData (.of_ofParameters hc)
    · exact Context.ofData_toData (.of_ofData hc)
  · intro settings s w hreached hw
    obtain ⟨w₀, hsince, hcontents, hcontext⟩ := hreached.exists_since hw
    obtain ⟨before, first, -, ⟨-, -, hload, hnew⟩, -⟩ := id hsince
    rw [hcontents, hcontext] at hload hnew
    refine ⟨hload, w₀, hsince, hcontents, hcontext, ?_⟩
    intro pathText t t' s' said hsave
    obtain ⟨hsame, hpath, hfile⟩ := readFile_of_saveContext hw hsave
    exact ⟨hsame, hfile, fun later files hfiles ↦ runIn_loadContext hpath hfiles hload hnew⟩

end

/-- The parameters of a line are those of a context that comes back. It does so from a session in
which its model has been worked with, and the model is the one that it had when it was generated. -/
theorem contexts_come_back_line :
    (∃ parameters contents c, lineFiles.files.get? ["line.json".toList] = some parameters ∧
      Context.generate parameters = .ok contents ∧ c.HasTextNames ∧
      Context.load contents = .ok c ∧ Context.ofData c.toData = .ok c) ∧
    ∃ s w w₀ said t, Reached lineSettings s ∧ s.workspace = some w ∧
      Since lineSettings w₀ s ∧ w₀.context = w.context ∧ Context.load w.contents = .ok w.context ∧
      (s.carryOut lineSettings (.saveContext "saved.json".toList)).runIn lineFiles =
        ((s, .ok said), t) ∧
      ((s.carryOut lineSettings (.loadContext "saved.json".toList)).runIn t).1.1.workspace =
        some w₀ := by
  refine ⟨?_, ?_⟩
  · obtain ⟨parameters, hparameters⟩ : ∃ parameters,
        lineFiles.files.get? ["line.json".toList] = some parameters := ⟨_, rfl⟩
    have hprimitives : (do
        let v ← (Json.ofBytes parameters).toOption
        let c ← (Context.ofParameters v).toOption
        some (c.primitives, (Context.generate parameters).toOption.isSome)) =
          some ([(1, [Text.codePoints ['f']])], true) := by
      cases hparameters
      decide +kernel
    obtain ⟨v, hv, hprimitives⟩ := Option.bind_eq_some_iff.mp hprimitives
    obtain ⟨c, hc, hprimitives⟩ := Option.bind_eq_some_iff.mp hprimitives
    obtain ⟨hrows, hgenerate⟩ := Prod.mk.inj (Option.some.inj hprimitives)
    obtain ⟨contents, hcontents⟩ := Option.isSome_iff_exists.mp hgenerate
    rw [toOption_eq_some_iff] at hv hc hcontents
    have hnames : c.HasTextNames := by
      rw [Context.HasTextNames, hrows, List.forall_mem_singleton, List.forall_mem_singleton]
      exact ⟨['f'], rfl⟩
    obtain ⟨v', c', hv', hc', -, hload⟩ := contexts_come_back.1 parameters contents hcontents
    cases hv.symm.trans hv'
    cases hc.symm.trans hc'
    exact ⟨parameters, contents, c, hparameters, hcontents, hnames, hload hnames,
      contexts_come_back.2.1 v c (.inl hc)⟩
  · generalize hs : Session.new.after lineSettings lineFiles ["generate_context line.json".toList,
      "eval (#1p0 #0[1.0])".toList] = s
    have hreached : Reached lineSettings s := hs ▸ Reached.new.after _ _
    have hopen : s.workspace.isSome = true := by
      rw [← hs]
      decide +kernel
    have hsaved : ((s.carryOut lineSettings (.saveContext "saved.json".toList)).runIn
        lineFiles).1.2.toOption.isSome = true := by
      rw [← hs]
      decide +kernel
    obtain ⟨w, hw⟩ := Option.isSome_iff_exists.mp hopen
    obtain ⟨hload, w₀, hsince, -, hcontext, hrestores⟩ :=
      contexts_come_back.2.2 lineSettings s w hreached hw
    generalize houtcome : (s.carryOut lineSettings (.saveContext "saved.json".toList)).runIn
      lineFiles = outcome at hsaved
    obtain ⟨⟨s', answer⟩, t⟩ := outcome
    obtain ⟨said, hsaid⟩ := Option.isSome_iff_exists.mp hsaved
    obtain rfl : answer = .ok said := toOption_eq_some_iff.mp hsaid
    obtain ⟨rfl, hfile, hloaded⟩ := hrestores _ _ _ _ _ houtcome
    refine ⟨s', w, w₀, said, t, hreached, hw, hsince, hcontext, hload, houtcome, ?_⟩
    rw [hloaded s' t hfile]

end Session

end TermEmbedding
