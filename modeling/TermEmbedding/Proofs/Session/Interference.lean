import TermEmbedding.Proofs.Session.Workspaces

/-!
# Simulations do not interfere

A simulation may be left out of a session or put into it, and nothing else that the session does
comes out differently: not the other answers, not the files that are read and written, not the
bindings, and not the context and its model, apart from the state of the source of noise.

Two sessions are run side by side, one with the simulations and one without. Between lines they
differ in the state of the source of noise at most. A simulation moves the state in one of them; and
any other command asks for the same files in both, answers the same and leaves sessions that are
again alike, since what it does to the model draws no noise.
-/

namespace TermEmbedding

namespace Interaction

variable {α β γ δ : Type}

/-! ## Computations side by side -/

/-- Two computations that ask the same questions and, if they are answered alike, end with related
values. -/
inductive Alike (R : α → β → Prop) : Interaction α → Interaction β → Prop
  | done {a : α} {b : β} (h : R a b) : Alike R (.done a) (.done b)
  | read {path : Path} {next : Except FileError Bytes → Interaction α}
      {next' : Except FileError Bytes → Interaction β}
      (h : ∀ answer, Alike R (next answer) (next' answer)) :
      Alike R (.read path next) (.read path next')
  | write {path : Path} {contents : Bytes} {next : Except FileError Unit → Interaction α}
      {next' : Except FileError Unit → Interaction β}
      (h : ∀ answer, Alike R (next answer) (next' answer)) :
      Alike R (.write path contents next) (.write path contents next')
  | status {path : Path} {next : FileStatus → Interaction α} {next' : FileStatus → Interaction β}
      (h : ∀ answer, Alike R (next answer) (next' answer)) :
      Alike R (.status path next) (.status path next')

theorem Alike.refl (i : Interaction α) : Alike (· = ·) i i := by
  induction i with
  | done a => exact .done rfl
  | read path next ih => exact .read ih
  | write path contents next ih => exact .write ih
  | status path next ih => exact .status ih

/-- What goes on alike from related values goes on alike from computations that end with them. -/
theorem Alike.bind {R : α → β → Prop} {S : γ → δ → Prop} {i : Interaction α} {j : Interaction β}
    {f : α → Interaction γ} {g : β → Interaction δ} (h : Alike R i j)
    (hnext : ∀ a b, R a b → Alike S (f a) (g b)) : Alike S (i >>= f) (j >>= g) := by
  induction h with
  | done h => exact hnext _ _ h
  | read _ ih => exact .read ih
  | write _ ih => exact .write ih
  | status _ ih => exact .status ih

/-- The first of two computations may go on by itself, as long as it asks for nothing. -/
private theorem Alike.bind_left {R : α → β → Prop} {S : γ → β → Prop} {i : Interaction α}
    {j : Interaction β} {f : α → Interaction γ} (h : Alike R i j)
    (hnext : ∀ a b, R a b → Alike S (f a) (.done b)) : Alike S (i >>= f) j := by
  induction h with
  | done h => exact hnext _ _ h
  | read _ ih => exact .read ih
  | write _ ih => exact .write ih
  | status _ ih => exact .status ih

private theorem Alike.map_eq {R : α → β → Prop} {i : Interaction α} {j : Interaction β} {f : α → γ}
    {g : β → γ} (h : Alike R i j) (hsame : ∀ a b, R a b → f a = g b) : f <$> i = g <$> j := by
  induction h with
  | done h => exact congrArg Interaction.done (hsame _ _ h)
  | read _ ih => exact congrArg _ (funext ih)
  | write _ ih => exact congrArg _ (funext ih)
  | status _ ih => exact congrArg _ (funext ih)

end Interaction

/-! ## Workspaces -/

namespace Workspace

variable [Routines Float] {settings : Settings} {w : Workspace}

/-- A workspace with the source of noise in another state. -/
def withNoise (w : Workspace) (state : Int) : Workspace :=
  { w with model := w.model.withNoise state }

theorem AtRest.exists_withNoise_eq (hw : w.AtRest settings) : ∃ state, w.withNoise state = w := by
  obtain ⟨m, -, hs⟩ := hw
  refine ⟨m.noise, ?_⟩
  rw [withNoise, Snapshot.withNoise_self (Snapshot.noise_ofModel hs)]

/-- Work that draws no noise gives one answer whatever the state of the source is, and leaves the
same model in that state. -/
theorem AtRest.perform_withNoise {α : Type} {operation : Operation Float α}
    (hoperation : operation.IgnoresNoise) (hw : w.AtRest settings) (state : Int) :
    (w.withNoise state).perform (.ofOperation operation) =
      ((w.perform (.ofOperation operation)).1,
        (w.perform (.ofOperation operation)).2.withNoise state) := by
  obtain ⟨m, -, hs⟩ := hw
  have htaken := Snapshot.toModel_withNoise (Snapshot.noise_ofModel hs) state
  cases hmodel : w.model.toModel with
  | error e =>
    rw [hmodel] at htaken
    rw [perform_of_error htaken, perform_of_error hmodel]
  | ok m' =>
    rw [hmodel] at htaken
    have hput := Snapshot.ofModel_withNoise (operation.run m').2 state
    have hrun := hoperation m' state
    cases hleft : Snapshot.ofModel (operation.run m').2 with
    | error e =>
      rw [hleft] at hput
      rw [perform_of_unwritable htaken (by rw [hrun]; exact hput),
        perform_of_unwritable hmodel hleft]
    | ok s =>
      rw [hleft] at hput
      rw [perform_of_ok htaken (by rw [hrun]; exact hput), perform_of_ok hmodel hleft]
      exact Prod.ext (congrArg (fun r ↦ r.1.mapError ModelError.failure) hrun) rfl

/-- **A simulation moves the source of noise and does nothing else.** -/
theorem AtRest.exists_simulate_eq [Routines.Shaped Float] (hw : w.AtRest settings)
    (source : NoiseSource Float) (e : Expression Float) :
    ∃ state, (w.simulate source e).2 = w.withNoise state := by
  cases hmodel : w.model.toModel with
  | error f =>
    obtain ⟨before, hbefore⟩ := hw.exists_withNoise_eq
    refine ⟨before, ?_⟩
    rw [Workspace.simulate, perform_of_error hmodel, hbefore]
  | ok m =>
    obtain ⟨-, -, -, hs⟩ := hw.taken hmodel
    obtain ⟨state, hleft⟩ := e.within_simulate (c := w.context) (Model.within_sample source) m
    refine ⟨state, ?_⟩
    -- what is put away is what was taken up, in the state that the draws have led to
    have hput : Snapshot.ofModel ((e.simulate (Model.sample source) w.context).run m).2 =
        .ok (w.model.withNoise state) := by
      rw [hleft]
      change Snapshot.ofModel (m.withNoise state) = _
      rw [Snapshot.ofModel_withNoise, hs]
      rfl
    rw [Workspace.simulate, perform_of_ok hmodel hput]
    rfl

/-- The workspace without the state of the source of noise. -/
def quiet (w : Workspace) : Workspace := { w with model := { w.model with noise := none } }

end Workspace

/-! ## Sessions -/

/-- Whether a line tells a session to simulate something, or has the word for it without anything to
simulate. -/
def Command.isSimulation (line : Text) : Bool :=
  match read line with
  | .ok (.simulate _) => true
  | .error (.unknownWord word) => word = "sim".toList || word = "simulate".toList
  | _ => false

namespace Session

open Interaction

section

variable [Routines Float] {settings : Settings} {s s' : Session}

/-- Two sessions that differ in the state of the source of noise at most, each with its model at
rest. -/
inductive SameButNoise (settings : Settings) : Session → Session → Prop
  | closed (bindings : Bindings Float) : SameButNoise settings ⟨bindings, none⟩ ⟨bindings, none⟩
  | opened (bindings : Bindings Float) {w : Workspace} {state : Int} (hw : w.AtRest settings)
      (hw' : (w.withNoise state).AtRest settings) :
      SameButNoise settings ⟨bindings, some w⟩ ⟨bindings, some (w.withNoise state)⟩

private theorem sameButNoise_self (bindings : Bindings Float) {w : Workspace}
    (hw : w.AtRest settings) : SameButNoise settings ⟨bindings, some w⟩ ⟨bindings, some w⟩ := by
  obtain ⟨state, hstate⟩ := hw.exists_withNoise_eq
  have h := SameButNoise.opened bindings hw (hstate.symm ▸ hw)
  rwa [hstate] at h

private theorem sameButNoise_moved (bindings : Bindings Float) {w : Workspace} {moved state : Int}
    (hw : (w.withNoise moved).AtRest settings) (hw' : (w.withNoise state).AtRest settings) :
    SameButNoise settings ⟨bindings, some (w.withNoise moved)⟩
      ⟨bindings, some (w.withNoise state)⟩ := by
  have h : SameButNoise settings ⟨bindings, some (w.withNoise moved)⟩
      ⟨bindings, some ((w.withNoise moved).withNoise state)⟩ := .opened bindings hw hw'
  exact h

/-- Commands that have gone alike: they answer the same, and the sessions differ in the state of the
source of noise at most. -/
def OutcomeAlike (settings : Settings) (o o' : Session × Answer) : Prop :=
  SameButNoise settings o.1 o'.1 ∧ o.2 = o'.2

private theorem alike_pure (h : SameButNoise settings s s') (answer : Answer) :
    Alike (OutcomeAlike settings) (pure (s, answer)) (pure (s', answer)) := .done ⟨h, rfl⟩

/-! ### Commands other than simulations -/

theorem SameButNoise.enter (h : SameButNoise settings s s') (verb : Text) (contents : Bytes)
    (c : Context) : OutcomeAlike settings (s.enter settings verb contents c)
      (s'.enter settings verb contents c) := by
  have hbindings : s.bindings = s'.bindings := by cases h <;> rfl
  rw [Session.enter, Session.enter, hbindings]
  cases hnew : Workspace.new settings contents c with
  | error e => exact ⟨h, rfl⟩
  | ok w => exact ⟨sameButNoise_self _ (Workspace.atRest_of_new hnew), rfl⟩

theorem SameButNoise.withFile (h : SameButNoise settings s s') {pathText : Text}
    {next next' : Bytes → Session × Answer}
    (hnext : ∀ contents, OutcomeAlike settings (next contents) (next' contents)) :
    Alike (OutcomeAlike settings) (s.withFile settings pathText next)
      (s'.withFile settings pathText next') := by
  refine (Alike.refl _).bind ?_
  rintro contents _ rfl
  cases contents with
  | error e => exact .done ⟨h, rfl⟩
  | ok contents => exact .done (hnext contents)

theorem SameButNoise.defined (h : SameButNoise settings s s') (verb : Text)
    (stored : Except ContextError Bytes) :
    OutcomeAlike settings (s.defined settings verb stored) (s'.defined settings verb stored) := by
  cases stored with
  | error e => exact ⟨h, rfl⟩
  | ok contents =>
    rw [Session.defined, Session.defined]
    cases Context.load contents with
    | error e => exact ⟨h, rfl⟩
    | ok c => exact h.enter verb contents c

theorem SameButNoise.source (h : SameButNoise settings s s') {command : Command} {pathText : Text}
    (hsource : command.source? = some pathText) :
    Alike (OutcomeAlike settings) (s.carryOut settings command)
      (s'.carryOut settings command) := by
  obtain ⟨verb, hcarry⟩ := exists_withFile_of_source? settings hsource
  rw [hcarry, hcarry]
  exact h.withFile fun contents ↦ h.defined verb _

section

variable {bindings : Bindings Float} {w : Workspace} {state : Int}

private theorem letBind_alike (hw : w.AtRest settings) (hw' : (w.withNoise state).AtRest settings)
    (name text : Text) : OutcomeAlike settings (letBind ⟨bindings, some w⟩ w name text)
      (letBind ⟨bindings, some (w.withNoise state)⟩ (w.withNoise state) name text) := by
  rw [letBind, letBind]
  cases Expression.read bindings text with
  | error e => exact ⟨.opened bindings hw hw', rfl⟩
  | ok e =>
    have hsame : (w.withNoise state).evaluate e =
        ((w.evaluate e).1, (w.evaluate e).2.withNoise state) :=
      hw.perform_withNoise e.ignoresNoise_evaluate state
    have hrest := hw.evaluate e
    have hrest' := hw'.evaluate e
    rw [hsame] at hrest'
    dsimp only
    rw [hsame]
    generalize w.evaluate e = outcome at hrest hrest' ⊢
    rcases outcome with ⟨f | r, w₁⟩
    · exact ⟨.opened _ hrest hrest', rfl⟩
    · exact ⟨.opened _ hrest hrest', rfl⟩

private theorem updateModels_alike (hw : w.AtRest settings)
    (hw' : (w.withNoise state).AtRest settings) :
    OutcomeAlike settings (updateModels ⟨bindings, some w⟩ w)
      (updateModels ⟨bindings, some (w.withNoise state)⟩ (w.withNoise state)) := by
  have hsame : (w.withNoise state).update = (w.update.1, w.update.2.withNoise state) :=
    hw.perform_withNoise Model.ignoresNoise_update state
  have hrest := hw.update
  have hrest' := hw'.update
  rw [hsame] at hrest'
  rw [updateModels, updateModels, hsame]
  generalize w.update = outcome at hrest hrest' ⊢
  rcases outcome with ⟨f | ⟨⟩, w₁⟩
  · exact ⟨.opened _ hrest hrest', rfl⟩
  · exact ⟨.opened _ hrest hrest', rfl⟩

end

/-- **Commands other than simulations go alike** in sessions that differ in the state of the source
of noise. -/
theorem SameButNoise.carryOut {command : Command} (h : SameButNoise settings s s')
    (hcommand : ∀ text, command ≠ .simulate text) :
    Alike (OutcomeAlike settings) (s.carryOut settings command)
      (s'.carryOut settings command) := by
  have hself := h
  cases h with
  | closed bindings =>
    cases command with
    | generateContext | loadContext => exact hself.source rfl
    | simulate text => exact absurd rfl (hcommand text)
    | _ => exact alike_pure hself _
  | @opened bindings w state hw hw' =>
    cases command with
    | generateContext | loadContext => exact hself.source rfl
    | simulate text => exact absurd rfl (hcommand text)
    | unloadContext => exact alike_pure (.closed bindings) _
    | letBind name text => exact .done (letBind_alike hw hw' name text)
    | evaluate text => exact .done (letBind_alike hw hw' answerName text)
    | updateModels => exact .done (updateModels_alike hw hw')
    | saveContext path =>
      refine (Alike.refl (saveContext settings w path)).bind ?_
      rintro answer _ rfl
      exact alike_pure hself answer
    | _ => exact alike_pure hself _

/-! ### Simulations -/

theorem SameButNoise.exists_simulate_eq [Routines.Shaped Float] (h : SameButNoise settings s s')
    (text : Text) :
    ∃ t answer, s.carryOut settings (.simulate text) = pure (t, answer) ∧
      SameButNoise settings t s' := by
  cases h with
  | closed bindings => exact ⟨_, _, rfl, .closed bindings⟩
  | @opened bindings w state hw hw' =>
    refine ⟨(simulate settings ⟨bindings, some w⟩ w text).1,
      (simulate settings ⟨bindings, some w⟩ w text).2, rfl, ?_⟩
    rw [Session.simulate]
    cases Expression.read bindings text with
    | error e => exact .opened bindings hw hw'
    | ok e =>
      have hrest := hw.simulate e
      obtain ⟨moved, hmoved⟩ := hw.exists_simulate_eq settings.source e
      dsimp only
      generalize w.simulate settings.source e = outcome at hrest hmoved ⊢
      rcases outcome with ⟨f | v, w₁⟩
      · obtain rfl : w₁ = w.withNoise moved := hmoved
        exact sameButNoise_moved bindings hrest hw'
      · obtain rfl : w₁ = w.withNoise moved := hmoved
        exact sameButNoise_moved bindings hrest hw'

/-- **A line that is a simulation** asks for no files and moves the source of noise at most. -/
theorem SameButNoise.exists_handle_eq [Routines.Shaped Float] (h : SameButNoise settings s s')
    {line : Text} (hline : Command.isSimulation line = true) :
    ∃ t answer, s.handle settings line = pure (t, answer) ∧ SameButNoise settings t s' := by
  rw [Command.isSimulation] at hline
  rw [Session.handle]
  cases hread : Command.read line with
  | error e => exact ⟨s, _, rfl, h⟩
  | ok command =>
    rw [hread] at hline
    cases command with
    | simulate text =>
      obtain ⟨t, answer, hrun, ht⟩ := h.exists_simulate_eq text
      dsimp only
      rw [hrun]
      exact ⟨t, _, rfl, ht⟩
    | _ => cases hline

theorem SameButNoise.handle (h : SameButNoise settings s s') {line : Text}
    (hline : Command.isSimulation line = false) :
    Interaction.Alike (OutcomeAlike settings) (s.handle settings line)
      (s'.handle settings line) := by
  rw [Command.isSimulation] at hline
  rw [Session.handle, Session.handle]
  cases hread : Command.read line with
  | error e => exact alike_pure h _
  | ok command =>
    rw [hread] at hline
    refine (h.carryOut ?_).bind ?_
    · rintro text rfl
      cases hline
    · rintro ⟨t, answer⟩ ⟨t', _⟩ ⟨ht, rfl⟩
      exact alike_pure ht _

/-! ## Whole sessions -/

/-- What comes of the lines of a session: each line with its answer, and the session in the end. A
line whose failure nothing explains has this failure for its answer. -/
def transcript (settings : Settings) :
    Session → List Text → Interaction (List (Text × Answer) × Session)
  | s, [] => return ([], s)
  | s, line :: rest => do
    let (next, answer) ← s.handle settings line
    let (answers, last) ← transcript settings next rest
    return ((line, answer) :: answers, last)

/-- A session without the state of the source of noise. -/
def quiet (s : Session) : Session := { s with workspace := s.workspace.map (·.quiet) }

/-- What a transcript shows apart from simulations: the answers of the other lines, and the session
in the end without the state of the source of noise. -/
def withoutSimulations (outcome : List (Text × Answer) × Session) :
    List (Text × Answer) × Session :=
  (outcome.1.filter (!Command.isSimulation ·.1), outcome.2.quiet)

private theorem SameButNoise.quiet_eq (h : SameButNoise settings s s') : s.quiet = s'.quiet := by
  cases h with
  | closed bindings => rfl
  | opened bindings hw hw' => rfl

theorem SameButNoise.transcript [Routines.Shaped Float] (h : SameButNoise settings s s')
    (ls : List Text) :
    Interaction.Alike
      (fun o o' ↦ o.1.filter (!Command.isSimulation ·.1) = o'.1 ∧ SameButNoise settings o.2 o'.2)
      (s.transcript settings ls)
      (s'.transcript settings (ls.filter (!Command.isSimulation ·))) := by
  induction ls generalizing s s' with
  | nil => exact .done ⟨rfl, h⟩
  | cons line rest ih =>
    cases hline : Command.isSimulation line with
    | true =>
      -- the line is run in one session only
      obtain ⟨t, answer, hrun, ht⟩ := h.exists_handle_eq hline
      rw [List.filter_cons_of_neg (by simp [hline]), Session.transcript, hrun]
      refine (ih ht).bind_left ?_
      rintro ⟨answers, last⟩ ⟨answers', last'⟩ ⟨hanswers, hlast⟩
      exact .done ⟨by simpa [hline] using hanswers, hlast⟩
    | false =>
      rw [List.filter_cons_of_pos (by simp [hline]), Session.transcript, Session.transcript]
      refine (h.handle hline).bind ?_
      rintro ⟨t, answer⟩ ⟨t', _⟩ ⟨ht, rfl⟩
      refine (ih ht).bind ?_
      rintro ⟨answers, last⟩ ⟨_, last'⟩ ⟨rfl, hlast⟩
      exact .done ⟨by simp [hline], hlast⟩

/-- **Simulations do not interfere.** Two lists of lines that differ in simulations only make a new
session ask for the same files in the same order and, whatever these hold, give the same answers to
all other lines, and they leave the same bindings, context and model, apart from the state of the
source of noise. -/
theorem transcript_of_filter_eq [Routines.Shaped Float] (settings : Settings)
    {ls ls' : List Text}
    (h : ls.filter (!Command.isSimulation ·) = ls'.filter (!Command.isSimulation ·)) :
    withoutSimulations <$> transcript settings .new ls =
      withoutSimulations <$> transcript settings .new ls' := by
  have halone : ∀ lines, withoutSimulations <$> transcript settings .new lines =
      (fun o ↦ (o.1, o.2.quiet)) <$>
        transcript settings .new (lines.filter (!Command.isSimulation ·)) := by
    intro lines
    refine ((SameButNoise.closed []).transcript lines).map_eq ?_
    rintro o o' ⟨hanswers, hlast⟩
    rw [withoutSimulations, hanswers, hlast.quiet_eq]
  rw [halone ls, halone ls', h]

end

/-- A simulation before an evaluation moves the source of noise, and the rest of the session is as
it would be without it. -/
theorem transcript_of_filter_eq_line : ∃ ls ls' : List Text,
    ls.filter (!Command.isSimulation ·) = ls'.filter (!Command.isSimulation ·) ∧
    ((transcript lineSettings .new ls).runIn lineFiles).1.2.workspace.map (·.model.noise) =
      some (some 4) ∧
    ((transcript lineSettings .new ls').runIn lineFiles).1.2.workspace.map (·.model.noise) =
      some (some 2) ∧
    withoutSimulations <$> transcript lineSettings .new ls =
      withoutSimulations <$> transcript lineSettings .new ls' := by
  have hfacts : ["generate_context line.json".toList, "sim (#1p0 #0[1.0])".toList,
      "eval (#1p0 #0[1.0])".toList].filter (!Command.isSimulation ·) =
        ["generate_context line.json".toList, "eval (#1p0 #0[1.0])".toList].filter
          (!Command.isSimulation ·) ∧
      ((transcript lineSettings .new ["generate_context line.json".toList,
        "sim (#1p0 #0[1.0])".toList, "eval (#1p0 #0[1.0])".toList]).runIn
          lineFiles).1.2.workspace.map (·.model.noise) = some (some 4) ∧
      ((transcript lineSettings .new ["generate_context line.json".toList,
        "eval (#1p0 #0[1.0])".toList]).runIn
          lineFiles).1.2.workspace.map (·.model.noise) = some (some 2) := by
    decide +kernel
  exact ⟨_, _, hfacts.1, hfacts.2.1, hfacts.2.2, transcript_of_filter_eq lineSettings hfacts.1⟩

end Session

end TermEmbedding
