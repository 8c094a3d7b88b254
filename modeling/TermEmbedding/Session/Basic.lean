import TermEmbedding.Files.Basic
import TermEmbedding.Model.Evaluation
import TermEmbedding.Model.Fresh
import TermEmbedding.Model.Simulation
import TermEmbedding.Model.Update
import TermEmbedding.Ontology.Definition
import TermEmbedding.Snapshot.Checkout

/-!
# Sessions

A session has bindings, which last as long as it does, and perhaps a workspace: a context, the
contents of the file that it was read from, and a model at rest. Reading another context opens a new
workspace with a new model; the bindings stay, although the terms they name may not exist there.
-/

namespace TermEmbedding

/-- A context and a model of it. -/
structure Workspace where
  context : Context
  /-- The contents of the file that the context was read from. -/
  contents : Bytes
  model : Snapshot

/-- What lasts from command to command. -/
structure Session where
  bindings : Bindings Float
  workspace : Option Workspace

/-- What does not change in a session. -/
structure Settings where
  source : NoiseSource Float
  seed : Seed
  environment : Environment

def Session.new : Session := ⟨[], none⟩

namespace Workspace

variable [Routines Float]

def new (settings : Settings) (contents : Bytes) (context : Context) :
    Except ModelError Workspace := do
  let model ← (Model.fresh settings.source context settings.seed).mapError .failure
  let snapshot ← (Snapshot.ofModel model).mapError .snapshot
  return ⟨context, contents, snapshot⟩

/-- Works on the model of a workspace. -/
def perform {α : Type} (w : Workspace) (work : Live α) : Except ModelError α × Workspace :=
  let (result, model) := (checkout work).run w.model
  (result, { w with model := model })

def evaluate (w : Workspace) (e : Expression Float) :
    Except ModelError (TermReference Float) × Workspace :=
  w.perform (.ofOperation (e.evaluate w.context))

def simulate (w : Workspace) (source : NoiseSource Float) (e : Expression Float) :
    Except ModelError (TypedVector Float) × Workspace :=
  w.perform (.ofOperation (e.simulate (Model.sample source) w.context))

/-- Folds all pending applications into the beliefs. -/
def update (w : Workspace) : Except ModelError Unit × Workspace :=
  w.perform (.ofOperation (Model.update w.context))

end Workspace

end TermEmbedding
