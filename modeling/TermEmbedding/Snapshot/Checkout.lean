import TermEmbedding.Snapshot.Reader
import TermEmbedding.Snapshot.Writer

/-!
# Working on a stored model

A model is at rest as a snapshot. To work on it, the snapshot is taken out, and an empty one is left
in its place; the model is read from it, the operation runs, and what the operation has left of the
model is put in the place of the empty snapshot. A failure of the operation is passed on after that:
what it did before it failed stays. If the model cannot be read or cannot be written, the snapshot
that was taken out is put back.

An operation sees the live model and the place where the snapshot was. It may try to take the model
out once more, but all it finds there is the empty snapshot, which is no model.
-/

namespace TermEmbedding

/-- Why work on a stored model fails. -/
inductive ModelError where
  | failure (failure : Failure Float)
  | snapshot (error : SnapshotError)

def ModelError.message : ModelError → Text
  | failure f => f.message
  | snapshot e => e.message

/-- Work with the place where a snapshot is kept. -/
abbrev Resting (α : Type) := ExceptT ModelError (StateM Snapshot) α

/-- Work on a live model, with the place where its snapshot was taken from. -/
abbrev Live (α : Type) := ExceptT ModelError (StateT (Model Float) (StateM Snapshot)) α

namespace Live

variable {α : Type}

/-- An operation on the model as work on it. -/
def ofOperation (operation : Operation Float α) : Live α :=
  ExceptT.mk fun model place ↦
    let (result, left) := operation.run model
    ((result.mapError .failure, left), place)

/-- Work with the place of the snapshot while the model is out. -/
def ofResting (work : Resting α) : Live α :=
  ExceptT.mk fun model place ↦
    let (result, left) := work.run place
    ((result, model), left)

end Live

/-- Takes the model out, works on it and puts it back. -/
def checkout {α : Type} (work : Live α) : Resting α :=
  ExceptT.mk fun stored ↦
    match stored.toModel with
    | .error e => (.error (.snapshot e), stored)
    | .ok model =>
      let ((result, left), _) := (work.run model).run Snapshot.empty
      match Snapshot.ofModel left with
      | .ok restored => (result, restored)
      | .error e => (.error (.snapshot e), stored)

end TermEmbedding
