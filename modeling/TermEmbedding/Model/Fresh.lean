import TermEmbedding.Model.Basic

/-!
# New models

A new model knows the primitive terms of its context and nothing else. The beliefs about them start
from small random means. The matrices that expand compressed vectors are fixed once and for all: the
identity where a type is not compressed, and otherwise orthonormal columns that span those of a
random matrix.

The order in which noise is drawn is part of what a seed stands for: matrices come first, then
means, in both cases type by type and within a type term by term.
-/

namespace TermEmbedding

namespace Model

variable {K : Type} [Zero K] [One K] [Add K] [Mul K] [Numbers K]

/-- The matrix that expands the vectors of a type with the given dimensions, and the state of the
source after it. -/
def freshElaborator (source : NoiseSource K) (d : Dimensions) (state : Int) :
    Except LinearError (Tensor K) × Int :=
  if d.compressed = d.full then (.ok (.identity d.full), state)
  else
    let (noise, next) := source.drawArray [d.full, d.compressed] state
    (Routines.orthonormal noise, next)

/-- The matrices of the types of functions in a list of kinds whose dimensions are given beside
them. The first of them has the given number. -/
def freshElaborators (source : NoiseSource K) :
    Nat → List (Kind × Dimensions) → Int → Except LinearError (Table TypeId (Tensor K)) × Int
  | _, [], state => (.ok [], state)
  | n, (.vector _, _) :: rest, state => freshElaborators source (n + 1) rest state
  | n, (.function _ _ _, d) :: rest, state =>
    match freshElaborator source d state with
    | (.error e, next) => (.error e, next)
    | (.ok matrix, next) =>
      let (others, last) := freshElaborators source (n + 1) rest next
      (others.map (((n : TypeId), matrix) :: ·), last)

/-- The beliefs about a number of primitive terms of a type, from the one with the given running
number on. -/
def freshTerms (source : NoiseSource K) (typeId : TypeId) (space : Context.FunctionSpace) :
    Nat → Nat → Int → Table TermPointer (Embedding K) × Int
  | _, 0, state => ([], state)
  | i, count + 1, state =>
    let drawn := source.drawArray [space.output, space.features] state
    let mean := drawn.1.map fun z ↦ 0 + Numbers.initialScale * z
    let (others, last) := freshTerms source typeId space (i + 1) count drawn.2
    ((⟨typeId, .primitive i⟩, .prior mean (by simp [mean, drawn])) :: others, last)

/-- The beliefs about the primitive terms of types. -/
def freshEmbeddings (source : NoiseSource K) (context : Context) :
    List (Nat × List TermName) → Int →
      Except (Failure K) (Table TermPointer (Embedding K) × Int)
  | [], state => return ([], state)
  | (typeId, names) :: rest, state => do
    let space ← context.functionSpace typeId
    let (terms, next) := freshTerms source typeId space 0 names.length state
    let (others, last) ← freshEmbeddings source context rest next
    return (terms ++ others, last)

/-- A new model of a context, with noise from a given state on. -/
def freshFrom (source : NoiseSource K) (context : Context) (state : Int) :
    Except (Failure K) (Model K) := do
  let (elaborators, state) :=
    freshElaborators source 0 (context.kinds.zip context.dimensions) state
  let elaborators ← elaborators
  let (embeddings, state) ← freshEmbeddings source context context.primitives state
  return ⟨[], [], embeddings, elaborators, [], state⟩

def fresh (source : NoiseSource K) (context : Context) (seed : Seed) :
    Except (Failure K) (Model K) :=
  match source.start? seed with
  | none => throw .badSeed
  | some state => freshFrom source context state

end Model

end TermEmbedding
