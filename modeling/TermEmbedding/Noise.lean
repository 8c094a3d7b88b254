import TermEmbedding.Linear.Arithmetic

/-!
# Sources of noise

Samples are made from noise, and noise comes from a source whose whole state is one integer. The
state is part of a model: a model that is put away and taken up again goes on where it stopped, and
two models with one state draw the same. A stored state may be any integer.

A source is known by what it does with a seed and with a state. Nothing else about randomness enters
the library, so its statements hold for every source.
-/

namespace TermEmbedding

/-- What a new model is told to start its noise from. -/
inductive Seed where
  /-- Nothing is said about it. -/
  | unspecified
  | integer (i : Int)
  /-- Something was given that is no integer. -/
  | malformed
deriving DecidableEq, Inhabited

/-- A deterministic source of noise. -/
structure NoiseSource (K : Type) where
  /-- The state that a seed starts from, if the source can do with the seed. -/
  start? : Seed → Option Int
  /-- One draw, and the state after it. -/
  draw : Int → K × Int

namespace NoiseSource

variable {K : Type}

def advance (source : NoiseSource K) : Nat → Int → Int
  | 0, state => state
  | n + 1, state => source.advance n (source.draw state).2

/-- A number of draws in a row, and the state after them. -/
def draws (source : NoiseSource K) : Nat → Int → List K × Int
  | 0, state => ([], state)
  | n + 1, state =>
    let (x, next) := source.draw state
    let (xs, last) := source.draws n next
    (x :: xs, last)

theorem draws_snd (source : NoiseSource K) (n : Nat) (state : Int) :
    (source.draws n state).2 = source.advance n state := by
  induction n generalizing state with
  | zero => rfl
  | succ n ih => simp [draws, advance, ih]

@[simp] theorem length_draws (source : NoiseSource K) (n : Nat) (state : Int) :
    (source.draws n state).1.length = n := by
  induction n generalizing state with
  | zero => rfl
  | succ n ih => simp [draws, ih]

/-- An array of draws, row by row, and the state after them. -/
def drawArray (source : NoiseSource K) (shape : List Nat) (state : Int) : Tensor K × Int :=
  let r := source.draws (Tensor.volume shape) state
  (⟨shape, r.1.toArray, by simp [r]⟩, r.2)

@[simp] theorem shape_drawArray (source : NoiseSource K) (shape : List Nat) (state : Int) :
    (source.drawArray shape state).1.shape = shape := rfl

/-! ## Sources of the program -/

/-- A congruential source with seventeen equidistant values. -/
def congruential : NoiseSource Float where
  start?
    | .unspecified => some 0
    | .integer i => some (i % 0x80000000)
    | .malformed => none
  draw state :=
    let next := (1103515245 * state + 12345) % 0x80000000
    (Float.ofInt (next / 0x10000 % 17 - 8) * 2.5, next)

/-- A source that runs through a list of numbers again and again, whatever the seed. -/
def tape (numbers : Array Float) : NoiseSource Float where
  start? _ := some 0
  draw state := (numbers.getD (state % numbers.size).toNat 0, state + 1)

end NoiseSource

end TermEmbedding
