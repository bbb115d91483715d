import MarketEngine.Evaluation.Matrix
/-!
# Strategies

A strategy turns the notes of a matrix into one note. `WeightedMean` takes the mean of all notes but
the strategies' own, each with the weight of its evaluator.
-/

namespace MarketEngine

/-- Weights by evaluator; an evaluator without one has the weight one. -/
structure WeightedMean (α : Type) where
  weights : Table String α := []
  deriving Repr

namespace WeightedMean

variable {α : Type} [Amount α]

def weight (w : WeightedMean α) (name : String) : α := (w.weights.get? name).getD Amount.one

/-- The names and values that the mean is taken of. -/
def inputs (s : MatrixSnapshot α) : List (String × α) :=
  s.filterMap fun e =>
    if e.kind == .strategies then none else e.note.value?.map fun x => (e.name, x)

/-- The sum of the weighted values and the sum of the weights. -/
def sums (w : WeightedMean α) (inputs : List (String × α)) : α × α :=
  inputs.foldl
    (fun (total, weights) (name, x) => (total + x * w.weight name, weights + w.weight name))
    (Amount.zero, Amount.zero)

/-- The weighted mean, pending while the weights add up to nothing. -/
def note (w : WeightedMean α) (s : MatrixSnapshot α) : Note α :=
  let (total, weights) := w.sums (inputs s)
  if weights ≤ Amount.zero then .pending else .value (total / weights)

end WeightedMean

/-- A strategy by name. It may fail, and then its note is pending. -/
structure Strategy (α : Type) where
  name : String
  type : String := "float"
  evaluate : MatrixSnapshot α → Option (Note α)

namespace Strategy

variable {α : Type}

def weightedMean [Amount α] (w : WeightedMean α) : Strategy α where
  name := "WeightedAverageStrategy"
  evaluate s := some (w.note s)

/-- A strategy with a fixed note, or one that always fails. -/
def constant (name type : String) (note : Note α) (fails : Bool) : Strategy α where
  name
  type
  evaluate _ := if fails then none else some note

end Strategy

end MarketEngine
