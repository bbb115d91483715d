import MarketEngine.Evaluation.Strategy
/-!
# Evaluation of a symbol

The matrix of a symbol with the strategies that read it. Updating the strategies evaluates all of
them on one snapshot, and writes their notes behind it.
-/

namespace MarketEngine

structure SymbolEvaluation (α : Type) where
  symbol : Symbol
  timeFrames : List TimeFrame
  strategies : List (Strategy α)
  matrix : Matrix α := {}
  /-- Whether the matrix and the strategies' verdicts are handed on. -/
  publishes : Bool := true

/-- The matrix of a symbol as it is handed on to the strategy layer. -/
structure MatrixUpdate (α : Type) where
  exchange : String
  symbol : Symbol
  matrix : MatrixSnapshot α
  deriving Repr

/-- The verdicts of the strategies of a symbol as they are handed on to the trading layer. -/
structure FinalizeRequest (α : Type) where
  exchange : String
  symbol : Symbol
  notes : List (String × α)
  deriving Repr

namespace SymbolEvaluation

variable {α : Type} [Amount α]

/-- The note of a strategy, pending if the strategy fails. -/
def noteOf (s : MatrixSnapshot α) (strategy : Strategy α) : Note α :=
  (strategy.evaluate s).getD .pending

/-- Writes the note of a strategy and its type. -/
def writeStrategy (m : Matrix α) (strategy : Strategy α) (note : Note α) : Matrix α :=
  (m.setNote .strategies strategy.name note none).setType strategy.name strategy.type

/-- Evaluates every strategy on the matrix as it is, and writes their notes. -/
def updateStrategies (s : SymbolEvaluation α) : SymbolEvaluation α :=
  let snapshot := s.matrix.snapshot
  { s with
    matrix := s.strategies.foldl
      (fun m strategy => writeStrategy m strategy (noteOf snapshot strategy))
      s.matrix }

omit [Amount α] in
def matrixUpdate (s : SymbolEvaluation α) (exchange : String) : MatrixUpdate α :=
  ⟨exchange, s.symbol, s.matrix.snapshot⟩

/-- The strategies' notes that have a value. -/
def finalizeRequest (s : SymbolEvaluation α) (exchange : String) : FinalizeRequest α :=
  ⟨exchange, s.symbol, (s.matrix.validNotes .strategies).map fun (name, _, x) => (name, x)⟩

end SymbolEvaluation

end MarketEngine
