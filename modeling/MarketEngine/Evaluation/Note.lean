import MarketEngine.Amount
import MarketEngine.Market.Quote
/-!
# Notes

A note is an evaluator's verdict on a market, or the absence of one. Evaluators come in four kinds,
and an evaluation is asked for by a trigger.
-/

namespace MarketEngine

inductive EvaluatorKind where
  | technical
  | social
  | realTime
  | strategies
  deriving Repr, DecidableEq

namespace EvaluatorKind

/-- Every kind, in the order of a matrix. -/
def all : List EvaluatorKind := [technical, social, realTime, strategies]

def label : EvaluatorKind → String
  | technical => "TA"
  | social => "SOCIAL"
  | realTime => "REAL_TIME"
  | strategies => "STRATEGIES"

end EvaluatorKind

inductive Note (α : Type) where
  | value (x : α)
  | pending
  deriving Repr

namespace Note

variable {α : Type}

def ofOption : Option α → Note α
  | some x => value x
  | none => pending

/-- The value of a note; what is no number is no value. -/
def value? [Amount α] : Note α → Option α
  | value x => if Amount.isUndefined x then none else some x
  | pending => none

/-- The note as a matrix holds it: what is no number is pending. -/
def checked [Amount α] (n : Note α) : Note α := ofOption n.value?

end Note

/-- A request to evaluate a market in one time frame. -/
structure Trigger where
  /-- The evaluator or feed that asks; an evaluator of this name is not evaluated again. -/
  source : String
  /-- Whether the candles are to be read anew first. -/
  forceRefresh : Bool := false
  /-- Whether the strategies' verdicts are to be handed on. -/
  finalize : Bool := false
  /-- Whether a real-time evaluator asks, out of turn. -/
  interruption : Bool := false
  deriving Repr, DecidableEq

/-- The latest candle of a series after a refresh. -/
structure CandleUpdate (α : Type) where
  timeFrame : TimeFrame
  candle : Candle α
  deriving Repr

end MarketEngine
