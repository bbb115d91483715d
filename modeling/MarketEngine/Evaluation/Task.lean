import MarketEngine.Evaluation.Evaluator
import MarketEngine.Evaluation.SymbolEvaluation
/-!
# Evaluation tasks

A task evaluates one symbol in one time frame, cycle by cycle. Each cycle lets the task's evaluators
take their turns and writes their notes.
-/

namespace MarketEngine

structure EvaluationTask where
  /-- The number of the evaluation of its symbol. -/
  owner : Nat
  timeFrame : TimeFrame
  /-- The numbers of its evaluators. Tasks may share them. -/
  evaluators : List Nat
  /-- How many of the newest candles are evaluated, where not all are. -/
  candleLimit : Option Nat := none
  /-- Whether a trigger can make it read the candles anew. -/
  refreshes : Bool := true
  exports : Bool := false
  /-- Whether a trigger was ever accepted. -/
  started : Bool := false
  cycles : Nat := 0
  deriving Repr

namespace EvaluationTask

/-- Whether a trigger is accepted. Before all time frames of the symbol are initialized, a task
accepts a single trigger, which is no interruption. -/
def accepts (t : EvaluationTask) (allInitialized : Bool) (trigger : Trigger) : Bool :=
  allInitialized || (!trigger.interruption && !t.started)

variable {α : Type} [Amount α]

/-- The turn of one evaluator: its note is written, and in a task's first cycle the type of it. -/
def evaluatorTurn (t : EvaluationTask) (source : String) (candles : Option (CandleColumns α))
    (state : List (Evaluator α) × Matrix α) (i : Nat) : List (Evaluator α) × Matrix α :=
  match state.1[i]? with
  | none => state
  | some e =>
    let e := e.takeTurn source candles
    let m := state.2.record e t.timeFrame
    (state.1.set i e, if t.started then m else m.setType e.name e.type)

/-- The turns of all evaluators of the task. -/
def refreshMatrix (t : EvaluationTask) (source : String) (candles : Option (CandleColumns α))
    (evaluators : List (Evaluator α)) (m : Matrix α) : List (Evaluator α) × Matrix α :=
  t.evaluators.foldl (t.evaluatorTurn source candles) (evaluators, m)

end EvaluationTask

end MarketEngine
