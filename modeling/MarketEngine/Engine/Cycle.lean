import MarketEngine.Channel.Network
import MarketEngine.Engine.Basic
/-!
# Evaluation cycles

An accepted trigger runs one cycle of a task: it reads the candles anew if it is asked to, lets the
evaluators write their notes, updates the strategies and hands the matrix on; then, if it is asked
to and every time frame is initialized, it hands the strategies' verdicts on; and at last it counts
itself and, for a task that exports, exports the matrix once every time frame is initialized.

The cycle is cut where it has to wait until something is handed on, and a matching pass where it has
to wait for a held order.
-/

namespace MarketEngine

/-- What is left to do of a message. -/
inductive Stage (α : Type) where
  /-- Hand on the verdicts, and conclude the cycle. -/
  | verdicts (task : Nat) (trigger : Trigger)
  | conclusion (task : Nat)
  /-- Go on with a matching pass. -/
  | matching (pass : SuspendedPass α)
  | nothing
  deriving Repr

namespace Engine

variable {σ α : Type}

/-- How a stage of a cycle ends. -/
abbrev Outcome (σ α : Type) := Next (Payload α) (Stage α) × Engine σ α

variable [Amount α]

/-- Exports the matrix of a task's symbol. -/
def exportTask [Written α] (e : Engine σ α) (s : SymbolEvaluation α) :
    Except String (Engine σ α) :=
  match e.exporter.save e.folder s.symbol s.matrix.snapshot with
  | .ok (exporter, folder) => .ok { e with exporter, folder }
  | .error _ => .error ("failed to export evaluations of " ++ s.symbol)

/-- Counts the cycle, and exports. -/
def conclude [Written α] (e : Engine σ α) (i : Nat) : Outcome σ α :=
  let e := e.modifyTask i fun t => { t with cycles := t.cycles + 1 }
  match e.tasks[i]? with
  | none => (.done, e)
  | some t =>
    match e.ownerOf? t with
    | none => (.done, e)
    | some s =>
      if t.exports && e.isInitialized s then
        match e.exportTask s with
        | .ok e => (.done, e)
        | .error failure => (.done (some failure), e)
      else (.done, e)

/-- The message with the verdicts of a symbol's strategies, if there is one. -/
def verdictsOf? (e : Engine σ α) (s : SymbolEvaluation α) : Option (Message (Payload α)) :=
  if s.publishes && e.isInitialized s then
    some ⟨{ symbol := s.symbol }, .finalize (s.finalizeRequest e.exchangeName)⟩
  else none

/-- Hands on the verdicts of the strategies. -/
def handOnVerdicts [Written α] (e : Engine σ α) (i : Nat) (trigger : Trigger) : Outcome σ α :=
  let message := do
    let s ← e.ownerOf? (← e.tasks[i]?)
    if trigger.finalize then e.verdictsOf? s else none
  match message with
  | some message => (.send .tradingMode message (.conclusion i), e)
  | none => e.conclude i

/-- The message with a symbol's matrix. -/
def matrixMessage (e : Engine σ α) (s : SymbolEvaluation α) : Message (Payload α) :=
  ⟨{ symbol := s.symbol }, .matrix (s.matrixUpdate e.exchangeName)⟩

/-- Lets the evaluators of a task write their notes, and updates the strategies.

Candles are taken as fresh here. A clock that finds the latest candle too old for its time frame
would have the cycle go on as if there were no candles. -/
def evaluateTask (e : Engine σ α) (t : EvaluationTask) (s : SymbolEvaluation α)
    (source : String) : Engine σ α :=
  let candles := (e.market.board? s.symbol).bind (·.snapshot? t.timeFrame t.candleLimit)
  let (evaluators, matrix) := t.refreshMatrix source candles e.evaluators s.matrix
  { e.modifyEvaluation t.owner fun s => { s with matrix }.updateStrategies with evaluators }

/-- Begins the cycle of a task, if its trigger is accepted. -/
def beginCycle [Exchange σ α] [Written α] (e : Engine σ α) (i : Nat) (trigger : Trigger) :
    Outcome σ α :=
  match e.tasks[i]? with
  | none => (.done, e)
  | some t =>
    match e.ownerOf? t with
    | none => (.done, e)
    | some s =>
      if t.accepts (e.isInitialized s) trigger then
        let e := if trigger.forceRefresh && t.refreshes then
            (e.refreshCandles s.symbol t.timeFrame).1 else e
        let e := (e.evaluateTask t s trigger.source).modifyTask i ({ · with started := true })
        match e.ownerOf? t with
        | none => (.done, e)
        | some s =>
          if s.publishes then (.send .strategy (e.matrixMessage s) (.verdicts i trigger), e)
          else e.handOnVerdicts i trigger
      else (.done, e)

/-- Goes on with a matching pass, and waits where an order is held. -/
def goOnMatching [Exchange σ α] (e : Engine σ α) (w : SuspendedPass α) : Outcome σ α :=
  match e.resumePass w with
  | (e, none) => (.done, e)
  | (e, some w) => (.wait (.matching w), e)

/-- Goes on with a message. -/
def resumeStage [Exchange σ α] [Written α] (stage : Stage α) (e : Engine σ α) : Outcome σ α :=
  match stage with
  | .verdicts i trigger => e.handOnVerdicts i trigger
  | .conclusion i => e.conclude i
  | .matching w => e.goOnMatching w
  | .nothing => (.done, e)

end Engine

end MarketEngine
