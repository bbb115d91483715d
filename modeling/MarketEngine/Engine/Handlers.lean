import MarketEngine.Engine.Cycle
/-!
# What the consumers of an engine do

Reports of trades are matched against the orders, polled orders and balances are taken over by the
traders, triggers run evaluation cycles, and refreshed candles trigger the task of their pair.
Listeners note down what they hear.

A consumer only ever waits for channels further down: candles lead to triggers, triggers to the
strategy and the trading channel, and nothing leads on from there.
-/

namespace MarketEngine

/-- What a consumer is for. -/
inductive Role where
  | listener
  | matcher
  /-- Takes over the open orders for a trader. -/
  | openOrders (trader : Nat)
  /-- Takes over the balances. -/
  | balances
  /-- Runs the cycles of a task. -/
  | cycles (task : Nat)
  /-- Triggers a task when its candles were refreshed. -/
  | refreshes (task : Nat)
  deriving Repr, DecidableEq

namespace Engine

variable {σ α : Type}

/-- The source of the triggers that refreshed candles lead to. -/
def refreshSource : String := "OHLCVUpdater"

/-- The message that triggers the evaluation of a pair. -/
def triggerMessage (symbol : Symbol) (t : TimeFrame) (trigger : Trigger) : Message (Payload α) :=
  ⟨⟨symbol, some t⟩, .trigger trigger⟩

/-- Triggers a task after its candles were refreshed. -/
def triggerTask (e : Engine σ α) (i : Nat) : Outcome σ α :=
  let message : Option (Message (Payload α)) := do
    let t ← e.tasks[i]?
    let s ← e.ownerOf? t
    return triggerMessage s.symbol t.timeFrame { source := refreshSource, finalize := true }
  match message with
  | some message => (.send .evaluation message .nothing, e)
  | none => (.done, e)

/-- What a consumer does with a message. -/
def startMessage [Amount α] [Written α] [Exchange σ α] (role : Role) (m : Message (Payload α))
    (e : Engine σ α) : Outcome σ α :=
  match role, m.payload with
  | .listener, payload => (.done, { e with heard := e.heard ++ [⟨payload.topic, m⟩] })
  | .matcher, _ =>
    match SuspendedPass.start? e.desk e.market m.key.symbol false with
    | none => (.done, e)
    | some pass => e.goOnMatching pass
  | .openOrders i, .orders orders =>
    (.done, { e with
      desk.traders := e.desk.traders.modify i (·.replaceKnown m.key.symbol orders) })
  | .balances, .balances reported =>
    (.done, { e with desk.portfolio := e.desk.portfolio.sync reported })
  | .cycles i, .trigger trigger => e.beginCycle i trigger
  | .refreshes i, _ => e.triggerTask i
  | _, _ => (.done, e)

/-- The steps that a message may lead to for a consumer that waits for nobody. -/
def plainCost : Nat := 4

/-- The steps that a send to so many consumers may lead to, where each message may lead to `cost`
steps. -/
def sendCost (consumers cost : Nat) : Nat := consumers * (cost + 2) + 4

/-- The steps that a trigger may lead to. -/
def triggerCost (population : Topic → Nat) : Nat :=
  plainCost + sendCost (population .strategy) plainCost
    + sendCost (population .tradingMode) plainCost

/-- The steps that a message of a topic may lead to. -/
def messageCost (population : Topic → Nat) : Topic → Nat
  | .evaluation => triggerCost population
  | .candles => plainCost + sendCost (population .evaluation) (triggerCost population)
  | _ => plainCost

/-- The steps that the rest of a message may lead to. -/
def stageCost (population : Topic → Nat) : Stage α → Nat
  | .verdicts .. => 2 + sendCost (population .tradingMode) plainCost
  | _ => 2

/-- What the consumers do. -/
def handlers [Amount α] [Written α] [Exchange σ α] :
    Handlers Role (Payload α) (Engine σ α) (Stage α) where
  start := startMessage
  resume := resumeStage
  cost := messageCost
  restCost := stageCost

end Engine

end MarketEngine
