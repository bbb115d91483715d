import MarketEngine.Evaluation.Export
import MarketEngine.Evaluation.Task
import MarketEngine.Feed.Candles
import MarketEngine.Feed.Poller
import MarketEngine.Trading.SuspendedPass
/-!
# The engine of an exchange

Everything of an exchange but its channels: what is known of its markets, the feeds, the trading
desk, and the evaluation of its symbols.
-/

namespace MarketEngine

/-- A message as a listener heard it. -/
structure Heard (α : Type) where
  topic : Topic
  message : Message (Payload α)

structure Engine (σ α : Type) where
  exchangeName : String
  /-- The exchange itself. -/
  exchange : σ
  market : Market α
  feed : CandleFeed
  pollers : List Poller := []
  desk : Desk α
  /-- Whether orders are matched after each tick of a replay. -/
  matchesReplays : Bool := true
  evaluators : List (Evaluator α) := []
  evaluations : List (SymbolEvaluation α) := []
  tasks : List EvaluationTask := []
  exporter : Exporter
  folder : Folder := {}
  /-- Whether the feeds were started, which happens once. -/
  started : Bool := false
  /-- What the listeners heard. -/
  heard : List (Heard α) := []

namespace Engine

variable {σ α : Type}

/-- The number of the evaluation of a symbol; of several, the latest. -/
def evaluationOf? (e : Engine σ α) (symbol : Symbol) : Option Nat :=
  latest? (·.symbol == symbol) e.evaluations

/-- The evaluation of a symbol. -/
def evaluation? (e : Engine σ α) (symbol : Symbol) : Option (SymbolEvaluation α) :=
  (e.evaluationOf? symbol).bind (e.evaluations[·]?)

def modifyEvaluation (e : Engine σ α) (i : Nat) (f : SymbolEvaluation α → SymbolEvaluation α) :
    Engine σ α :=
  { e with evaluations := e.evaluations.modify i f }

def modifyDesk (e : Engine σ α) (f : Desk α → Desk α) : Engine σ α := { e with desk := f e.desk }

def modifyTask (e : Engine σ α) (i : Nat) (f : EvaluationTask → EvaluationTask) : Engine σ α :=
  { e with tasks := e.tasks.modify i f }

/-- Whether the candles of every time frame of a symbol's evaluation were read. -/
def isInitialized (e : Engine σ α) (s : SymbolEvaluation α) : Bool :=
  e.feed.allRefreshed s.symbol s.timeFrames

/-- The evaluation that a task belongs to. -/
def ownerOf? (e : Engine σ α) (t : EvaluationTask) : Option (SymbolEvaluation α) :=
  e.evaluations[t.owner]?

/-- Adds an order of one of the configured symbols. -/
def placeOrder (e : Engine σ α) (o : Order α) : Except (EngineError α) (Engine σ α) := do
  if e.feed.symbols.contains o.symbol then
    let orders ← e.desk.orders.add o
    return e.modifyDesk ({ · with orders })
  else throw (.unknownSymbol o.symbol)

variable [Exchange σ α]

/-- Lets one of the traders read its orders and the balances anew. -/
def refreshTrader (e : Engine σ α) (trader : Nat) : Engine σ α × Option RefreshFailure :=
  match e.desk.traders[trader]? with
  | none => (e, none)
  | some t =>
    let ((t, portfolio, failure), exchange) := t.forceRefresh e.desk.portfolio e.exchange
    ({ e with
        exchange
        desk.portfolio := portfolio
        desk.traders := e.desk.traders.set trader t }, failure)

/-- Reads the candles of a pair. -/
def refreshCandles (e : Engine σ α) (symbol : Symbol) (t : TimeFrame) :
    Engine σ α × Answer (Option (Candle α)) :=
  let (answer, (feed, market), exchange) := e.feed.refresh e.market e.exchange symbol t
  ({ e with feed, market, exchange }, answer)

/-- Matches the orders of a symbol. -/
def matchSymbol [Amount α] (e : Engine σ α) (symbol : Symbol) (replayed : Bool) :
    Engine σ α × MatchReport :=
  let ((desk, report), exchange) := e.desk.matchSymbol e.market e.exchange symbol replayed
  ({ e with desk, exchange }, report)

/-- Matches the orders of every symbol. -/
def matchAll [Amount α] (e : Engine σ α) (replayed : Bool) : Engine σ α × List MatchReport :=
  let ((desk, reports), exchange) := e.desk.matchAll e.market e.exchange replayed
  ({ e with desk, exchange }, reports)

/-- Goes on with a matching pass. Also says what is left of it. -/
def resumePass [Amount α] (e : Engine σ α) (w : SuspendedPass α) :
    Engine σ α × Option (SuspendedPass α) :=
  let ((desk, left), exchange) := w.resume e.desk e.exchange
  ({ e with desk, exchange }, left)

end Engine

end MarketEngine
