import MarketEngine.Exchange.Basic
import MarketEngine.Market.Board
import MarketEngine.Evaluation.Note
import MarketEngine.Channel.Routing
/-!
# Candle feed

The feed reads the candles of its symbols and time frames from an exchange into the market and
counts, for every pair, how often they were read. A tick reads all pairs that are due: in a replay
of history every pair whose symbol has not ended, live only those that are not fresh. A symbol ends
when one of its pairs answers that its feed has ended.
-/

namespace MarketEngine

structure CandleFeed where
  symbols : List Symbol
  timeFrames : List TimeFrame
  /-- How many candles are asked for at once. -/
  limit : Nat
  /-- Whether recorded history is replayed. -/
  replays : Bool
  /-- How often each pair was refreshed. -/
  counts : Table (Symbol × TimeFrame) Nat := []
  /-- The pairs whose period has not passed since they were read. Nothing here lets a period pass,
  so the ticks of a live feed read each pair once. -/
  fresh : List (Symbol × TimeFrame) := []
  ended : List Symbol := []
  deriving Repr

namespace CandleFeed

/-- Counts a refresh of a pair. -/
def record (f : CandleFeed) (symbol : Symbol) (t : TimeFrame) : CandleFeed :=
  { f with counts := f.counts.modify (symbol, t) 0 (· + 1) }

def refreshedTimes (f : CandleFeed) (symbol : Symbol) (t : TimeFrame) : Nat :=
  (f.counts.get? (symbol, t)).getD 0

def allRefreshed (f : CandleFeed) (symbol : Symbol) (ts : List TimeFrame) : Bool :=
  ts.all fun t => f.refreshedTimes symbol t != 0

def isDue (f : CandleFeed) (pair : Symbol × TimeFrame) : Bool := f.replays || !f.fresh.contains pair

/-- The pairs that are due, symbol by symbol. -/
def duePairs (f : CandleFeed) : List (Symbol × TimeFrame) :=
  (f.symbols.filter (!f.ended.contains ·)).flatMap fun symbol =>
    (f.timeFrames.map (symbol, ·)).filter f.isDue

/-- Notes that a pair was read. -/
def noteRefresh (f : CandleFeed) (symbol : Symbol) (t : TimeFrame) : CandleFeed :=
  { f.record symbol t with fresh := (symbol, t) :: f.fresh }

def endSymbol (f : CandleFeed) (symbol : Symbol) : CandleFeed :=
  if f.ended.contains symbol then f else { f with ended := symbol :: f.ended }

/-- Whether the feeds of all symbols have ended. -/
def finished (f : CandleFeed) : Bool := f.symbols.all f.ended.contains

variable {σ α : Type} [Exchange σ α]

/-- Reads the candles of a pair into the market, and answers with the latest of them. -/
def refresh (f : CandleFeed) (m : Market α) (ex : σ) (symbol : Symbol) (t : TimeFrame) :
    Answer (Option (Candle α)) × (CandleFeed × Market α) × σ :=
  match Exchange.candles ex symbol t f.limit with
  | (.error e, ex) => (.error e, (f, m), ex)
  | (.ok batch, ex) =>
    (.ok batch.getLast?, (f.noteRefresh symbol t, m.updateCandles symbol t batch), ex)

/-- What a tick has done so far. -/
structure Tick (α : Type) where
  refreshed : Nat := 0
  /-- What is to be published, in order. -/
  updates : List (Message (CandleUpdate α)) := []
  ended : List Symbol := []

/-- The key of a pair's candles. -/
def key (pair : Symbol × TimeFrame) : RoutingKey := ⟨pair.1, some pair.2⟩

/-- Notes the answer for a pair. -/
def Tick.note (k : Tick α) (pair : Symbol × TimeFrame) : Answer (Option (Candle α)) → Tick α
  | .ok none => { k with refreshed := k.refreshed + 1 }
  | .ok (some candle) =>
    { k with
      refreshed := k.refreshed + 1
      updates := k.updates ++ [⟨key pair, ⟨pair.2, candle⟩⟩] }
  | .error (.feedEnded _) => { k with ended := k.ended ++ [pair.1] }
  | .error _ => k

/-- Reads pairs in turn. -/
def refreshPairs (f : CandleFeed) (m : Market α) (ex : σ) (k : Tick α) :
    List (Symbol × TimeFrame) → Tick α × (CandleFeed × Market α) × σ
  | [] => (k, (f, m), ex)
  | pair :: rest =>
    let (answer, (f, m), ex) := f.refresh m ex pair.1 pair.2
    refreshPairs f m ex (k.note pair answer) rest

/-- Reads all pairs that are due, and then ends the symbols whose feeds have ended. -/
def tick (f : CandleFeed) (m : Market α) (ex : σ) : Tick α × (CandleFeed × Market α) × σ :=
  let (k, (f, m), ex) := f.refreshPairs m ex {} f.duePairs
  (k, (k.ended.foldl endSymbol f, m), ex)

end CandleFeed

end MarketEngine
