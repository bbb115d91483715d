import MarketEngine.Market.CandleSeries
import MarketEngine.Table
/-!
# What is known of each market

A `Board` is the latest state of one symbol: its candle series by time frame, its recent trades,
its ticker and its order book. The `Market` of an exchange holds a board for every symbol that was
ever written to.
-/

namespace MarketEngine

/-- The state of one symbol. -/
structure Board (α : Type) where
  series : Table TimeFrame (CandleSeries α) := []
  trades : List (Trade α) := []
  ticker : Option (Ticker α) := none
  book : Option (BookDepth α) := none
  deriving Repr

namespace Board

variable {α : Type}

/-- Takes in a batch of candles, the oldest first. The first batch of a time frame that is not
empty starts its series. -/
def updateCandles (b : Board α) (mostCandles : Nat) (t : TimeFrame) (batch : List (Candle α)) :
    Board α :=
  if batch.isEmpty then b
  else { b with series := b.series.modify t (CandleSeries.empty mostCandles) (·.extend batch) }

/-- Replaces the recent trades by the newest of `trades`: at most `mostTrades`, and one if that is
zero. -/
def updateTrades (b : Board α) (mostTrades : Nat) (trades : List (Trade α)) : Board α :=
  { b with trades := trades.drop (trades.length - max mostTrades 1) }

def candleCount (b : Board α) (t : TimeFrame) : Nat := ((b.series.get? t).map (·.size)).getD 0

/-- Whether a time frame has a candle. -/
def hasCandles (b : Board α) (t : TimeFrame) : Bool := b.candleCount t != 0

def lastCandle? (b : Board α) (t : TimeFrame) : Option (Candle α) :=
  (b.series.get? t).bind (·.last?)

def snapshot? [Amount α] (b : Board α) (t : TimeFrame) (limit : Option Nat) :
    Option (CandleColumns α) :=
  (b.series.get? t).map (·.snapshot limit)

/-- The time frames that have a series, the shortest first. -/
def timeFrames (b : Board α) : List TimeFrame :=
  TimeFrame.all.filter fun t => (b.series.get? t).isSome

/-- The newest `limit` trades, the oldest first. -/
def recentTrades (b : Board α) (limit : Nat) : List (Trade α) :=
  b.trades.drop (b.trades.length - limit)

end Board

/-- The boards of an exchange. -/
structure Market (α : Type) where
  mostCandles : Nat
  mostTrades : Nat
  boards : Table Symbol (Board α) := []
  deriving Repr

namespace Market

variable {α : Type}

def board? (m : Market α) (s : Symbol) : Option (Board α) := m.boards.get? s

/-- Writes to the board of a symbol, which is empty before the first write. -/
def write (m : Market α) (s : Symbol) (f : Board α → Board α) : Market α :=
  { m with boards := m.boards.modify s {} f }

/-- Makes sure that a symbol has a board. -/
def ensure (m : Market α) (s : Symbol) : Market α := m.write s id

def updateCandles (m : Market α) (s : Symbol) (t : TimeFrame) (batch : List (Candle α)) :
    Market α :=
  m.write s (·.updateCandles m.mostCandles t batch)

def updateTrades (m : Market α) (s : Symbol) (trades : List (Trade α)) : Market α :=
  m.write s (·.updateTrades m.mostTrades trades)

def updateTicker (m : Market α) (s : Symbol) (ticker : Ticker α) : Market α :=
  m.write s ({ · with ticker := some ticker })

def updateBook (m : Market α) (s : Symbol) (book : BookDepth α) : Market α :=
  m.write s ({ · with book := some book })

/-- The symbols that have a board, in the order of their characters. -/
def symbols (m : Market α) : List Symbol := m.boards.keys.mergeSort (· ≤ ·)

/-- The newest `limit` trades of a symbol, the oldest first. -/
def recentTrades (m : Market α) (s : Symbol) (limit : Nat) : List (Trade α) :=
  ((m.board? s).map (·.recentTrades limit)).getD []

end Market

end MarketEngine
