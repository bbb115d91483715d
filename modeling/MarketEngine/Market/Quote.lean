import MarketEngine.Market.TimeFrame
import MarketEngine.Market.Symbol
/-!
# What an exchange reports

Candles, trades, tickers, order books, balances and open orders, as they are polled.
-/

namespace MarketEngine

/-- The prices of one period; `time` is when it opened. -/
structure Candle (α : Type) where
  time : Int
  opening : α
  high : α
  low : α
  close : α
  volume : α
  deriving Repr

/-- One trade on the exchange. -/
structure Trade (α : Type) where
  price : α
  quantity : α
  timestamp : Int
  deriving Repr

structure Ticker (α : Type) where
  symbol : Symbol
  bid : α
  ask : α
  last : α
  timestamp : Int
  deriving Repr

/-- The levels of an order book, each a price and a quantity. -/
structure BookDepth (α : Type) where
  bids : List (α × α)
  asks : List (α × α)
  timestamp : Int
  deriving Repr

structure AssetBalance (α : Type) where
  asset : Currency
  free : α
  locked : α
  deriving Repr

inductive Side where
  | buy
  | sell
  deriving Repr, DecidableEq

def Side.label : Side → String
  | .buy => "BUY"
  | .sell => "SELL"

/-- An order that the exchange reports as open. -/
structure ExchangeOrder (α : Type) where
  id : String
  symbol : Symbol
  side : Side
  price : α
  quantity : α
  filled : α
  timestamp : Int
  deriving Repr

end MarketEngine
