/-!
# Topics

What the channels of an exchange are about. An exchange has one channel for each topic.
-/

namespace MarketEngine

inductive Topic where
  | ticker
  | orderBook
  | recentTrade
  | balance
  | orders
  | candles
  | evaluation
  | strategy
  | tradingMode
  deriving Repr, DecidableEq

namespace Topic

def all : List Topic :=
  [ticker, orderBook, recentTrade, balance, orders, candles, evaluation, strategy, tradingMode]

def name : Topic → String
  | ticker => "Ticker"
  | orderBook => "OrderBook"
  | recentTrade => "RecentTrade"
  | balance => "Balance"
  | orders => "Orders"
  | candles => "OHLCV"
  | evaluation => "Evaluation"
  | strategy => "Strategy"
  | tradingMode => "TradingMode"

def ofName? (s : String) : Option Topic := all.find? (·.name == s)

end Topic

end MarketEngine
