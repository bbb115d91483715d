import MarketEngine.Evaluation.SymbolEvaluation
import MarketEngine.Channel.Topic
import MarketEngine.Market.Quote
/-!
# What the channels carry
-/

namespace MarketEngine

/-- A message of one of the topics. -/
inductive Payload (α : Type) where
  | ticker (ticker : Ticker α)
  | book (book : BookDepth α)
  | trades (trades : List (Trade α))
  | balances (balances : List (AssetBalance α))
  | orders (orders : List (ExchangeOrder α))
  | candle (update : CandleUpdate α)
  | trigger (trigger : Trigger)
  | matrix (update : MatrixUpdate α)
  | finalize (request : FinalizeRequest α)
  deriving Repr

def Payload.topic {α : Type} : Payload α → Topic
  | .ticker _ => .ticker
  | .book _ => .orderBook
  | .trades _ => .recentTrade
  | .balances _ => .balance
  | .orders _ => .orders
  | .candle _ => .candles
  | .trigger _ => .evaluation
  | .matrix _ => .strategy
  | .finalize _ => .tradingMode

end MarketEngine
