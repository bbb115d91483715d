import MarketEngine.Error
import MarketEngine.Market.Quote
/-!
# Exchanges

What the engine asks of an exchange. Every query may change the exchange's own state, as a replayed
feed moves on, and may fail.
-/

namespace MarketEngine

/-- The answer to a query. -/
abbrev Answer (β : Type) := Except ExchangeError β

/-- The queries of an exchange with states `σ`. -/
class Exchange (σ : Type) (α : outParam Type) where
  /-- The newest candles of a market, at most so many, the oldest first. -/
  candles : σ → Symbol → TimeFrame → Nat → Answer (List (Candle α)) × σ
  /-- The newest trades of a market, at most so many, the oldest first. -/
  trades : σ → Symbol → Nat → Answer (List (Trade α)) × σ
  ticker : σ → Symbol → Answer (Ticker α) × σ
  book : σ → Symbol → Answer (BookDepth α) × σ
  balances : σ → Answer (List (AssetBalance α)) × σ
  openOrders : σ → Symbol → Answer (List (ExchangeOrder α)) × σ

end MarketEngine
