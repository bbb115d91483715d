import MarketEngine.Codec.Display
import MarketEngine.Engine.Basic
/-!
# An engine on display

The parts of a running engine as somebody sees them who looks at it.
-/

namespace MarketEngine

open Json

variable {σ α : Type} [Written α]

/-- The state of a symbol: the newest candles of one time frame and the newest trades. -/
def Board.display [Amount α] (b : Board α) (symbol : Symbol) (t : TimeFrame) (limit : Option Nat)
    (tradeLimit : Nat) : Json :=
  Json.record [("symbol", ofString symbol), ("time_frames", array (b.timeFrames.map (·.toJson))),
    ("initialized", bool (b.hasCandles t)), ("count", ofNat (b.candleCount t)),
    ("last", ofOption Candle.display (b.lastCandle? t)), ("valid", bool true),
    ("snapshot", ofOption CandleColumns.display (b.snapshot? t limit)),
    ("has_trades", bool !b.trades.isEmpty),
    ("trades", array ((b.recentTrades tradeLimit).map Trade.display)),
    ("ticker", ofOption Ticker.display b.ticker), ("book", ofOption BookDepth.display b.book),
    ("has_book", bool b.book.isSome)]

def Portfolio.display (p : Portfolio α) : Json :=
  Json.record (p.balances.map fun (c, x) => (c, displayAmount x))

/-- Every accepted order: its id, its status, and whether it is still stored. -/
def OrderStore.display (s : OrderStore α) : Json :=
  array (s.slots.map fun slot =>
    array [ofString slot.order.id, if slot.held then ofString "held" else slot.order.status.toJson,
      bool slot.stored])

/-- A trader's fills and cancellations, each order in its own form. -/
def Trader.display (t : Trader α) (showOrder : Order α → Json) : Json :=
  Json.record [("name", ofString t.name), ("fills", array (t.fills.map showOrder)),
    ("cancels", array (t.cancels.map showOrder))]

namespace Engine

/-- The state of a task and the number of its cycles. -/
def displayTask (t : EvaluationTask) : List Json :=
  [ofString (if t.started then "Active" else "Uninitialized"), ofNat t.cycles]

/-- A task with its symbol and time frame. -/
def displayTaskOf (e : Engine σ α) (t : EvaluationTask) : Json :=
  array ([ofString ((e.ownerOf? t).elim "" (·.symbol)), t.timeFrame.toJson] ++ displayTask t)

/-- The matrices by symbol. -/
def displayMatrices (e : Engine σ α) : Json :=
  let matrices : Table Symbol (Matrix α) :=
    Table.ofList (e.evaluations.map fun s => (s.symbol, s.matrix))
  Json.record (matrices.map fun (symbol, m) => (symbol, m.snapshot.display))

/-- What was heard, by topic, but for some topics. -/
def displayHeard (e : Engine σ α) (without : List String) : List (String × Json) :=
  (Topic.all.filter (!without.contains ·.name)).filterMap fun topic =>
    let heard := e.heard.filter (·.topic == topic)
    if heard.isEmpty then none
    else some (topic.name, array (heard.map fun h =>
      array [ofString h.message.key.text, h.message.payload.display]))

end Engine

end MarketEngine
