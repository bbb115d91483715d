import MarketEngine.Json.Record
import MarketEngine.Market.Quote
/-!
# Exchange reports as JSON

Each record is written as an object with its fields in their declared order.
-/

namespace MarketEngine

open Json

variable {α : Type} [JsonAmount α]

namespace TimeFrame

def toJson (t : TimeFrame) : Json := ofString t.name

def ofJson? : Json → Option TimeFrame := choice? name all

end TimeFrame

namespace Candle

def toJson (c : Candle α) : Json :=
  Json.record [("time", ofInt c.time), ("open", ofAmount c.opening), ("high", ofAmount c.high),
    ("low", ofAmount c.low), ("close", ofAmount c.close), ("volume", ofAmount c.volume)]

def ofJson? (j : Json) : Option (Candle α) := do
  let r ← record? ["time", "open", "high", "low", "close", "volume"] j
  return {
    time := ← r.required "time" int64?
    opening := ← r.required "open" amount?
    high := ← r.required "high" amount?
    low := ← r.required "low" amount?
    close := ← r.required "close" amount?
    volume := ← r.required "volume" amount? }

end Candle

namespace Trade

def toJson (t : Trade α) : Json :=
  Json.record [("price", ofAmount t.price), ("quantity", ofAmount t.quantity),
    ("timestamp", ofInt t.timestamp)]

def ofJson? (j : Json) : Option (Trade α) := do
  let r ← record? ["price", "quantity", "timestamp"] j
  return {
    price := ← r.required "price" amount?
    quantity := ← r.required "quantity" amount?
    timestamp := ← r.required "timestamp" int64? }

end Trade

namespace Ticker

def toJson (t : Ticker α) : Json :=
  Json.record [("symbol", ofString t.symbol), ("bid", ofAmount t.bid), ("ask", ofAmount t.ask),
    ("last", ofAmount t.last), ("timestamp", ofInt t.timestamp)]

def ofJson? (j : Json) : Option (Ticker α) := do
  let r ← record? ["symbol", "bid", "ask", "last", "timestamp"] j
  return {
    symbol := ← r.required "symbol" string?
    bid := ← r.required "bid" amount?
    ask := ← r.required "ask" amount?
    last := ← r.required "last" amount?
    timestamp := ← r.required "timestamp" int64? }

end Ticker

namespace BookDepth

/-- The levels of one side of a book, each an array of price and quantity. -/
def levelsToJson (levels : List (α × α)) : Json :=
  array (levels.map fun l => array [ofAmount l.1, ofAmount l.2])

def levels? : Json → Option (List (α × α)) := listOf? (pair? amount? amount?)

def toJson (b : BookDepth α) : Json :=
  Json.record [("bids", levelsToJson b.bids), ("asks", levelsToJson b.asks),
    ("timestamp", ofInt b.timestamp)]

def ofJson? (j : Json) : Option (BookDepth α) := do
  let r ← record? ["bids", "asks", "timestamp"] j
  return {
    bids := ← r.required "bids" levels?
    asks := ← r.required "asks" levels?
    timestamp := ← r.required "timestamp" int64? }

end BookDepth

namespace AssetBalance

def toJson (b : AssetBalance α) : Json :=
  Json.record [("asset", ofString b.asset), ("free", ofAmount b.free),
    ("locked", ofAmount b.locked)]

/-- Amounts that are not given are zero. -/
def ofJson? [Amount α] (j : Json) : Option (AssetBalance α) := do
  let r ← record? ["asset", "free", "locked"] j
  return {
    asset := ← r.required "asset" string?
    free := ← r.withDefault "free" Amount.zero amount?
    locked := ← r.withDefault "locked" Amount.zero amount? }

end AssetBalance

namespace Side

def name : Side → String
  | buy => "Buy"
  | sell => "Sell"

def toJson (s : Side) : Json := ofString s.name

def ofJson? : Json → Option Side := choice? name [buy, sell]

end Side

namespace ExchangeOrder

def toJson (o : ExchangeOrder α) : Json :=
  Json.record [("id", ofString o.id), ("symbol", ofString o.symbol), ("side", o.side.toJson),
    ("price", ofAmount o.price), ("quantity", ofAmount o.quantity),
    ("filled", ofAmount o.filled), ("timestamp", ofInt o.timestamp)]

def ofJson? (j : Json) : Option (ExchangeOrder α) := do
  let r ← record? ["id", "symbol", "side", "price", "quantity", "filled", "timestamp"] j
  return {
    id := ← r.required "id" string?
    symbol := ← r.required "symbol" string?
    side := ← r.required "side" Side.ofJson?
    price := ← r.required "price" amount?
    quantity := ← r.required "quantity" amount?
    filled := ← r.required "filled" amount?
    timestamp := ← r.required "timestamp" int64? }

end ExchangeOrder

end MarketEngine
