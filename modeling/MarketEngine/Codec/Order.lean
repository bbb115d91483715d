import MarketEngine.Json.Record
import MarketEngine.Trading.Order
/-!
# Orders as JSON
-/

namespace MarketEngine

open Json

variable {α : Type} [JsonAmount α]

namespace OrderKind

def name : OrderKind → String
  | buyMarket => "BuyMarket"
  | buyLimit => "BuyLimit"
  | sellMarket => "SellMarket"
  | sellLimit => "SellLimit"
  | stopLoss => "StopLoss"
  | stopLossLimit => "StopLossLimit"
  | takeProfit => "TakeProfit"
  | takeProfitLimit => "TakeProfitLimit"

def all : List OrderKind :=
  [buyMarket, buyLimit, sellMarket, sellLimit, stopLoss, stopLossLimit, takeProfit,
    takeProfitLimit]

def ofName? (s : String) : Option OrderKind := all.find? (·.name == s)

def toJson (k : OrderKind) : Json := ofString k.name

def ofJson? : Json → Option OrderKind := choice? name all

end OrderKind

namespace OrderStatus

def name : OrderStatus → String
  | opened => "Open"
  | filled => "Filled"
  | canceled => "Canceled"

def toJson (s : OrderStatus) : Json := ofString s.name

def ofJson? : Json → Option OrderStatus := choice? name [opened, filled, canceled]

end OrderStatus

namespace Fee

def toJson (f : Fee α) : Json :=
  Json.record [("cost", ofAmount f.cost), ("currency", ofString f.currency)]

def ofJson? (j : Json) : Option (Fee α) := do
  let r ← record? ["cost", "currency"] j
  return { cost := ← r.required "cost" amount?, currency := ← r.required "currency" string? }

end Fee

namespace Order

/-- The names of the fields, in declared order. -/
def fieldNames : List String :=
  ["id", "linked_exchange_order_id", "linked_order_ids", "symbol", "kind", "origin_price",
    "stop_price", "quantity", "status", "filled_price", "filled_quantity", "fee", "creation_time",
    "trader"]

def toJson (o : Order α) : Json :=
  Json.record [("id", ofString o.id),
    ("linked_exchange_order_id", ofOption ofString o.exchangeId),
    ("linked_order_ids", array (o.linked.map ofString)),
    ("symbol", ofString o.symbol),
    ("kind", o.kind.toJson),
    ("origin_price", ofAmount o.price),
    ("stop_price", ofOption ofAmount o.stop),
    ("quantity", ofAmount o.quantity),
    ("status", o.status.toJson),
    ("filled_price", ofOption ofAmount o.filledPrice),
    ("filled_quantity", ofAmount o.filledQuantity),
    ("fee", ofOption Fee.toJson o.fee),
    ("creation_time", ofInt o.created),
    ("trader", ofString o.trader)]

/-- An order that lists no linked orders has none. -/
def ofJson? (j : Json) : Option (Order α) := do
  let r ← record? fieldNames j
  return {
    id := ← r.required "id" string?
    exchangeId := ← r.optional "linked_exchange_order_id" string?
    linked := ← r.withDefault "linked_order_ids" [] (listOf? string?)
    symbol := ← r.required "symbol" string?
    kind := ← r.required "kind" OrderKind.ofJson?
    price := ← r.required "origin_price" amount?
    stop := ← r.optional "stop_price" amount?
    quantity := ← r.required "quantity" amount?
    status := ← r.required "status" OrderStatus.ofJson?
    filledPrice := ← r.optional "filled_price" amount?
    filledQuantity := ← r.required "filled_quantity" amount?
    fee := ← r.optional "fee" Fee.ofJson?
    created := ← r.required "creation_time" int64?
    trader := ← r.required "trader" string? }

end Order

end MarketEngine
