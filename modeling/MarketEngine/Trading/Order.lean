import MarketEngine.Amount
import MarketEngine.Market.Quote
/-!
# Simulated orders

An order waits for the trades of its market to reach its price, and is then filled whole.
`Order.decision` is the price at which a window of trades fills it, if the window does. An order is
open until it is filled or canceled, and neither of these is ever left.
-/

namespace MarketEngine

inductive OrderKind where
  | buyMarket
  | buyLimit
  | sellMarket
  | sellLimit
  | stopLoss
  | stopLossLimit
  | takeProfit
  | takeProfitLimit
  deriving Repr, DecidableEq

namespace OrderKind

def side : OrderKind → Side
  | buyMarket => .buy
  | buyLimit => .buy
  | sellMarket => .sell
  | sellLimit => .sell
  | stopLoss => .sell
  | stopLossLimit => .sell
  | takeProfit => .sell
  | takeProfitLimit => .sell

/-- Market and stop-loss orders take liquidity, and pay the taker's rate. -/
def isTaker : OrderKind → Bool
  | buyMarket => true
  | sellMarket => true
  | stopLoss => true
  | stopLossLimit => true
  | _ => false

def label : OrderKind → String
  | buyMarket => "BUY_MARKET"
  | buyLimit => "BUY_LIMIT"
  | sellMarket => "SELL_MARKET"
  | sellLimit => "SELL_LIMIT"
  | stopLoss => "STOP_LOSS"
  | stopLossLimit => "STOP_LOSS_LIMIT"
  | takeProfit => "TAKE_PROFIT"
  | takeProfitLimit => "TAKE_PROFIT_LIMIT"

end OrderKind

inductive OrderStatus where
  | opened
  | filled
  | canceled
  deriving Repr, DecidableEq

/-- What a fill cost its owner besides the price. -/
structure Fee (α : Type) where
  cost : α
  currency : Currency
  deriving Repr

/-- The share of a fill's value that is charged as its fee. -/
structure FeeSchedule (α : Type) where
  maker : α
  taker : α
  deriving Repr

def FeeSchedule.rate {α : Type} (f : FeeSchedule α) (kind : OrderKind) : α :=
  if kind.isTaker then f.taker else f.maker

structure Order (α : Type) where
  id : String
  /-- The counterpart on the exchange, for an order that has one. -/
  exchangeId : Option String
  /-- The orders that are canceled when this one fills. -/
  linked : List String
  symbol : Symbol
  kind : OrderKind
  price : α
  stop : Option α
  quantity : α
  status : OrderStatus
  filledPrice : Option α
  filledQuantity : α
  fee : Option (Fee α)
  /-- Trades from before this time do not fill the order. -/
  created : Int
  trader : String
  deriving Repr

namespace Order

variable {α : Type}

/-- An open order with nothing filled. -/
def new [Amount α] (id : String) (symbol : Symbol) (kind : OrderKind) (price quantity : α)
    (trader : String) (created : Int) : Order α where
  id
  exchangeId := none
  linked := []
  symbol
  kind
  price
  stop := none
  quantity
  status := .opened
  filledPrice := none
  filledQuantity := Amount.zero
  fee := none
  created
  trader

def side (o : Order α) : Side := o.kind.side

def isOpen (o : Order α) : Bool := o.status == .opened

/-- Links another order to this one. An order is not linked to itself, nor twice to another. -/
def link (o : Order α) (id : String) : Order α :=
  if id == o.id || o.linked.contains id then o else { o with linked := o.linked ++ [id] }

variable [Amount α]

/-- The price that a window of prices, the oldest first, fills the order at. A market order takes
the latest price. A limit order is filled at its own price once a price has reached its level; a
stop order with a limit waits for its stop price instead, if it has one. -/
def trigger (o : Order α) (prices : List α) : Option α :=
  let stop := o.stop.getD o.price
  let whenAny (p : α → Bool) : Option α := if prices.any p then some o.price else none
  match o.kind with
  | .buyMarket => prices.getLast?
  | .sellMarket => prices.getLast?
  | .buyLimit => whenAny fun p => p ≤ o.price
  | .sellLimit => whenAny fun p => o.price ≤ p
  | .stopLoss => whenAny fun p => p ≤ o.price
  | .stopLossLimit => whenAny fun p => p ≤ stop
  | .takeProfit => whenAny fun p => o.price ≤ p
  | .takeProfitLimit => whenAny fun p => stop ≤ p

/-- Whether a trade counts for the order: its price is a number, and it is not from before the
order was created. In a replay of history, where `replayed` holds, trades of all times count. -/
def counts (o : Order α) (replayed : Bool) (t : Trade α) : Bool :=
  !Amount.isUndefined t.price && (replayed || o.created ≤ t.timestamp)

/-- The price at which a window of trades, the oldest first, fills the order. -/
def decision (o : Order α) (replayed : Bool) (window : List (Trade α)) : Option α :=
  o.trigger ((window.filter (o.counts replayed)).map (·.price))

omit [Amount α] in
/-- Fills the order; an order that is not open stays as it is. Also says whether it was filled. -/
def fill (o : Order α) (price : α) (fee : Fee α) : Order α × Bool :=
  if o.isOpen then
    ({ o with
        status := .filled, filledPrice := some price, filledQuantity := o.quantity
        fee := some fee }, true)
  else (o, false)

omit [Amount α] in
/-- Cancels the order; an order that is not open stays as it is. Also says whether it was
canceled. -/
def cancel (o : Order α) : Order α × Bool :=
  if o.isOpen then ({ o with status := .canceled }, true) else (o, false)

/-- The fee of filling the order at a price, in the quote currency of its symbol. -/
def feeAt (o : Order α) (fees : FeeSchedule α) (price : α) : Fee α :=
  ⟨o.quantity * price * fees.rate o.kind, o.symbol.quote⟩

end Order

end MarketEngine
