import MarketEngine.Market.Board
import MarketEngine.Trading.OrderStore
import MarketEngine.Trading.Trader
/-!
# Trading desk

The desk holds the simulated orders, the portfolio that their fills move money in, and the traders
that own them. A matching pass takes a window of trades of one symbol and goes through the symbol's
open orders in the order of addition: an order whose counterpart on the exchange has vanished is
missing; an order that the window fills is charged, filled and told to its trader, and the orders
linked to it are canceled; an order that cannot be paid for stays open. After the last order, each
trader that missed an order reads its orders and the balances from the exchange anew.
-/

namespace MarketEngine

/-- What a matching pass did: the ids of the orders it filled, canceled and missed. -/
structure MatchReport where
  filled : List String := []
  canceled : List String := []
  missing : List String := []
  deriving Repr, DecidableEq

structure Desk (α : Type) where
  orders : OrderStore α
  portfolio : Portfolio α
  fees : FeeSchedule α
  /-- How many of the newest trades of a symbol a matching pass looks at. -/
  windowSize : Nat
  traders : List (Trader α) := []
  deriving Repr

/-- A matching pass under way. -/
structure MatchingPass (α : Type) where
  desk : Desk α
  report : MatchReport := {}
  /-- The traders that missed an order, each once, in the order in which that was noticed. -/
  toRefresh : List String := []

namespace Desk

variable {α : Type}

/-- The trader of this name; of several, the one that came last. -/
def trader? (d : Desk α) (name : String) : Option (Trader α) :=
  (latest? (·.name == name) d.traders).bind (d.traders[·]?)

/-- Changes the trader of this name; of several, the one that came last. -/
def modifyTrader (d : Desk α) (name : String) (f : Trader α → Trader α) : Desk α :=
  match latest? (·.name == name) d.traders with
  | none => d
  | some i => { d with traders := d.traders.modify i f }

/-- Whether the order has a counterpart on the exchange that its trader does not know. -/
def isMissing (d : Desk α) (o : Order α) : Bool :=
  match o.exchangeId with
  | none => false
  | some id => !(d.trader? o.trader).any (·.knows id)

variable [Amount α]

/-- The order filled and the desk after charging it, if the window fills the order. An order that
cannot be paid for is refused. -/
def charge (d : Desk α) (handle : Nat) (o : Order α) (replayed : Bool) (window : List (Trade α)) :
    Except (EngineError α) (Option (Desk α × Order α)) :=
  match o.decision replayed window with
  | none => .ok none
  | some price =>
    let fee := o.feeAt d.fees price
    match d.portfolio.applyFill o.symbol o.side price o.quantity fee.cost with
    | .error e => .error e
    | .ok portfolio =>
      let fill (o : Order α) : Order α := (o.fill price fee).1
      .ok (some ({ d with portfolio, orders := d.orders.modify handle fill }, fill o))

end Desk

namespace MatchingPass

variable {α : Type}

/-- Cancels a linked order, if it is stored and open, and tells its trader. -/
def cancelLinked (p : MatchingPass α) (id : String) : MatchingPass α :=
  match p.desk.orders.handle? id with
  | none => p
  | some handle =>
    match p.desk.orders.at? handle with
    | none => p
    | some o =>
      if o.isOpen then
        let canceled := o.cancel.1
        let desk := { p.desk with orders := p.desk.orders.modify handle fun o => o.cancel.1 }
        { p with
          desk := desk.modifyTrader o.trader (·.noteCancel canceled)
          report := { p.report with canceled := p.report.canceled ++ [o.id] } }
      else p

/-- Notes that an order is missing. -/
def miss (p : MatchingPass α) (o : Order α) : MatchingPass α :=
  { p with
    report := { p.report with missing := p.report.missing ++ [o.id] }
    toRefresh :=
      if p.toRefresh.contains o.trader then p.toRefresh else p.toRefresh ++ [o.trader] }

/-- Notes that an order was filled, and tells its trader. -/
def noteFill (p : MatchingPass α) (desk : Desk α) (o : Order α) : MatchingPass α :=
  { p with
    desk := desk.modifyTrader o.trader (·.noteFill o)
    report := { p.report with filled := p.report.filled ++ [o.id] } }

/-- The turn of one order. Also says which linked orders are to be canceled then: those of an order
that was filled. -/
def turn [Amount α] (replayed : Bool) (window : List (Trade α)) (p : MatchingPass α)
    (handle : Nat) : MatchingPass α × List String :=
  match p.desk.orders.at? handle with
  | none => (p, [])
  | some o =>
    if !o.isOpen then (p, [])
    else if p.desk.isMissing o then (p.miss o, [])
    else match p.desk.charge handle o replayed window with
      | .error _ => (p, [])
      | .ok none => (p, [])
      | .ok (some (desk, filled)) => (p.noteFill desk filled, filled.linked)

/-- The turn of one order and of the orders linked to it. -/
def visit [Amount α] (replayed : Bool) (window : List (Trade α)) (p : MatchingPass α)
    (handle : Nat) : MatchingPass α :=
  let (p, linked) := p.turn replayed window handle
  linked.foldl cancelLinked p

end MatchingPass

namespace Desk

variable {α : Type}

/-- The newest trades of a symbol, which a matching pass looks at. Without trades, and for the
wildcard, there is nothing to match. -/
def window? (d : Desk α) (m : Market α) (symbol : Symbol) : Option (List (Trade α)) :=
  let window := m.recentTrades symbol d.windowSize
  if symbol == Symbol.wildcard || window.isEmpty then none else some window

/-- Goes through the open orders of a symbol. -/
def pass [Amount α] (d : Desk α) (symbol : Symbol) (replayed : Bool) (window : List (Trade α)) :
    MatchingPass α :=
  (d.orders.openOrders symbol).foldl (MatchingPass.visit replayed window) { desk := d }

variable {σ : Type} [Exchange σ α]

/-- Lets a trader read its orders and the balances anew. -/
def refreshTrader (d : Desk α) (ex : σ) (name : String) : (Desk α × Option RefreshFailure) × σ :=
  match d.trader? name with
  | none => ((d, none), ex)
  | some t =>
    let ((t, portfolio, failure), ex) := t.forceRefresh d.portfolio ex
    (({ d.modifyTrader name fun _ => t with portfolio }, failure), ex)

/-- Lets traders read their orders and the balances anew, in turn; a refresh that fails does not
keep the next trader from its own. -/
def refreshTraders (d : Desk α) (ex : σ) : List String → Desk α × σ
  | [] => (d, ex)
  | name :: rest =>
    let ((d, _), ex) := d.refreshTrader ex name
    refreshTraders d ex rest

variable [Amount α]

/-- Matches the open orders of a symbol against its newest trades. -/
def matchSymbol (d : Desk α) (m : Market α) (ex : σ) (symbol : Symbol) (replayed : Bool) :
    (Desk α × MatchReport) × σ :=
  match d.window? m symbol with
  | none => ((d, {}), ex)
  | some window =>
    let p := d.pass symbol replayed window
    let (desk, ex) := p.desk.refreshTraders ex p.toRefresh
    ((desk, p.report), ex)

/-- Matches the orders of some symbols in turn. -/
def matchSymbols (d : Desk α) (m : Market α) (ex : σ) (replayed : Bool) :
    List Symbol → (Desk α × List MatchReport) × σ
  | [] => ((d, []), ex)
  | symbol :: rest =>
    let ((d, report), ex) := d.matchSymbol m ex symbol replayed
    let ((d, reports), ex) := matchSymbols d m ex replayed rest
    ((d, report :: reports), ex)

/-- Matches the orders of every symbol that has stored orders at the beginning. -/
def matchAll (d : Desk α) (m : Market α) (ex : σ) (replayed : Bool) :
    (Desk α × List MatchReport) × σ :=
  d.matchSymbols m ex replayed d.orders.symbols

end Desk

end MarketEngine
