import MarketEngine.Exchange.Basic
import MarketEngine.Trading.Order
import MarketEngine.Trading.Portfolio
/-!
# Traders

A trader owns orders. It is told of their fills and cancellations, and it knows which orders the
exchange last reported as open: by symbol, from the polled reports, from orders tracked by hand, and
from a forced refresh, which also takes over the exchange's balances.
-/

namespace MarketEngine

structure Trader (α : Type) where
  name : String
  /-- The symbols whose open orders a forced refresh asks for. -/
  symbols : List Symbol
  /-- The exchange's ids of the open orders, by symbol. -/
  known : Table Symbol (List String) := []
  /-- The orders as they were when they were filled. -/
  fills : List (Order α) := []
  /-- The orders as they were when a linked order's fill canceled them. -/
  cancels : List (Order α) := []
  deriving Repr

/-- The query of a forced refresh that failed. -/
inductive RefreshStage where
  | balances
  | openOrders (symbol : Symbol)
  deriving Repr, DecidableEq

/-- A forced refresh that did not reach its end. -/
structure RefreshFailure where
  stage : RefreshStage
  cause : ExchangeError
  deriving Repr, DecidableEq

def RefreshFailure.message (f : RefreshFailure) : String :=
  match f.stage with
  | .balances => "failed to refresh balances"
  | .openOrders symbol => "failed to refresh open orders of " ++ symbol

namespace Trader

variable {α : Type}

/-- Takes over a report of the open orders of a symbol. A report on the wildcard tells nothing. -/
def replaceKnown (t : Trader α) (symbol : Symbol) (orders : List (ExchangeOrder α)) : Trader α :=
  if symbol == Symbol.wildcard then t
  else { t with known := t.known.put symbol (orders.map (·.id)) }

/-- Adds one open order of a symbol. -/
def track (t : Trader α) (symbol : Symbol) (id : String) : Trader α :=
  { t with known := t.known.modify symbol [] (· ++ [id]) }

/-- Whether the exchange reports this order as open. -/
def knows (t : Trader α) (id : String) : Bool := t.known.any fun entry => entry.2.contains id

def noteFill (t : Trader α) (o : Order α) : Trader α := { t with fills := t.fills ++ [o] }

def noteCancel (t : Trader α) (o : Order α) : Trader α := { t with cancels := t.cancels ++ [o] }

variable {σ : Type} [Exchange σ α]

/-- Asks for the open orders of the symbols in turn, and stops at the first query that fails. -/
def refreshOrders (t : Trader α) (ex : σ) : List Symbol → (Trader α × Option RefreshFailure) × σ
  | [] => ((t, none), ex)
  | symbol :: rest =>
    match Exchange.openOrders ex symbol with
    | (.error cause, ex) => ((t, some ⟨.openOrders symbol, cause⟩), ex)
    | (.ok orders, ex) => refreshOrders (t.replaceKnown symbol orders) ex rest

/-- Reads balances and open orders from the exchange anew. A query that fails ends the refresh, and
what was read before it stays. -/
def forceRefresh (t : Trader α) (p : Portfolio α) (ex : σ) :
    (Trader α × Portfolio α × Option RefreshFailure) × σ :=
  match Exchange.balances ex with
  | (.error cause, ex) => ((t, p, some ⟨.balances, cause⟩), ex)
  | (.ok reported, ex) =>
    let ((t, failure), ex) := t.refreshOrders ex t.symbols
    ((t, p.sync reported, failure), ex)

end Trader

end MarketEngine
