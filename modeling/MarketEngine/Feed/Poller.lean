import MarketEngine.Channel.Payload
import MarketEngine.Channel.Topic
import MarketEngine.Exchange.Basic
import MarketEngine.Market.Board
/-!
# Pollers

A poller asks an exchange for one kind of data, of all its symbols at once, then writes each answer
to the market and publishes it. A symbol whose feed has ended is asked for no more. Balances belong
to the whole exchange; their poller asks once, on the wildcard, and has no end.
-/

namespace MarketEngine

/-- A kind of polled data. -/
inductive PollSource where
  | ticker
  | book
  /-- The newest trades, at most so many. -/
  | trades (limit : Nat)
  | balance
  | orders
  deriving Repr, DecidableEq

namespace PollSource

def topic : PollSource → Topic
  | ticker => .ticker
  | book => .orderBook
  | trades _ => .recentTrade
  | balance => .balance
  | orders => .orders

/-- Whether there is data for each symbol. -/
def isPerSymbol : PollSource → Bool
  | balance => false
  | _ => true

variable {σ α : Type}

/-- Asks the exchange. -/
def fetch [Exchange σ α] (source : PollSource) (ex : σ) (symbol : Symbol) :
    Answer (Payload α) × σ :=
  match source with
  | ticker => let (answer, ex) := Exchange.ticker ex symbol; (answer.map .ticker, ex)
  | book => let (answer, ex) := Exchange.book ex symbol; (answer.map .book, ex)
  | trades limit =>
    let (answer, ex) := Exchange.trades ex symbol limit
    (answer.map .trades, ex)
  | balance => let (answer, ex) := Exchange.balances ex; (answer.map .balances, ex)
  | orders => let (answer, ex) := Exchange.openOrders ex symbol; (answer.map .orders, ex)

end PollSource

/-- Writes polled data to the market; balances and orders have no place there. -/
def Market.recordPolled {α : Type} (m : Market α) (symbol : Symbol) : Payload α → Market α
  | .ticker ticker => m.updateTicker symbol ticker
  | .book book => m.updateBook symbol book
  | .trades trades => m.updateTrades symbol trades
  | _ => m

structure Poller where
  source : PollSource
  symbols : List Symbol
  ended : List Symbol := []
  deriving Repr

namespace Poller

/-- The symbols to ask for. -/
def targets (p : Poller) : List Symbol :=
  if p.source.isPerSymbol then p.symbols.filter (!p.ended.contains ·) else [Symbol.wildcard]

def endSymbol (p : Poller) (symbol : Symbol) : Poller := { p with ended := symbol :: p.ended }

/-- Whether nothing is left to ask for. -/
def finished (p : Poller) : Bool := p.source.isPerSymbol && p.targets.isEmpty

variable {σ α : Type} [Exchange σ α]

/-- Asks for symbols in turn. -/
def fetchAll (source : PollSource) (ex : σ) : List Symbol → List (Symbol × Answer (Payload α)) × σ
  | [] => ([], ex)
  | symbol :: rest =>
    let (answer, ex) := source.fetch ex symbol
    let (answers, ex) := fetchAll source ex rest
    ((symbol, answer) :: answers, ex)

/-- Asks for every target. -/
def poll (p : Poller) (ex : σ) : List (Symbol × Answer (Payload α)) × σ :=
  fetchAll p.source ex p.targets

end Poller

end MarketEngine
