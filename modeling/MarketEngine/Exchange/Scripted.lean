import MarketEngine.Exchange.Basic
import MarketEngine.Table
/-!
# Scripted exchanges

An exchange whose answers are laid out beforehand. Candles and trades are queued in batches, of
which every query takes the next one; when none is left, the feed has ended or the last batch is
answered again. Tickers, books, balances and open orders stand for themselves. Of each kind of query
the next ones can be made to fail. Every query is noted.
-/

namespace MarketEngine

/-- Batches that are answered one after the other. -/
structure BatchFeed (β : Type) where
  queued : List β := []
  /-- The batch that was answered last. -/
  last : Option β := none
  deriving Repr

/-- The next answer of a feed, where `ended` says whether anything follows the queued batches. -/
def BatchFeed.next {β : Type} (f : BatchFeed β) (symbol : Symbol) (ended : Bool) :
    Answer β × BatchFeed β :=
  match f.queued with
  | batch :: queued => (.ok batch, { queued, last := some batch })
  | [] =>
    if ended then (.error (.feedEnded symbol), f)
    else match f.last with
      | some batch => (.ok batch, f)
      | none => (.error (.unavailable ("no data for " ++ symbol)), f)

/-- The kinds of queries. -/
inductive Query where
  | candles
  | book
  | trades
  | ticker
  | balance
  | openOrders
  deriving Repr, DecidableEq

namespace Query

def all : List Query := [candles, book, trades, ticker, balance, openOrders]

def name : Query → String
  | candles => "candles"
  | book => "book"
  | trades => "trades"
  | ticker => "ticker"
  | balance => "balance"
  | openOrders => "open_orders"

def ofName? (s : String) : Option Query := all.find? (·.name == s)

end Query

/-- How a query is made to fail. -/
inductive Mishap where
  /-- The feed of whatever symbol was asked for has ended. -/
  | feedEnded
  | unavailable (reason : String)
  | other (reason : String)
  deriving Repr, DecidableEq

def Mishap.error (symbol : Symbol) : Mishap → ExchangeError
  | feedEnded => .feedEnded symbol
  | unavailable reason => .unavailable reason
  | other reason => .other reason

structure ScriptedExchange (α : Type) where
  candles : Table (Symbol × TimeFrame) (BatchFeed (List (Candle α))) := []
  trades : Table Symbol (BatchFeed (List (Trade α))) := []
  tickers : Table Symbol (Ticker α) := []
  books : Table Symbol (BookDepth α) := []
  balances : List (AssetBalance α) := []
  openOrders : Table Symbol (List (ExchangeOrder α)) := []
  /-- The symbols whose feeds end with what is queued. -/
  ended : List Symbol := []
  mishaps : Table Query (List Mishap) := []
  /-- The queries so far. -/
  calls : List String := []
  deriving Repr

namespace ScriptedExchange

variable {α : Type}

/-! ## Laying out answers -/

def queueCandles (e : ScriptedExchange α) (symbol : Symbol) (t : TimeFrame)
    (batch : List (Candle α)) : ScriptedExchange α :=
  { e with
    candles := e.candles.modify (symbol, t) {} fun f => { f with queued := f.queued ++ [batch] } }

def queueTrades (e : ScriptedExchange α) (symbol : Symbol) (batch : List (Trade α)) :
    ScriptedExchange α :=
  { e with trades := e.trades.modify symbol {} fun f => { f with queued := f.queued ++ [batch] } }

def setTicker (e : ScriptedExchange α) (symbol : Symbol) (t : Ticker α) : ScriptedExchange α :=
  { e with tickers := e.tickers.put symbol t }

def setBook (e : ScriptedExchange α) (symbol : Symbol) (b : BookDepth α) : ScriptedExchange α :=
  { e with books := e.books.put symbol b }

def setOpenOrders (e : ScriptedExchange α) (symbol : Symbol) (orders : List (ExchangeOrder α)) :
    ScriptedExchange α :=
  { e with openOrders := e.openOrders.put symbol orders }

/-- Lets the feeds of a symbol end with what is queued. -/
def endFeeds (e : ScriptedExchange α) (symbol : Symbol) : ScriptedExchange α :=
  { e with ended := symbol :: e.ended }

/-- Makes one more query of a kind fail. -/
def addMishap (e : ScriptedExchange α) (q : Query) (m : Mishap) : ScriptedExchange α :=
  { e with mishaps := e.mishaps.modify q [] (· ++ [m]) }

/-- How many of the answers laid out are still to come. -/
def answersLeft (e : ScriptedExchange α) : Nat :=
  (e.candles.flatMap (·.2.queued)).length + (e.trades.flatMap (·.2.queued)).length
    + (e.mishaps.flatMap (·.2)).length

/-! ## Queries -/

/-- Notes a query about a symbol and lets it fail, if it is to. -/
def ask {β : Type} (e : ScriptedExchange α) (q : Query) (symbol : Symbol) (call : List String)
    (answer : ScriptedExchange α → Answer β × ScriptedExchange α) :
    Answer β × ScriptedExchange α :=
  let e := { e with calls := e.calls ++ [String.intercalate " " (q.name :: call)] }
  match e.mishaps.get? q with
  | some (m :: rest) => (.error (m.error symbol), { e with mishaps := e.mishaps.put q rest })
  | _ => answer e

/-- The newest items of a batch. -/
def newest {β : Type} (limit : Nat) (batch : List β) : List β := batch.drop (batch.length - limit)

instance : Exchange (ScriptedExchange α) α where
  candles e symbol t limit :=
    e.ask .candles symbol [symbol, t.name, toString limit] fun e =>
      let (answer, feed) :=
        ((e.candles.get? (symbol, t)).getD {}).next symbol (e.ended.contains symbol)
      (answer.map (newest limit), { e with candles := e.candles.put (symbol, t) feed })
  trades e symbol limit :=
    e.ask .trades symbol [symbol, toString limit] fun e =>
      let (answer, feed) := ((e.trades.get? symbol).getD {}).next symbol (e.ended.contains symbol)
      (answer.map (newest limit), { e with trades := e.trades.put symbol feed })
  ticker e symbol :=
    e.ask .ticker symbol [symbol] fun e =>
      match e.tickers.get? symbol with
      | some t => (.ok t, e)
      | none => (.error (.unavailable ("no ticker for " ++ symbol)), e)
  book e symbol :=
    e.ask .book symbol [symbol] fun e => (.ok ((e.books.get? symbol).getD ⟨[], [], 0⟩), e)
  balances e := e.ask .balance Symbol.wildcard [] fun e => (.ok e.balances, e)
  openOrders e symbol :=
    e.ask .openOrders symbol [symbol] fun e => (.ok ((e.openOrders.get? symbol).getD []), e)

end ScriptedExchange

end MarketEngine
