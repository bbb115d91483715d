import MarketEngine.Channel.Gated
import MarketEngine.Channel.Payload
import MarketEngine.Codec.Evaluation
import MarketEngine.Codec.Order
import MarketEngine.Trading.Desk
/-!
# Values on display

How values are shown to somebody who looks at a running engine: as JSON in which amounts stand as
texts, so that every amount can be shown, and in which candles, trades and notes take little room.
-/

namespace MarketEngine

open Json

variable {α : Type} [Written α]

/-- An amount as a text. -/
def displayAmount (x : α) : Json := ofString (Written.text x)

def displayAmounts (xs : List α) : Json := array (xs.map displayAmount)

def displayTexts (l : List String) : Json := array (l.map ofString)

/-- Time, open, high, low, close and volume. -/
def Candle.display (c : Candle α) : Json :=
  array (ofInt c.time :: [c.opening, c.high, c.low, c.close, c.volume].map displayAmount)

/-- Price, quantity and time. -/
def Trade.display (t : Trade α) : Json :=
  array [displayAmount t.price, displayAmount t.quantity, ofInt t.timestamp]

def Ticker.display (t : Ticker α) : Json :=
  Json.record [("symbol", ofString t.symbol), ("bid", displayAmount t.bid),
    ("ask", displayAmount t.ask), ("last", displayAmount t.last), ("timestamp", ofInt t.timestamp)]

def BookDepth.display (b : BookDepth α) : Json :=
  let levels (l : List (α × α)) : Json := array (l.map fun (p, q) => displayAmounts [p, q])
  Json.record [("bids", levels b.bids), ("asks", levels b.asks), ("timestamp", ofInt b.timestamp)]

def Note.display : Note α → Json
  | value x => displayAmount x
  | pending => ofString "pending"

/-- The notes by their keys. -/
def MatrixSnapshot.display (s : MatrixSnapshot α) : Json :=
  array (s.map fun e => array [ofString e.key, e.note.display])

def CandleColumns.display (c : CandleColumns α) : Json :=
  Json.record [("time", array (c.time.map ofInt)), ("open", displayAmounts c.opening),
    ("high", displayAmounts c.high), ("low", displayAmounts c.low),
    ("close", displayAmounts c.close), ("volume", displayAmounts c.volume),
    ("len", ofNat c.size), ("empty", bool (c.size == 0)),
    ("last_close", ofOption displayAmount c.close.getLast?)]

def Fee.display (f : Fee α) : Json :=
  Json.record [("cost", displayAmount f.cost), ("currency", ofString f.currency)]

/-- An order; the time of its creation can be left out. -/
def Order.display (o : Order α) (showsCreation : Bool) : Json :=
  Json.record [("id", ofString o.id), ("exchange_id", ofOption ofString o.exchangeId),
    ("linked", displayTexts o.linked), ("symbol", ofString o.symbol),
    ("kind", ofString o.kind.label), ("side", ofString o.side.label),
    ("price", displayAmount o.price), ("stop", ofOption displayAmount o.stop),
    ("quantity", displayAmount o.quantity), ("status", o.status.toJson),
    ("filled_price", ofOption displayAmount o.filledPrice),
    ("filled_quantity", displayAmount o.filledQuantity), ("fee", ofOption Fee.display o.fee),
    ("created", if showsCreation then ofInt o.created else null), ("trader", ofString o.trader)]

def MatchReport.display (r : MatchReport) : Json :=
  Json.record [("filled", displayTexts r.filled), ("canceled", displayTexts r.canceled),
    ("missing", displayTexts r.missing)]

/-- A number headed somewhere. -/
def displayNumber (m : Message Nat) : Json := ofString (m.key.text ++ "#" ++ toString m.payload)

/-- The fields of what is to be seen of a channel. -/
def ChannelView.display (v : ChannelView) : List (String × Json) :=
  [("got", Json.record (v.recorded.map fun (id, ms) => (id, array (ms.map displayNumber)))),
    ("sent", array (v.sent.map ofNat)), ("blocked", ofNat v.blocked),
    ("running", displayTexts v.running), ("count", ofNat v.count), ("up", bool v.isUp)]

def Payload.display : Payload α → Json
  | .ticker t => t.display
  | .book b => b.display
  | .trades l => array (l.map Trade.display)
  | .balances l => array (l.map fun b => array [ofString b.asset, displayAmount b.free])
  | .orders l => displayTexts (l.map (·.id))
  | .candle u => array [u.timeFrame.toJson, u.candle.display]
  | .trigger t =>
    Json.record [("source", ofString t.source), ("force", bool t.forceRefresh),
      ("finalize", bool t.finalize), ("interruption", bool t.interruption)]
  | .matrix u =>
    Json.record [("exchange", ofString u.exchange), ("symbol", ofString u.symbol),
      ("matrix", u.matrix.display)]
  | .finalize r =>
    Json.record [("exchange", ofString r.exchange), ("symbol", ofString r.symbol),
      ("notes", array (r.notes.map fun (name, x) => array [ofString name, displayAmount x]))]

end MarketEngine
