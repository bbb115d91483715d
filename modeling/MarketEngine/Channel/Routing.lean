import MarketEngine.Market.TimeFrame
import MarketEngine.Market.Symbol
/-!
# Routing

A message is headed for a symbol, and for one of its time frames if it concerns candles. A
subscription asks for the messages of one symbol or of all, of one time frame or of all, and says
whether its consumer is rate-limited.
-/

namespace MarketEngine

/-- Where a message is headed. -/
structure RoutingKey where
  symbol : Symbol
  timeFrame : Option TimeFrame := none
  deriving Repr, DecidableEq

/-- The symbol, and behind an at-sign the time frame. -/
def RoutingKey.text (k : RoutingKey) : String :=
  match k.timeFrame with
  | some t => k.symbol ++ "@" ++ t.name
  | none => k.symbol

/-- What a consumer asks for. -/
structure Subscription where
  symbol : Symbol := Symbol.wildcard
  /-- The time frame, where one is asked for. -/
  timeFrame : Option TimeFrame := none
  /-- Whether only some of the messages are wanted, as many as the channel's filter lets through. -/
  rateLimited : Bool := false
  deriving Repr, DecidableEq

/-- A time frame is refused only by a subscription for another one. -/
def Subscription.acceptsTimeFrame (s : Subscription) (t : Option TimeFrame) : Bool :=
  match s.timeFrame, t with
  | some wanted, some got => wanted == got
  | _, _ => true

/-- A message as it stands in a queue. -/
structure Message (π : Type) where
  key : RoutingKey
  payload : π
  deriving Repr

end MarketEngine
