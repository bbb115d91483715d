import MarketEngine.Amount
import MarketEngine.Market.TimeFrame
import MarketEngine.Market.Symbol
/-!
# What can go wrong

Causes of failure, each with its wording in one place.
-/

namespace MarketEngine

/-- What is wrong with a set of settings. -/
inductive SettingsFault where
  | emptyExchangeName
  | noSymbols
  | noTimeFrames
  /-- A size that has to be positive is zero. -/
  | zeroSize (setting : String)
  | negativeFee
  deriving Repr, DecidableEq

def SettingsFault.message : SettingsFault → String
  | .emptyExchangeName => "exchange_name is empty"
  | .noSymbols => "no symbols configured"
  | .noTimeFrames => "no time frames configured"
  | .zeroSize setting => setting ++ " must be positive"
  | .negativeFee => "fees must not be negative"

/-- Why the engine refuses a request. -/
inductive EngineError (α : Type) where
  | channelExists (channel exchange : String)
  | channelNotFound (channel exchange : String)
  | producerTaken (channel exchange : String)
  | orderStored (id : String)
  | ordersFull (capacity : Nat)
  | orderMissing (id : String)
  | insufficientFunds (currency : Currency) (required available : α)
  | unknownSymbol (symbol : Symbol)
  | unknownTimeFrame (name : String)
  | invalidSettings (fault : SettingsFault)
  deriving Repr

def EngineError.message {α : Type} [Written α] : EngineError α → String
  | .channelExists channel exchange => "channel " ++ channel ++ " already exists on " ++ exchange
  | .channelNotFound channel exchange => "channel " ++ channel ++ " not found on " ++ exchange
  | .producerTaken channel exchange =>
    "channel " ++ exchange ++ ":" ++ channel ++ " already has a producer"
  | .orderStored id => "order " ++ id ++ " is already stored"
  | .ordersFull capacity => "order store full: " ++ toString capacity ++ " open orders"
  | .orderMissing id => "missing exchange order " ++ id
  | .insufficientFunds currency required available =>
    "not enough " ++ currency ++ ": required " ++ Written.text required ++ ", available "
      ++ Written.text available
  | .unknownSymbol symbol => "unknown symbol " ++ symbol
  | .unknownTimeFrame name => "unknown time frame " ++ name
  | .invalidSettings fault => "invalid configuration: " ++ fault.message

/-- Why an exchange does not answer a query. -/
inductive ExchangeError where
  /-- A replayed feed is exhausted; this ends the symbol's updates and is no failure. -/
  | feedEnded (symbol : Symbol)
  | unavailable (reason : String)
  | other (reason : String)
  deriving Repr, DecidableEq

def ExchangeError.message : ExchangeError → String
  | .feedEnded symbol => "feed ended for " ++ symbol
  | .unavailable reason => "exchange unavailable: " ++ reason
  | .other reason => reason

/-- The time frame with this short name. A refusal shows the name without the blanks around it. -/
def TimeFrame.parse {α : Type} (s : String) : Except (EngineError α) TimeFrame :=
  match TimeFrame.read? s with
  | some t => .ok t
  | none => .error (.unknownTimeFrame (Text.trim s))

end MarketEngine
