import MarketEngine.Error
import MarketEngine.Table
/-!
# Settings

What one exchange session is run with. `Settings.validate` refuses settings that no session can run
with, naming the first fault.
-/

namespace MarketEngine

structure Settings (α : Type) where
  exchangeName : String
  symbols : List Symbol
  timeFrames : List TimeFrame
  /-- Whether recorded feeds are replayed until they end. -/
  backtesting : Bool
  saveEvaluations : Bool
  exportDir : String
  queueSize : Nat
  /-- Every so many reports of trades one reaches the rate-limited consumers. -/
  tradeFilterSize : Nat
  mostCandles : Nat
  mostTrades : Nat
  mostOrders : Nat
  /-- How many of the newest trades orders are matched against. -/
  matchWindow : Nat
  candleLimit : Nat
  longestSleepSecs : Nat
  ordersPeriodSecs : Nat
  tickerPeriodSecs : Nat
  bookPeriodSecs : Nat
  tradesPeriodSecs : Nat
  balancePeriodSecs : Nat
  makerFee : α
  takerFee : α
  startingBalances : Table Currency α
  deriving Repr

/-- The amounts that settings start from. -/
class DefaultAmounts (α : Type) where
  /-- One thousandth. -/
  fee : α
  /-- Ten thousand. -/
  balance : α

instance : DefaultAmounts Float := ⟨0.001, 10000.0⟩

namespace Settings

variable {α : Type}

/-! ## Values where nothing else is asked for

What a field is where a file lacks it, and what it is in `standard`, is one definition. Only the two
flags are given in both places. -/

namespace Default

def exchangeName : String := "simulated"

def symbols : List Symbol := ["BTC/USDT", "ETH/USDT"]

def timeFrames : List TimeFrame := [.oneHour, .fourHours, .oneDay]

def exportDir : String := "."

def queueSize : Nat := 1000

def tradeFilterSize : Nat := 1

def mostCandles : Nat := 1000

def mostTrades : Nat := 100

def mostOrders : Nat := 1000

def matchWindow : Nat := 50

def candleLimit : Nat := 500

def longestSleepSecs : Nat := 1

def ordersPeriodSecs : Nat := 60

def tickerPeriodSecs : Nat := 10

def bookPeriodSecs : Nat := 5

def tradesPeriodSecs : Nat := 5

def balancePeriodSecs : Nat := 30

def makerFee [DefaultAmounts α] : α := DefaultAmounts.fee

def takerFee [DefaultAmounts α] : α := DefaultAmounts.fee

def startingBalances [DefaultAmounts α] : Table Currency α := [("USDT", DefaultAmounts.balance)]

end Default

/-- The settings where nothing else is asked for. -/
def standard [DefaultAmounts α] : Settings α where
  exchangeName := Default.exchangeName
  symbols := Default.symbols
  timeFrames := Default.timeFrames
  backtesting := false
  saveEvaluations := false
  exportDir := Default.exportDir
  queueSize := Default.queueSize
  tradeFilterSize := Default.tradeFilterSize
  mostCandles := Default.mostCandles
  mostTrades := Default.mostTrades
  mostOrders := Default.mostOrders
  matchWindow := Default.matchWindow
  candleLimit := Default.candleLimit
  longestSleepSecs := Default.longestSleepSecs
  ordersPeriodSecs := Default.ordersPeriodSecs
  tickerPeriodSecs := Default.tickerPeriodSecs
  bookPeriodSecs := Default.bookPeriodSecs
  tradesPeriodSecs := Default.tradesPeriodSecs
  balancePeriodSecs := Default.balancePeriodSecs
  makerFee := Default.makerFee
  takerFee := Default.takerFee
  startingBalances := Default.startingBalances

/-! ## Faults -/

/-- The sizes that have to be positive, in the order in which they are checked. -/
def sizes (s : Settings α) : List (String × Nat) :=
  [("consumer_queue_size", s.queueSize), ("max_candles", s.mostCandles),
    ("max_recent_trades", s.mostTrades), ("max_orders", s.mostOrders),
    ("simulator_last_prices_to_check", s.matchWindow),
    ("recent_trade_filter_size", s.tradeFilterSize)]

/-- The first fault of the settings. -/
def fault? [Amount α] (s : Settings α) : Option SettingsFault :=
  if (Text.trim s.exchangeName).isEmpty then some .emptyExchangeName
  else if s.symbols.isEmpty then some .noSymbols
  else if s.timeFrames.isEmpty then some .noTimeFrames
  else match s.sizes.find? (·.2 == 0) with
    | some (name, _) => some (.zeroSize name)
    | none =>
      if s.makerFee < Amount.zero ∨ s.takerFee < Amount.zero then some .negativeFee else none

def validate [Amount α] (s : Settings α) : Except (EngineError α) Unit :=
  match s.fault? with
  | some fault => .error (.invalidSettings fault)
  | none => .ok ()

end Settings

end MarketEngine
