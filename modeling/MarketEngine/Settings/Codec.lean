import MarketEngine.Codec.Quote
import MarketEngine.Settings.Basic
/-!
# Settings as JSON

Every field has a standard value, so that a file written before a field was introduced still reads.
-/

namespace MarketEngine.Settings

open Json

variable {α : Type} [JsonAmount α]

/-- Balances as an object of amounts by currency. -/
def balancesToJson (balances : Table Currency α) : Json :=
  Json.record (balances.map fun b => (b.1, ofAmount b.2))

/-- Balances by currency, of a repeated currency the last one. -/
def balances? : Json → Option (Table Currency α)
  | object fields => do
    let entries ← fields.mapM fun (name, j) => do return (← name, ← amount? j)
    return Table.ofList entries
  | _ => none

/-- The names of the fields, in declared order. -/
def fieldNames : List String :=
  ["exchange_name", "symbols", "time_frames", "backtesting", "save_evaluations",
    "evaluation_export_dir", "consumer_queue_size", "recent_trade_filter_size", "max_candles",
    "max_recent_trades", "max_orders", "simulator_last_prices_to_check", "candle_fetch_limit",
    "updater_max_sleeping_secs", "orders_refresh_secs", "ticker_refresh_secs",
    "order_book_refresh_secs", "recent_trades_refresh_secs", "balance_refresh_secs", "maker_fee",
    "taker_fee", "starting_balances"]

def toJson (s : Settings α) : Json :=
  Json.record [("exchange_name", ofString s.exchangeName),
    ("symbols", array (s.symbols.map ofString)),
    ("time_frames", array (s.timeFrames.map TimeFrame.toJson)),
    ("backtesting", bool s.backtesting),
    ("save_evaluations", bool s.saveEvaluations),
    ("evaluation_export_dir", ofString s.exportDir),
    ("consumer_queue_size", ofNat s.queueSize),
    ("recent_trade_filter_size", ofNat s.tradeFilterSize),
    ("max_candles", ofNat s.mostCandles),
    ("max_recent_trades", ofNat s.mostTrades),
    ("max_orders", ofNat s.mostOrders),
    ("simulator_last_prices_to_check", ofNat s.matchWindow),
    ("candle_fetch_limit", ofNat s.candleLimit),
    ("updater_max_sleeping_secs", ofNat s.longestSleepSecs),
    ("orders_refresh_secs", ofNat s.ordersPeriodSecs),
    ("ticker_refresh_secs", ofNat s.tickerPeriodSecs),
    ("order_book_refresh_secs", ofNat s.bookPeriodSecs),
    ("recent_trades_refresh_secs", ofNat s.tradesPeriodSecs),
    ("balance_refresh_secs", ofNat s.balancePeriodSecs),
    ("maker_fee", ofAmount s.makerFee),
    ("taker_fee", ofAmount s.takerFee),
    ("starting_balances", balancesToJson s.startingBalances)]

def ofJson? [DefaultAmounts α] (j : Json) : Option (Settings α) := do
  let r ← record? fieldNames j
  return {
    exchangeName := ← r.withDefault "exchange_name" Default.exchangeName string?
    symbols := ← r.withDefault "symbols" Default.symbols (listOf? string?)
    timeFrames := ← r.withDefault "time_frames" Default.timeFrames (listOf? TimeFrame.ofJson?)
    backtesting := ← r.withDefault "backtesting" false bool?
    saveEvaluations := ← r.withDefault "save_evaluations" false bool?
    exportDir := ← r.withDefault "evaluation_export_dir" Default.exportDir string?
    queueSize := ← r.withDefault "consumer_queue_size" Default.queueSize nat64?
    tradeFilterSize := ← r.withDefault "recent_trade_filter_size" Default.tradeFilterSize nat32?
    mostCandles := ← r.withDefault "max_candles" Default.mostCandles nat64?
    mostTrades := ← r.withDefault "max_recent_trades" Default.mostTrades nat64?
    mostOrders := ← r.withDefault "max_orders" Default.mostOrders nat64?
    matchWindow := ← r.withDefault "simulator_last_prices_to_check" Default.matchWindow nat64?
    candleLimit := ← r.withDefault "candle_fetch_limit" Default.candleLimit nat64?
    longestSleepSecs := ← r.withDefault "updater_max_sleeping_secs" Default.longestSleepSecs nat64?
    ordersPeriodSecs := ← r.withDefault "orders_refresh_secs" Default.ordersPeriodSecs nat64?
    tickerPeriodSecs := ← r.withDefault "ticker_refresh_secs" Default.tickerPeriodSecs nat64?
    bookPeriodSecs := ← r.withDefault "order_book_refresh_secs" Default.bookPeriodSecs nat64?
    tradesPeriodSecs := ← r.withDefault "recent_trades_refresh_secs" Default.tradesPeriodSecs nat64?
    balancePeriodSecs := ← r.withDefault "balance_refresh_secs" Default.balancePeriodSecs nat64?
    makerFee := ← r.withDefault "maker_fee" Default.makerFee amount?
    takerFee := ← r.withDefault "taker_fee" Default.takerFee amount?
    startingBalances := ← r.withDefault "starting_balances" Default.startingBalances balances? }

end MarketEngine.Settings
