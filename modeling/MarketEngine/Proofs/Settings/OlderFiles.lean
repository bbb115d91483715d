import MarketEngine.Settings.File
import MarketEngine.Proofs.Json.Records
import MarketEngine.Proofs.Json.RoundTrip
/-!
# Older settings files

A file that was written before some settings were introduced lacks their fields. Whichever fields a
file lacks, in whatever order the others stand and whatever unknown ones stand among them, it loads:
the fields that are there keep their values, the others are the standard ones
(`Settings.load_keeping`).
-/

namespace MarketEngine

namespace Settings

open Json

variable {α : Type} [JsonAmount α]

/-- Balances are read back as they were written. -/
theorem balances?_balancesToJson {balances : Table Currency α} (hkeys : balances.keys.Nodup)
    (hamounts : ∀ b ∈ balances, ReadsBack b.2) :
    balances? (balancesToJson balances) = some balances := by
  have hentries : (balances.map fun b => (some b.1, ofAmount b.2)).mapM
      (fun (e : Option String × Json) => do return (← e.1, ← amount? e.2)) = some balances :=
    mapM_map fun b hb => by rw [amount?_ofAmount (hamounts b hb)]; rfl
  have hfields : (balances.map fun b => (b.1, ofAmount b.2)).map (fun f => (some f.1, f.2))
      = balances.map fun b => (some b.1, ofAmount b.2) := List.map_map
  rw [balancesToJson, Json.record, hfields, balances?, hentries, Option.bind_eq_bind,
    Option.bind_some, Table.ofList_eq hkeys]
  rfl

/-- The file of settings is one record of its entries. -/
theorem toJson_eq (s : Settings α) : s.toJson = Json.record s.toJson.entries := by
  rw [toJson, entries_record]

/-- The entries of the file are the fields, each once and in order. -/
theorem names_toJson (s : Settings α) : s.toJson.entries.map (·.1) = fieldNames := rfl

/-- Settings as the process can hold them and a file can say them: sizes of 64 bits, one of 32 bits,
distinct currencies, and finite amounts whose numerals are read back as the amounts. -/
structure Writable (s : Settings α) : Prop where
  size : ∀ n ∈ [s.queueSize, s.mostCandles, s.mostTrades, s.mostOrders, s.matchWindow,
    s.candleLimit, s.longestSleepSecs, s.ordersPeriodSecs, s.tickerPeriodSecs, s.bookPeriodSecs,
    s.tradesPeriodSecs, s.balancePeriodSecs], n < Nat.pow 2 64
  filterSize : s.tradeFilterSize < Nat.pow 2 32
  makerFee : ReadsBack s.makerFee
  takerFee : ReadsBack s.takerFee
  currencies : s.startingBalances.keys.Nodup
  balances : ∀ b ∈ s.startingBalances, ReadsBack b.2

variable [DefaultAmounts α]

/-- The settings with the values of some fields, and standard ones otherwise. -/
def keeping (s : Settings α) (kept : String → Bool) : Settings α :=
  let d : Settings α := standard
  { exchangeName := if kept "exchange_name" then s.exchangeName else d.exchangeName
    symbols := if kept "symbols" then s.symbols else d.symbols
    timeFrames := if kept "time_frames" then s.timeFrames else d.timeFrames
    backtesting := if kept "backtesting" then s.backtesting else d.backtesting
    saveEvaluations := if kept "save_evaluations" then s.saveEvaluations else d.saveEvaluations
    exportDir := if kept "evaluation_export_dir" then s.exportDir else d.exportDir
    queueSize := if kept "consumer_queue_size" then s.queueSize else d.queueSize
    tradeFilterSize :=
      if kept "recent_trade_filter_size" then s.tradeFilterSize else d.tradeFilterSize
    mostCandles := if kept "max_candles" then s.mostCandles else d.mostCandles
    mostTrades := if kept "max_recent_trades" then s.mostTrades else d.mostTrades
    mostOrders := if kept "max_orders" then s.mostOrders else d.mostOrders
    matchWindow := if kept "simulator_last_prices_to_check" then s.matchWindow else d.matchWindow
    candleLimit := if kept "candle_fetch_limit" then s.candleLimit else d.candleLimit
    longestSleepSecs :=
      if kept "updater_max_sleeping_secs" then s.longestSleepSecs else d.longestSleepSecs
    ordersPeriodSecs :=
      if kept "orders_refresh_secs" then s.ordersPeriodSecs else d.ordersPeriodSecs
    tickerPeriodSecs :=
      if kept "ticker_refresh_secs" then s.tickerPeriodSecs else d.tickerPeriodSecs
    bookPeriodSecs := if kept "order_book_refresh_secs" then s.bookPeriodSecs else d.bookPeriodSecs
    tradesPeriodSecs :=
      if kept "recent_trades_refresh_secs" then s.tradesPeriodSecs else d.tradesPeriodSecs
    balancePeriodSecs :=
      if kept "balance_refresh_secs" then s.balancePeriodSecs else d.balancePeriodSecs
    makerFee := if kept "maker_fee" then s.makerFee else d.makerFee
    takerFee := if kept "taker_fee" then s.takerFee else d.takerFee
    startingBalances :=
      if kept "starting_balances" then s.startingBalances else d.startingBalances }

/-- A record with some of the fields of a file in any order, and with others that no setting has, is
read as the settings of the file where the field is there and as the standard ones elsewhere. -/
theorem ofJson?_of_perm {s : Settings α} (hs : s.Writable) (kept : String → Bool)
    {fields unknown : List (String × Json)} (hunknown : ∀ f ∈ unknown, f.1 ∉ fieldNames)
    (hfields : fields.Perm (s.toJson.entries.filter (kept ·.1) ++ unknown)) :
    ofJson? (Json.record fields) = some (s.keeping kept) := by
  obtain ⟨r, hrecord, hr⟩ := record?_of_perm kept
    (by rw [names_toJson]; decide) (by rwa [names_toJson]) hfields
  rw [names_toJson] at hrecord
  have hsize := fun n hn => nat64?_ofNat (hs.size n hn)
  have hsymbols : listOf? string? (array (s.symbols.map ofString)) = some s.symbols :=
    listOf?_map fun symbol _ => string?_ofString symbol
  have htimeFrames : listOf? TimeFrame.ofJson? (array (s.timeFrames.map TimeFrame.toJson))
      = some s.timeFrames := listOf?_map fun t _ => TimeFrame.ofJson?_toJson t
  -- field by field: it is read back if it was kept, and has its standard value otherwise
  unfold ofJson?
  rw [hrecord, Option.bind_eq_bind, Option.bind_some,
    Record.withDefault_eq hr _ rfl (string?_ofString s.exchangeName),
    Record.withDefault_eq hr _ rfl hsymbols,
    Record.withDefault_eq hr _ rfl htimeFrames,
    Record.withDefault_eq hr _ rfl (bool?_bool s.backtesting),
    Record.withDefault_eq hr _ rfl (bool?_bool s.saveEvaluations),
    Record.withDefault_eq hr _ rfl (string?_ofString s.exportDir),
    Record.withDefault_eq hr _ rfl (hsize s.queueSize (by simp)),
    Record.withDefault_eq hr _ rfl (nat32?_ofNat hs.filterSize),
    Record.withDefault_eq hr _ rfl (hsize s.mostCandles (by simp)),
    Record.withDefault_eq hr _ rfl (hsize s.mostTrades (by simp)),
    Record.withDefault_eq hr _ rfl (hsize s.mostOrders (by simp)),
    Record.withDefault_eq hr _ rfl (hsize s.matchWindow (by simp)),
    Record.withDefault_eq hr _ rfl (hsize s.candleLimit (by simp)),
    Record.withDefault_eq hr _ rfl (hsize s.longestSleepSecs (by simp)),
    Record.withDefault_eq hr _ rfl (hsize s.ordersPeriodSecs (by simp)),
    Record.withDefault_eq hr _ rfl (hsize s.tickerPeriodSecs (by simp)),
    Record.withDefault_eq hr _ rfl (hsize s.bookPeriodSecs (by simp)),
    Record.withDefault_eq hr _ rfl (hsize s.tradesPeriodSecs (by simp)),
    Record.withDefault_eq hr _ rfl (hsize s.balancePeriodSecs (by simp)),
    Record.withDefault_eq hr _ rfl (amount?_ofAmount hs.makerFee),
    Record.withDefault_eq hr _ rfl (amount?_ofAmount hs.takerFee),
    Record.withDefault_eq hr _ rfl (balances?_balancesToJson hs.currencies hs.balances)]
  rfl

/-- A settings file loads whichever fields it lacks: the object that settings are written as, less
any of its fields, with the others in any order and unknown ones among them, is read as the settings
that keep the values of the fields that are there and are standard otherwise. Its text, in either
style, is read back as the object, and a file with any text that is read so loads as these
settings. -/
theorem load_keeping {s : Settings α} (hs : s.Writable) (kept : String → Bool)
    {fields unknown : List (String × Json)} (hunknown : ∀ f ∈ unknown, f.1 ∉ fieldNames)
    (hfields : fields.Perm (s.toJson.entries.filter (kept ·.1) ++ unknown)) :
    s.toJson = Json.record s.toJson.entries ∧
    s.toJson.entries.map (·.1) = fieldNames ∧
    ofJson? (Json.record fields) = some (s.keeping kept) ∧
    (∀ style, Json.parse? ((Json.record fields).render style) = some (Json.record fields)) ∧
    ∀ (d : Disk) (path text : String), d.read? path = some text →
      Json.parse? text = some (Json.record fields) → load d path = .ok (s.keeping kept) := by
  have hread := ofJson?_of_perm hs kept hunknown hfields
  refine ⟨s.toJson_eq, s.names_toJson, hread, fun style => parse?_render style _, ?_⟩
  intro d path text htext hparse
  rw [load, htext]
  simp only [hparse, Option.bind_some, hread]

/-- A file with three of the fields of its settings, in another order, and with one field that is no
setting. -/
theorem load_keeping_leverage :
    let s : Settings Float := { standard with
      exchangeName := "kraken", symbols := ["SOL/USDT"], backtesting := true, mostOrders := 7,
      makerFee := 0.0005, startingBalances := [("USDT", 250.5), ("BTC", 1.5)] }
    let fields : List (String × Json) := [("leverage", ofNat 3),
      ("starting_balances", balancesToJson s.startingBalances), ("maker_fee", ofAmount s.makerFee),
      ("symbols", array (s.symbols.map ofString))]
    let text := (Json.record fields).render .indented
    let d := Disk.around "work" { nodes := [("engine.json", .text text)] }
    load d "work/engine.json" = .ok { (standard : Settings Float) with
      symbols := s.symbols, makerFee := s.makerFee, startingBalances := s.startingBalances } := by
  intro s fields text d
  have hs : s.Writable := {
    size := by decide
    filterSize := by decide
    makerFee := by decide +kernel
    takerFee := by decide +kernel
    currencies := by decide
    balances := by decide +kernel }
  have hunknown : ∀ f ∈ [("leverage", ofNat 3)], f.1 ∉ fieldNames := by decide
  have hfields : fields.Perm (s.toJson.entries.filter
      (["symbols", "maker_fee", "starting_balances"].contains ·.1) ++ [("leverage", ofNat 3)]) :=
    List.reverse_perm (s.toJson.entries.filter
      (["symbols", "maker_fee", "starting_balances"].contains ·.1) ++ [("leverage", ofNat 3)])
  obtain ⟨-, -, -, hparse, hload⟩ := load_keeping hs
    (["symbols", "maker_fee", "starting_balances"].contains ·) hunknown hfields
  have hplace : d.place? "work/engine.json" = some (0, "engine.json") := by decide +kernel
  have hfile : d.read? "work/engine.json" = some text := by
    rw [Disk.read?, hplace]
    rfl
  exact hload d "work/engine.json" text hfile (hparse .indented)

end Settings

end MarketEngine
