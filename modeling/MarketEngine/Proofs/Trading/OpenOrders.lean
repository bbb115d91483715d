import MarketEngine.Engine.Handlers
import MarketEngine.Exchange.Scripted
import MarketEngine.Proofs.Exact
import MarketEngine.Proofs.Tables
import MarketEngine.Proofs.Trading.Reports
import Mathlib.Data.List.Induction
/-!
# Open orders

Each trader keeps, symbol by symbol, the ids of the orders that the exchange has open. Three things
write to them: polled reports, orders tracked by hand, and forced refreshes, which may stop at any
of their queries (`Fetch`). Whatever is written is read as a course of notices (`OrderNotice`), each
a whole snapshot of a symbol or one more of its orders.

A trader knows an order exactly if some notice names it for a symbol and no snapshot of that symbol
came after it (`Engine.knows_iff_stands`). The wildcard has no snapshots: reports on it are left
out, and so is what a forced refresh reads for it, where a trader has it among its symbols.
-/

namespace MarketEngine

variable {α : Type}

/-! ## Notices -/

/-- What a trader is told of the orders that the exchange has open. -/
inductive OrderNotice where
  /-- The open orders of a symbol, all of them. -/
  | snapshot (symbol : Symbol) (ids : List String)
  /-- One more open order of a symbol. -/
  | tracked (symbol : Symbol) (id : String)
  deriving Repr, DecidableEq

namespace OrderNotice

/-- Whether this order is named as an open one of the symbol. -/
def Names (symbol : Symbol) (id : String) : OrderNotice → Prop
  | snapshot symbol' ids => symbol' = symbol ∧ id ∈ ids
  | tracked symbol' id' => symbol' = symbol ∧ id' = id

/-- Whether the other open orders of the symbol are void from here on. -/
def IsSnapshotOf (symbol : Symbol) : OrderNotice → Prop
  | snapshot symbol' _ => symbol' = symbol
  | tracked .. => False

/-- After these notices the order stands as an open one of the symbol: it was in the last snapshot
of the symbol or was tracked since. -/
def Stands (notices : List OrderNotice) (symbol : Symbol) (id : String) : Prop :=
  ∃ before notice later, notices = before ++ notice :: later ∧ notice.Names symbol id ∧
    ∀ notice' ∈ later, ¬ notice'.IsSnapshotOf symbol

/-- Without a notice no order stands. -/
theorem not_stands_nil {symbol : Symbol} {id : String} : ¬ Stands [] symbol id := by
  rintro ⟨before, notice, later, h, -, -⟩
  simp at h

/-- After one more notice an order stands if that names it, or if it stood before and the notice is
no snapshot of its symbol. -/
theorem stands_concat {notices : List OrderNotice} {notice : OrderNotice} {symbol : Symbol}
    {id : String} : Stands (notices ++ [notice]) symbol id ↔
      notice.Names symbol id ∨ Stands notices symbol id ∧ ¬ notice.IsSnapshotOf symbol := by
  constructor
  · rintro ⟨before, named, later, h, hnamed, hlater⟩
    -- the last notice names the order itself, or stands behind the one that does
    rcases later.eq_nil_or_concat' with rfl | ⟨later', last, rfl⟩
    · obtain rfl : notice = named := by simpa using (List.append_inj' h rfl).2
      exact .inl hnamed
    · rw [← List.cons_append, ← List.append_assoc] at h
      obtain ⟨rfl, hlast⟩ := List.append_inj' h rfl
      obtain rfl : notice = last := by simpa using hlast
      rw [List.forall_mem_append, List.forall_mem_singleton] at hlater
      exact .inr ⟨⟨before, named, later', rfl, hnamed, hlater.1⟩, hlater.2⟩
  · rintro (hnamed | ⟨⟨before, named, later, rfl, hnamed, hlater⟩, hlast⟩)
    · exact ⟨notices, notice, [], rfl, hnamed, by simp⟩
    · refine ⟨before, named, later ++ [notice], by simp, hnamed, ?_⟩
      rw [List.forall_mem_append, List.forall_mem_singleton]
      exact ⟨hlater, hlast⟩

/-- Writes a notice into the ids that are known. -/
def write (known : Table Symbol (List String)) : OrderNotice → Table Symbol (List String)
  | snapshot symbol ids => known.put symbol ids
  | tracked symbol id => known.modify symbol [] (· ++ [id])

/-- What a report of open orders tells. -/
def ofReport (symbol : Symbol) (orders : List (ExchangeOrder α)) : List OrderNotice :=
  if symbol == Symbol.wildcard then [] else [.snapshot symbol (orders.map (·.id))]

/-- What several reports tell. -/
def ofReports (reports : List (Symbol × List (ExchangeOrder α))) : List OrderNotice :=
  reports.flatMap fun report => ofReport report.1 report.2

/-- Under the symbol stands a list with the order. -/
def Listed (known : Table Symbol (List String)) (symbol : Symbol) (id : String) : Prop :=
  ∃ ids, known.get? symbol = some ids ∧ id ∈ ids

/-- A notice is written under one symbol. -/
theorem nodup_write {known : Table Symbol (List String)} (h : known.keys.Nodup)
    (notice : OrderNotice) : (write known notice).keys.Nodup := by
  cases notice <;> exact Table.nodup_keys_put h _ _

/-- A notice that is written lists what it names, and a snapshot takes off the list what it does
not. -/
theorem listed_write {known : Table Symbol (List String)} {notice : OrderNotice} {symbol : Symbol}
    {id : String} : Listed (write known notice) symbol id ↔
      notice.Names symbol id ∨ Listed known symbol id ∧ ¬ notice.IsSnapshotOf symbol := by
  cases notice with
  | snapshot symbol' ids =>
    by_cases hsymbol : symbol' = symbol <;>
      simp [Listed, write, Table.get?_put, Names, IsSnapshotOf, hsymbol, eq_comm (a := symbol)]
  | tracked symbol' id' =>
    by_cases hsymbol : symbol' = symbol
    · subst hsymbol
      cases hids : known.get? symbol' <;>
        simp [Listed, write, Table.get?_modify, Names, IsSnapshotOf, hids, or_comm, eq_comm]
    · simp [Listed, write, Table.get?_modify, Names, IsSnapshotOf, hsymbol, eq_comm (a := symbol)]

/-- Each symbol has one list. -/
theorem nodup_foldl_write (notices : List OrderNotice) :
    (notices.foldl write []).keys.Nodup := by
  induction notices using List.reverseRecOn with
  | nil => exact List.nodup_nil
  | append_singleton notices notice ih =>
    rw [List.foldl_append, List.foldl_cons, List.foldl_nil]
    exact nodup_write ih notice

/-- The ids that are known after some notices are those that stand. -/
theorem listed_foldl_write (notices : List OrderNotice) (symbol : Symbol) (id : String) :
    Listed (notices.foldl write []) symbol id ↔ Stands notices symbol id := by
  induction notices using List.reverseRecOn with
  | nil => simp [Listed, Table.get?, not_stands_nil]
  | append_singleton notices notice ih =>
    rw [List.foldl_append, List.foldl_cons, List.foldl_nil, listed_write, ih, stands_concat]

end OrderNotice

namespace Trader

/-- A trader knows an order if it is on some list. -/
theorem knows_iff_listed {t : Trader α} (h : t.known.keys.Nodup) {id : String} :
    t.knows id = true ↔ ∃ symbol, OrderNotice.Listed t.known symbol id := by
  simp only [knows, List.any_eq_true, List.contains_iff_mem, OrderNotice.Listed,
    Table.get?_eq_some_iff h, Prod.exists]

/-- A report replaces the list of its symbol, as its snapshot says; for the wildcard it tells
nothing. -/
theorem replaceKnown_eq (t : Trader α) (symbol : Symbol) (orders : List (ExchangeOrder α)) :
    t.replaceKnown symbol orders =
      { t with known := (OrderNotice.ofReport symbol orders).foldl OrderNotice.write t.known } := by
  unfold replaceKnown OrderNotice.ofReport
  split <;> rfl

/-- Reports replace the lists one after the other. -/
theorem foldl_replaceKnown (t : Trader α) (reports : List (Symbol × List (ExchangeOrder α))) :
    reports.foldl (fun t report => t.replaceKnown report.1 report.2) t =
      { t with known := (OrderNotice.ofReports reports).foldl OrderNotice.write t.known } := by
  induction reports generalizing t with
  | nil => rfl
  | cons report rest ih =>
    have hnotices : OrderNotice.ofReports (report :: rest) =
        OrderNotice.ofReport report.1 report.2 ++ OrderNotice.ofReports rest := List.flatMap_cons
    rw [List.foldl_cons, ih, replaceKnown_eq, hnotices, List.foldl_append]

end Trader

/-! ## Forced refreshes -/

/-- What a forced refresh reads before it is through or a query fails. -/
structure Fetch (α : Type) where
  balances : Option (List (AssetBalance α)) := none
  /-- The open orders by symbol, in the order of the queries. -/
  orders : List (Symbol × List (ExchangeOrder α)) := []
  failure : Option RefreshFailure := none

namespace Fetch

section

variable {σ : Type} [Exchange σ α]

/-- Asks for the open orders of symbols in turn, up to the first query that fails. -/
def openOrders (ex : σ) :
    List Symbol → (List (Symbol × List (ExchangeOrder α)) × Option RefreshFailure) × σ
  | [] => (([], none), ex)
  | symbol :: rest =>
    match Exchange.openOrders ex symbol with
    | (.error cause, ex) => (([], some ⟨.openOrders symbol, cause⟩), ex)
    | (.ok orders, ex) =>
      let ((reports, failure), ex) := openOrders ex rest
      (((symbol, orders) :: reports, failure), ex)

/-- Asks for the balances, and then for the open orders. -/
def run (ex : σ) (symbols : List Symbol) : Fetch α × σ :=
  match Exchange.balances ex with
  | (.error cause, ex) => ({ failure := some ⟨.balances, cause⟩ }, ex)
  | (.ok reported, ex) =>
    let ((orders, failure), ex) := openOrders ex symbols
    ({ balances := some reported, orders, failure }, ex)

end

/-- What was read is what stands before the query that failed, the balances first and then the
symbols in turn; where none failed, it is everything. -/
def EndsAtFailure (f : Fetch α) (symbols : List Symbol) : Prop :=
  match f.failure with
  | none => f.balances.isSome ∧ f.orders.map (·.1) = symbols
  | some ⟨.balances, _⟩ => f.balances = none ∧ f.orders = []
  | some ⟨.openOrders symbol, _⟩ =>
    f.balances.isSome ∧ f.orders.map (·.1) ++ [symbol] <+: symbols

/-- The portfolio with the balances that were read. -/
def portfolio (f : Fetch α) (p : Portfolio α) : Portfolio α := f.balances.elim p p.sync

/-- The trader with the open orders that were read. -/
def trader (f : Fetch α) (t : Trader α) : Trader α :=
  { t with known := (OrderNotice.ofReports f.orders).foldl OrderNotice.write t.known }

variable {σ : Type} [Exchange σ α]

/-- The queries are answered in turn, for all symbols or up to the one where they fail. -/
theorem openOrders_spec (ex : σ) (symbols : List Symbol) :
    match (openOrders ex symbols).1.2 with
    | none => (openOrders ex symbols).1.1.map (·.1) = symbols
    | some ⟨stage, _⟩ => ∃ symbol, stage = .openOrders symbol ∧
        (openOrders ex symbols).1.1.map (·.1) ++ [symbol] <+: symbols := by
  induction symbols generalizing ex with
  | nil => rfl
  | cons symbol rest ih =>
    rw [openOrders]
    rcases Exchange.openOrders ex symbol with ⟨cause | orders, ex'⟩
    · exact ⟨symbol, rfl, by simp⟩
    · have hrest := ih ex'
      dsimp only
      generalize openOrders ex' rest = result at hrest
      obtain ⟨⟨reports, failure⟩, ex''⟩ := result
      cases failure with
      | none => exact congrArg (symbol :: ·) hrest
      | some failure =>
        obtain ⟨symbol', hstage, hprefix⟩ := hrest
        exact ⟨symbol', hstage, List.prefix_cons_inj symbol |>.2 hprefix⟩

/-- What a forced refresh reads ends where the first query fails. -/
theorem run_endsAtFailure (ex : σ) (symbols : List Symbol) :
    (run ex symbols).1.EndsAtFailure symbols := by
  unfold run EndsAtFailure
  rcases Exchange.balances ex with ⟨cause | reported, ex'⟩
  · exact ⟨rfl, rfl⟩
  · have horders := openOrders_spec ex' symbols
    dsimp only
    generalize openOrders ex' symbols = result at horders
    obtain ⟨⟨reports, _ | ⟨stage, cause⟩⟩, ex''⟩ := result
    · exact ⟨rfl, horders⟩
    · obtain ⟨symbol, rfl, hprefix⟩ := horders
      exact ⟨rfl, hprefix⟩

/-- A trader replaces its lists by the reports that came before a failure. -/
theorem refreshOrders_eq (t : Trader α) (ex : σ) (symbols : List Symbol) :
    t.refreshOrders ex symbols =
      (((openOrders ex symbols).1.1.foldl (fun t report => t.replaceKnown report.1 report.2) t,
        (openOrders ex symbols).1.2), (openOrders ex symbols).2) := by
  induction symbols generalizing t ex with
  | nil => rfl
  | cons symbol rest ih =>
    rw [Trader.refreshOrders, openOrders]
    rcases Exchange.openOrders ex symbol with ⟨cause | orders, ex'⟩
    · rfl
    · exact ih _ _

/-- A forced refresh takes over what it reads, and nothing else happens to the trader and the
portfolio. -/
theorem forceRefresh_eq (t : Trader α) (p : Portfolio α) (ex : σ) :
    t.forceRefresh p ex =
      (((run ex t.symbols).1.trader t, (run ex t.symbols).1.portfolio p,
        (run ex t.symbols).1.failure), (run ex t.symbols).2) := by
  unfold Trader.forceRefresh run
  rcases Exchange.balances ex with ⟨cause | reported, ex'⟩
  · rfl
  · simp only [refreshOrders_eq, Trader.foldl_replaceKnown]
    rfl

end Fetch

/-! ## What happens to traders -/

/-- What may happen to the traders of an engine, named by their numbers. -/
inductive TraderEvent (σ α : Type) where
  /-- A trader's consumer handles polled open orders. -/
  | report (trader : Nat) (key : RoutingKey) (orders : List (ExchangeOrder α))
  | track (trader : Nat) (symbol : Symbol) (id : String)
  | refresh (trader : Nat)
  /-- Anything else that happens to the engine. -/
  | other (f : Engine σ α → Engine σ α)

/-- Everything else leaves the traders what they know of the exchange's orders. -/
def TraderEvent.IsFair {σ : Type} : TraderEvent σ α → Prop
  | .other f =>
    ∀ e, (f e).desk.traders.map Trader.knowledge = e.desk.traders.map Trader.knowledge
  | _ => True

namespace Engine

variable {σ : Type} [Exchange σ α]

/-- A forced refresh leaves a trader and the portfolio with what was read, also if it fails. -/
theorem refreshTrader_eq {e : Engine σ α} {i : Nat} {t : Trader α}
    (ht : e.desk.traders[i]? = some t) :
    e.refreshTrader i =
      ({ e with
          exchange := (Fetch.run e.exchange t.symbols).2
          desk := { e.desk with
            portfolio := (Fetch.run e.exchange t.symbols).1.portfolio e.desk.portfolio
            traders := e.desk.traders.set i ((Fetch.run e.exchange t.symbols).1.trader t) } },
        (Fetch.run e.exchange t.symbols).1.failure) := by
  unfold refreshTrader
  rw [ht]
  simp only [Fetch.forceRefresh_eq]

variable [Amount α] [Written α]

/-- The engine after an event. -/
def meet (e : Engine σ α) : TraderEvent σ α → Engine σ α
  | .report i key orders => (startMessage (.openOrders i) ⟨key, .orders orders⟩ e).2
  | .track i symbol id =>
    e.modifyDesk fun d => { d with traders := d.traders.modify i (·.track symbol id) }
  | .refresh i => (e.refreshTrader i).1
  | .other f => f e

/-- What an event tells the trader with the number `i`. -/
def tells (e : Engine σ α) (i : Nat) : TraderEvent σ α → List OrderNotice
  | .report j key orders => if j = i then OrderNotice.ofReport key.symbol orders else []
  | .track j symbol id => if j = i then [.tracked symbol id] else []
  | .refresh j =>
    if j = i then
      e.desk.traders[i]?.elim [] fun t =>
        OrderNotice.ofReports (Fetch.run e.exchange t.symbols).1.orders
    else []
  | .other _ => []

/-- What a course of events tells the trader with the number `i`. -/
def notices (i : Nat) : Engine σ α → List (TraderEvent σ α) → List OrderNotice
  | _, [] => []
  | e, event :: rest => e.tells i event ++ notices i (e.meet event) rest

omit [Exchange σ α] [Amount α] [Written α] in
/-- A trader that is left with what it knows is still there. -/
theorem exists_of_knowledge {e e' : Engine σ α} {i : Nat} {t : Trader α}
    (h : e'.desk.traders.map Trader.knowledge = e.desk.traders.map Trader.knowledge)
    (ht : e.desk.traders[i]? = some t) :
    ∃ t', e'.desk.traders[i]? = some t' ∧ t'.knowledge = t.knowledge := by
  have hget := congrArg (·[i]?) h
  simp only [List.getElem?_map, ht, Option.map_some] at hget
  exact Option.map_eq_some_iff.1 hget

/-- One event: the trader takes in what it is told, and only that. -/
theorem meet_spec {e : Engine σ α} {i : Nat} {t : Trader α} (ht : e.desk.traders[i]? = some t)
    {event : TraderEvent σ α} (hfair : event.IsFair) :
    ∃ t', (e.meet event).desk.traders[i]? = some t' ∧ t'.knowledge =
      (t.name, t.symbols, (e.tells i event).foldl OrderNotice.write t.known) := by
  cases event with
  | report j key orders =>
    by_cases hj : j = i
    · subst hj
      refine ⟨t.replaceKnown key.symbol orders, by simp [meet, startMessage, ht], ?_⟩
      rw [Trader.replaceKnown_eq, tells, if_pos rfl]
      rfl
    · exact ⟨t, by simp [meet, startMessage, hj, ht],
        by simp [tells, hj, Trader.knowledge]⟩
  | track j symbol id =>
    by_cases hj : j = i
    · subst hj
      exact ⟨t.track symbol id, by simp [meet, modifyDesk, ht],
        by simp [tells, Trader.knowledge, Trader.track, OrderNotice.write]⟩
    · exact ⟨t, by simp [meet, modifyDesk, hj, ht],
        by simp [tells, hj, Trader.knowledge]⟩
  -- a refresh asks for each symbol, up to the first that fails
  | refresh j =>
    by_cases hj : j = i
    · subst hj
      have hlt : j < e.desk.traders.length := (List.getElem?_eq_some_iff.1 ht).1
      refine ⟨(Fetch.run e.exchange t.symbols).1.trader t, ?_, ?_⟩
      · simp [meet, refreshTrader_eq ht, hlt]
      · simp [tells, ht, Fetch.trader, Trader.knowledge]
    · refine ⟨t, ?_, by simp [tells, hj, Trader.knowledge]⟩
      cases hother : e.desk.traders[j]? with
      | none => simpa [meet, refreshTrader, hother] using ht
      | some other => simpa [meet, refreshTrader_eq hother, List.getElem?_set_ne hj] using ht
  | other f => exact exists_of_knowledge (hfair e) ht

/-- A course of events: the trader takes in what it is told, and only that. -/
theorem meet_foldl_spec {events : List (TraderEvent σ α)} (hfair : ∀ event ∈ events, event.IsFair)
    {e : Engine σ α} {i : Nat} {t : Trader α} (ht : e.desk.traders[i]? = some t) :
    ∃ t', (events.foldl meet e).desk.traders[i]? = some t' ∧ t'.knowledge =
      (t.name, t.symbols, (notices i e events).foldl OrderNotice.write t.known) := by
  induction events generalizing e t with
  | nil => exact ⟨t, ht, rfl⟩
  | cons event rest ih =>
    rw [List.forall_mem_cons] at hfair
    obtain ⟨t', ht', hknowledge⟩ := meet_spec ht hfair.1
    obtain ⟨t'', ht'', hrest⟩ := ih hfair.2 ht'
    refine ⟨t'', ht'', ?_⟩
    obtain ⟨hname, hsymbols, hknown⟩ :
      t'.name = t.name ∧ t'.symbols = t.symbols ∧
        t'.known = (e.tells i event).foldl OrderNotice.write t.known := by
      simpa [Trader.knowledge] using hknowledge
    rw [hrest, hname, hsymbols, hknown, notices, List.foldl_append]

/-! ### Known orders -/

/-- Whatever happens to a trader that knew of no orders at first: it knows an order exactly if the
order was in the last snapshot of some symbol or was tracked for it since, where snapshots are the
polled reports on a symbol other than the wildcard and what forced refreshes read for such a symbol
before a query failed. A forced refresh keeps what it read before the query that failed, and changes
nothing else. -/
theorem knows_iff_stands {e : Engine σ α} {i : Nat} {t : Trader α}
    (ht : e.desk.traders[i]? = some t) (hknown : t.known = []) {events : List (TraderEvent σ α)}
    (hfair : ∀ event ∈ events, event.IsFair) :
    ∃ t', (events.foldl meet e).desk.traders[i]? = some t' ∧ t'.symbols = t.symbols ∧
      (∀ id, t'.knows id = true ↔ ∃ symbol, OrderNotice.Stands (notices i e events) symbol id) ∧
      ∃ fetch exchange,
        Fetch.run (events.foldl meet e).exchange t'.symbols = (fetch, exchange) ∧
        fetch.EndsAtFailure t'.symbols ∧
        (events.foldl meet e).refreshTrader i =
          ({ events.foldl meet e with
              exchange
              desk := { (events.foldl meet e).desk with
                portfolio := fetch.portfolio (events.foldl meet e).desk.portfolio
                traders := (events.foldl meet e).desk.traders.set i (fetch.trader t') } },
            fetch.failure) := by
  obtain ⟨t', ht', hknowledge⟩ := meet_foldl_spec hfair ht
  obtain ⟨-, hsymbols, hafter⟩ :
      t'.name = t.name ∧ t'.symbols = t.symbols ∧
        t'.known = (notices i e events).foldl OrderNotice.write t.known := by
    simpa [Trader.knowledge] using hknowledge
  rw [hknown] at hafter
  have hnodup : t'.known.keys.Nodup := hafter ▸ OrderNotice.nodup_foldl_write _
  refine ⟨t', ht', hsymbols, fun id => ?_, _, _, rfl, Fetch.run_endsAtFailure _ _,
    refreshTrader_eq ht'⟩
  rw [Trader.knows_iff_listed hnodup, hafter]
  simp only [OrderNotice.listed_foldl_write]

/-- An engine with one trader, who has these symbols, and nothing to match. -/
def ofTrader (symbols : List Symbol) (exchange : ScriptedExchange ℚ) :
    Engine (ScriptedExchange ℚ) ℚ :=
  { exchangeName := "sim", exchange, market := ⟨1, 1, []⟩
    feed := { symbols, timeFrames := [], limit := 1, replays := false }
    desk := ⟨.empty 1, ⟨[]⟩, ⟨0, 0⟩, 1, [{ name := "simulator", symbols }]⟩
    exporter := { place := "" } }

/-- An open order of the exchange. -/
def anOrder (id : String) (symbol : Symbol) : ExchangeOrder ℚ :=
  { id, symbol, side := .buy, price := 100, quantity := 1, filled := 0, timestamp := 0 }

/-- The exchange fails to answer the first query for open orders. -/
def hesitant : Engine (ScriptedExchange ℚ) ℚ :=
  ofTrader ["BTC/USDT"] (ScriptedExchange.addMishap
    (ScriptedExchange.setOpenOrders {} "BTC/USDT" [anOrder "b" "BTC/USDT"])
    .openOrders (.unavailable "down"))

/-- An order is tracked, another one is polled, and of two forced refreshes the first one fails. -/
def hesitantEvents : List (TraderEvent (ScriptedExchange ℚ) ℚ) :=
  [.track 0 "BTC/USDT" "a", .report 0 ⟨"ETH/USDT", none⟩ [anOrder "e" "ETH/USDT"], .refresh 0,
    .refresh 0]

/-- The snapshot of the second refresh takes the place of what was tracked before. -/
theorem knows_iff_stands_hesitant :
    ∃ t, (hesitantEvents.foldl meet hesitant).desk.traders[0]? = some t ∧
      ∀ id, t.knows id = true ↔ ∃ symbol, OrderNotice.Stands
        [.tracked "BTC/USDT" "a", .snapshot "ETH/USDT" ["e"], .snapshot "BTC/USDT" ["b"]]
        symbol id := by
  have hnotices : notices 0 hesitant hesitantEvents =
      [.tracked "BTC/USDT" "a", .snapshot "ETH/USDT" ["e"], .snapshot "BTC/USDT" ["b"]] := by
    decide +kernel
  have hfair : ∀ event ∈ hesitantEvents, event.IsFair := by
    simp [hesitantEvents, TraderEvent.IsFair]
  obtain ⟨t, ht, -, hknows, -⟩ := knows_iff_stands (e := hesitant) (i := 0) rfl rfl hfair
  rw [hnotices] at hknows
  exact ⟨t, ht, hknows⟩

/-- A trader with the wildcard among its symbols asks for the open orders on it, and leaves the
answer aside: the order is in the last snapshot that was read, and is not known. -/
theorem wildcard_unknown :
    let e := ofTrader ["*"] (ScriptedExchange.setOpenOrders {} "*" [anOrder "x" "*"])
    (e.refreshTrader 0).2 = none ∧
      OrderNotice.Stands ((Fetch.run e.exchange ["*"]).1.orders.map fun report =>
        .snapshot report.1 (report.2.map (·.id))) "*" "x" ∧
      (e.refreshTrader 0).1.desk.traders.map (·.knows "x") = [false] := by
  refine ⟨by decide +kernel, ⟨[], .snapshot "*" ["x"], [], ?_, ⟨rfl, by simp⟩, by simp⟩,
    by decide +kernel⟩
  rfl

end Engine

end MarketEngine
