import MarketEngine.Exchange.Scripted
import MarketEngine.Proofs.Exact
import MarketEngine.Proofs.Trading.Turns
/-!
# The trading floor

The trading desk of an exchange together with the market it watches and the exchange its traders
ask, and what can happen there (`FloorEvent`). Besides its state, a floor keeps the report of every
matching pass with the orders as the pass left them, and whether balances of the exchange were ever
taken over. A forced update of all orders is a pass for every symbol (`Floor.desk_passAll`).

Nobody holds an order in these runs: whoever has a handle is done with the order before the next
event, so every pass goes through at once. A pass that has to wait for an order somebody holds is a
`SuspendedPass`, and is no event here.
-/

namespace MarketEngine

variable {σ α : Type}

structure Floor (σ α : Type) where
  market : Market α
  exchange : σ
  desk : Desk α
  /-- The report of every matching pass, with the orders as the pass left them. -/
  passes : List (MatchReport × OrderStore α) := []
  /-- Whether balances of the exchange were ever taken over. -/
  synced : Bool := false

/-- What can happen on a trading floor. -/
inductive FloorEvent (σ α : Type) where
  /-- An order is handed in. -/
  | add (o : Order α)
  | link (first second : String)
  /-- An order is canceled by somebody who has its handle. -/
  | cancel (handle : Nat)
  /-- The recent trades of a symbol come in. -/
  | trades (symbol : Symbol) (trades : List (Trade α))
  /-- A trader is told the exchange's open orders of a symbol. -/
  | openOrders (trader : Nat) (symbol : Symbol) (orders : List (ExchangeOrder α))
  | track (trader : Nat) (symbol : Symbol) (id : String)
  /-- The exchange's balances are taken over. -/
  | balances (reported : List (AssetBalance α))
  /-- A trader reads its orders and the balances anew. -/
  | refresh (trader : Nat)
  /-- The exchange comes to be in another state. -/
  | exchange (ex : σ)
  | pass (symbol : Symbol) (replayed : Bool)
  /-- The orders of every symbol are matched. -/
  | passAll (replayed : Bool)

/-- Whether orders are matched. -/
def FloorEvent.isPass : FloorEvent σ α → Bool
  | .pass _ _ => true
  | .passAll _ => true
  | _ => false

section Refreshing

variable [Exchange σ α]

/-- Whether one of these traders takes over balances when they read them anew in turn. -/
def Desk.syncs (d : Desk α) (ex : σ) : List String → Bool
  | [] => false
  | name :: rest =>
    let asked := d.refreshTrader ex name
    (d.trader? name).isSome && (Exchange.balances ex).1.isOk || asked.1.1.syncs asked.2 rest

/-- Whether a matching pass ends with balances being taken over. -/
def Desk.passSyncs [Amount α] (d : Desk α) (m : Market α) (ex : σ) (symbol : Symbol)
    (replayed : Bool) : Bool :=
  (d.window? m symbol).any fun window =>
    let p := d.pass symbol replayed window
    p.desk.syncs ex p.toRefresh

/-- A trader that reads its orders anew leaves the stored ones alone. -/
theorem Desk.orders_refreshTrader (d : Desk α) (ex : σ) (name : String) :
    (d.refreshTrader ex name).1.1.orders = d.orders := by
  unfold refreshTrader
  split
  · rfl
  · simp

/-- Traders that read their orders anew leave the stored ones alone. -/
theorem Desk.orders_refreshTraders (d : Desk α) (ex : σ) (names : List String) :
    (d.refreshTraders ex names).1.orders = d.orders := by
  induction names generalizing d ex with
  | nil => rfl
  | cons name rest ih => exact (ih _ _).trans (d.orders_refreshTrader ex name)

/-- A trader that is not told the balances leaves those of the portfolio alone. -/
theorem Desk.portfolio_refreshTrader {d : Desk α} {ex : σ} {name : String}
    (h : ((d.trader? name).isSome && (Exchange.balances ex).1.isOk) = false) :
    (d.refreshTrader ex name).1.1.portfolio = d.portfolio := by
  unfold refreshTrader
  cases ht : d.trader? name with
  | none => rfl
  | some t =>
    simp only [ht, Option.isSome_some, Bool.true_and] at h
    simp only [Trader.forceRefresh]
    rcases hanswer : Exchange.balances ex with ⟨answer, ex'⟩
    rw [hanswer] at h
    cases answer with
    | error cause => rfl
    | ok reported => simp [Except.isOk, Except.toBool] at h

/-- Unless a balance is taken over, traders that read their orders anew leave the portfolio alone.
-/
theorem Desk.portfolio_refreshTraders {d : Desk α} {ex : σ} {names : List String}
    (h : d.syncs ex names = false) : (d.refreshTraders ex names).1.portfolio = d.portfolio := by
  induction names generalizing d ex with
  | nil => rfl
  | cons name rest ih =>
    simp only [syncs, Bool.or_eq_false_iff] at h
    exact (ih h.2).trans (portfolio_refreshTrader h.1)

end Refreshing

namespace Floor

/-- A floor that has no orders yet. -/
def opening (market : Market α) (exchange : σ) (desk : Desk α) (mostOrders : Nat) : Floor σ α where
  market
  exchange
  desk := { desk with orders := .empty mostOrders }

def reports (f : Floor σ α) : List MatchReport := f.passes.map (·.1)

def withOrders (f : Floor σ α) (orders : OrderStore α) : Floor σ α :=
  { f with desk := { f.desk with orders } }

def withTraders (f : Floor σ α) (traders : List (Trader α)) : Floor σ α :=
  { f with desk := { f.desk with traders } }

variable [Exchange σ α] [Amount α]

/-- Matches the open orders of a symbol. -/
def pass (f : Floor σ α) (symbol : Symbol) (replayed : Bool) : Floor σ α :=
  let ((desk, report), exchange) := f.desk.matchSymbol f.market f.exchange symbol replayed
  { f with
    desk, exchange
    passes := f.passes ++ [(report, desk.orders)]
    synced := f.synced || f.desk.passSyncs f.market f.exchange symbol replayed }

/-- Matches the orders of every symbol that has stored orders at the beginning. -/
def passAll (f : Floor σ α) (replayed : Bool) : Floor σ α :=
  f.desk.orders.symbols.foldl (fun f symbol => f.pass symbol replayed) f

def step (f : Floor σ α) : FloorEvent σ α → Floor σ α
  | .add o =>
    match f.desk.orders.add o with
    | .ok orders => f.withOrders orders
    | .error _ => f
  | .link first second =>
    match f.desk.orders.link first second with
    | .ok orders => f.withOrders orders
    | .error _ => f
  | .cancel handle => f.withOrders (f.desk.orders.modify handle (·.cancel.1))
  | .trades symbol trades => { f with market := f.market.updateTrades symbol trades }
  | .openOrders trader symbol orders =>
    f.withTraders (f.desk.traders.modify trader (·.replaceKnown symbol orders))
  | .track trader symbol id => f.withTraders (f.desk.traders.modify trader (·.track symbol id))
  | .balances reported =>
    { f with
      desk := { f.desk with portfolio := f.desk.portfolio.sync reported }
      synced := true }
  | .refresh trader =>
    match f.desk.traders[trader]? with
    | none => f
    | some t =>
      let ((t, portfolio, _), exchange) := t.forceRefresh f.desk.portfolio f.exchange
      { f with
        desk := { f.desk with portfolio, traders := f.desk.traders.set trader t }
        exchange
        synced := f.synced || (Exchange.balances f.exchange).1.isOk }
  | .exchange exchange => { f with exchange }
  | .pass symbol replayed => f.pass symbol replayed
  | .passAll replayed => f.passAll replayed

def run (f : Floor σ α) (events : List (FloorEvent σ α)) : Floor σ α := events.foldl step f

/-! ## A forced update of all orders -/

/-- Passes for some symbols, one by one, do what the desk does for them in one go. -/
theorem foldl_pass (f : Floor σ α) (replayed : Bool) (symbols : List Symbol) :
    let g := symbols.foldl (fun f symbol => f.pass symbol replayed) f
    let r := f.desk.matchSymbols f.market f.exchange replayed symbols
    g.desk = r.1.1 ∧ g.reports = f.reports ++ r.1.2 ∧ g.exchange = r.2 ∧ g.market = f.market := by
  induction symbols generalizing f with
  | nil => simp [Desk.matchSymbols]
  | cons symbol rest ih =>
    obtain ⟨hdesk, hreports, hexchange, hmarket⟩ := ih (f.pass symbol replayed)
    refine ⟨hdesk, ?_, hexchange, hmarket⟩
    rw [List.foldl_cons, hreports]
    simp [reports, pass, Desk.matchSymbols]

/-- Matching every symbol pass by pass does what the desk does in one go. -/
theorem desk_passAll (f : Floor σ α) (replayed : Bool) :
    (f.passAll replayed).desk = (f.desk.matchAll f.market f.exchange replayed).1.1 ∧
    (f.passAll replayed).reports
      = f.reports ++ (f.desk.matchAll f.market f.exchange replayed).1.2 ∧
    (f.passAll replayed).exchange = (f.desk.matchAll f.market f.exchange replayed).2 := by
  obtain ⟨hdesk, hreports, hexchange, -⟩ := foldl_pass f replayed f.desk.orders.symbols
  exact ⟨hdesk, hreports, hexchange⟩

/-! ## What a step leaves alone -/

/-- What an event without matching comes to: no order gets filled, no report is left, and only the
exchange's balances change those of the portfolio. -/
structure Unmatched (f : Floor σ α) (e : FloorEvent σ α) (g : Floor σ α) : Prop where
  unfilled : f.desk.orders.Unfilled g.desk.orders
  added : (∀ o, e = .add o → o.isOpen = true) → ∀ handle, f.desk.orders.at? handle = none →
    g.desk.orders.status? handle ≠ some .filled
  passes_eq : g.passes = f.passes
  synced : g.synced = false → f.synced = false ∧ g.desk.portfolio = f.desk.portfolio

omit [Exchange σ α] [Amount α] in
/-- An event that leaves the orders and the reports as they were comes to no fill. -/
theorem Unmatched.of_eq {f g : Floor σ α} {e : FloorEvent σ α}
    (horders : g.desk.orders = f.desk.orders) (hpasses : g.passes = f.passes)
    (hsynced : g.synced = false → f.synced = false ∧ g.desk.portfolio = f.desk.portfolio) :
    f.Unmatched e g where
  unfilled := by
    rw [horders]
    exact .refl _
  added _ handle hnone := by simp [horders, OrderStore.status?, hnone]
  passes_eq := hpasses
  synced := hsynced

/-- An event without matching comes to no fill. -/
theorem step_spec (f : Floor σ α) {e : FloorEvent σ α} (he : e.isPass = false) :
    f.Unmatched e (f.step e) := by
  have hsame : ∀ e, f.Unmatched e f := fun e => .of_eq rfl rfl fun h => ⟨h, rfl⟩
  cases e with
  | add o =>
    simp only [step]
    split
    · next orders hadd =>
      exact ⟨OrderStore.unfilled_add hadd, fun hopen _ => OrderStore.status?_add hadd (hopen o rfl),
        rfl, fun h => ⟨h, rfl⟩⟩
    · exact hsame _
  | link first second =>
    simp only [step]
    split
    · next orders hlink =>
      refine ⟨OrderStore.unfilled_link hlink, fun _ handle hnone => ?_, rfl, fun h => ⟨h, rfl⟩⟩
      rw [withOrders, OrderStore.status?_link hlink, OrderStore.status?, hnone]
      simp
    · exact hsame _
  | cancel handle =>
    refine ⟨OrderStore.unfilled_cancel _ handle, fun _ k hnone => ?_, rfl, fun h => ⟨h, rfl⟩⟩
    simp [step, withOrders, OrderStore.status?, OrderStore.at?_modify, hnone]
  | balances reported => exact .of_eq rfl rfl fun h => by simp [step] at h
  | refresh trader =>
    simp only [step]
    split
    · exact hsame _
    · next t ht =>
      refine .of_eq rfl rfl fun h => ?_
      simp only [Bool.or_eq_false_iff] at h
      refine ⟨h.1, ?_⟩
      -- the trader was not told any balances
      rcases hanswer : Exchange.balances f.exchange with ⟨answer, ex⟩
      cases answer with
      | error cause => simp [Trader.forceRefresh, hanswer]
      | ok reported => simp [hanswer, Except.isOk, Except.toBool] at h
  | pass symbol replayed => simp [FloorEvent.isPass] at he
  | passAll replayed => simp [FloorEvent.isPass] at he
  | _ => exact .of_eq rfl rfl fun h => ⟨h, rfl⟩

/-- A pass ends with the orders as its visits left them, and takes them into its entry. -/
theorem pass_spec (f : Floor σ α) (symbol : Symbol) (replayed : Bool) :
    ∃ p : MatchingPass α,
      (p = { desk := f.desk } ∨ ∃ window, p = f.desk.pass symbol replayed window) ∧
      (f.pass symbol replayed).desk.orders = p.desk.orders ∧
      (f.pass symbol replayed).passes = f.passes ++ [(p.report, p.desk.orders)] ∧
      ((f.pass symbol replayed).synced = false →
        (f.pass symbol replayed).desk.portfolio = p.desk.portfolio) := by
  cases hwindow : f.desk.window? f.market symbol with
  | none =>
    exact ⟨_, .inl rfl, by simp [pass, Desk.matchSymbol, hwindow]⟩
  | some window =>
    refine ⟨_, .inr ⟨window, rfl⟩, ?_⟩
    simp only [pass, Desk.matchSymbol, hwindow, Desk.orders_refreshTraders, Desk.passSyncs,
      Option.any_some, Bool.or_eq_false_iff, true_and]
    exact fun hsyncs => Desk.portfolio_refreshTraders hsyncs.2

/-! ## What a run keeps -/

/-- What events without matching and passes keep, every run keeps. A forced update of all orders is
covered by its passes. -/
theorem run_induction {motive : Floor σ α → Prop} {events : List (FloorEvent σ α)}
    (hstep : ∀ f, motive f → ∀ e ∈ events, e.isPass = false → motive (f.step e))
    (hpass : ∀ f, motive f → ∀ symbol replayed, motive (f.pass symbol replayed))
    {f : Floor σ α} (hf : motive f) : motive (f.run events) := by
  have hpasses : ∀ (symbols : List Symbol) (replayed : Bool) (f : Floor σ α), motive f →
      motive (symbols.foldl (fun f symbol => f.pass symbol replayed) f) := by
    intro symbols replayed
    induction symbols with
    | nil => exact fun f hf => hf
    | cons symbol rest ih => exact fun f hf => ih _ (hpass f hf symbol replayed)
  induction events generalizing f with
  | nil => exact hf
  | cons e rest ih =>
    refine ih (fun f hf e he => hstep f hf e (List.mem_cons_of_mem _ he)) ?_
    -- a forced update is a pass for each symbol in turn
    cases he : e.isPass with
    | false => exact hstep f hf e List.mem_cons_self he
    | true =>
      cases e with
      | pass symbol replayed => exact hpass f hf symbol replayed
      | passAll replayed => exact hpasses _ replayed f hf
      | _ => simp [FloorEvent.isPass] at he

/-! ## A position with a bracket

A position is to be sold at a profit or, should the price fall, at a loss, but only once. -/

def bracketFloor : Floor (ScriptedExchange ℚ) ℚ :=
  opening ⟨10, 10, []⟩ {} ⟨.empty 0, ⟨[("BTC", 5), ("USDT", 1000)]⟩, ⟨0, 1 / 1000⟩, 10, []⟩ 3

def bracketOrders : List (FloorEvent (ScriptedExchange ℚ) ℚ) :=
  [.add (.new "target" "BTC/USDT" .sellLimit 110 1 "sim" 0),
    .add (.new "stop" "BTC/USDT" .stopLoss 90 1 "sim" 0),
    -- more than there is money for
    .add (.new "more" "BTC/USDT" .buyMarket 0 20 "sim" 0)]

def bracketMatching : List (FloorEvent (ScriptedExchange ℚ) ℚ) :=
  [.trades "BTC/USDT" [⟨115, 1, 5⟩], .pass "BTC/USDT" false]

end Floor

end MarketEngine
