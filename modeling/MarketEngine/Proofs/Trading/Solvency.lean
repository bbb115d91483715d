import MarketEngine.Proofs.Evaluation.Wiring
import MarketEngine.Proofs.Trading.Closings
import MarketEngine.Proofs.Trading.Floor
import Mathlib.Tactic.NormNum
import Mathlib.Tactic.Ring
/-!
# Solvency

With exact amounts, a fill overdraws no currency unless what it brings in is negative
(`Portfolio.Solvent.applyFill`): the funds check covers what leaves. What an order brings in is not
negative if its quantity is not, and, for a sell, if its price is not and its fee is at most its
value (`Order.Covered`). As long as the filled orders are such, no balance is ever below zero
(`Session.never_overdrawn`). Settings and orders that are not are accepted all the same
(`Session.overdrawn`).
-/

namespace MarketEngine

/-! ## The money of a fill -/

namespace Portfolio

/-- No balance is below zero. -/
def Solvent (p : Portfolio ℚ) : Prop := ∀ currency, 0 ≤ p.balance currency

/-- A balance that is set is read back, and the others are as they were. -/
theorem balance_setBalance {α : Type} [Amount α] (p : Portfolio α) (c c' : Currency) (x : α) :
    (p.setBalance c x).balance c' = if c' = c then x else p.balance c' := by
  simp only [balance, setBalance, Table.get?_put, beq_iff_eq]
  split <;> rfl

/-- Who holds nothing below zero is solvent, since a currency that is not held counts as zero. -/
theorem solvent_of_nonneg {balances : Table Currency ℚ} (h : ∀ entry ∈ balances, 0 ≤ entry.2) :
    Solvent ⟨balances⟩ := by
  intro currency
  induction balances with
  | nil => exact le_refl (0 : ℚ)
  | cons entry rest ih =>
    obtain ⟨key, x⟩ := entry
    simp only [balance, Table.get?, List.lookup_cons]
    split
    · exact h _ List.mem_cons_self
    · exact ih fun entry hentry => h entry (List.mem_cons_of_mem _ hentry)

/-- A balance that is not below zero can be set. -/
theorem Solvent.setBalance {p : Portfolio ℚ} (h : p.Solvent) (c : Currency) {x : ℚ} (hx : 0 ≤ x) :
    (p.setBalance c x).Solvent := by
  intro c'
  rw [balance_setBalance]
  split
  · exact hx
  · exact h c'

/-- What a fill brings in: the quantity on a buy, and the value less the fee on a sell. -/
def income (side : Side) (price quantity fee : ℚ) : ℚ :=
  match side with
  | .buy => quantity
  | .sell => price * quantity - fee

/-- What leaves is checked for, so a fill overdraws nothing unless what it brings in is negative. -/
theorem Solvent.applyFill {p p' : Portfolio ℚ} (h : p.Solvent) {symbol : Symbol} {side : Side}
    {price quantity fee : ℚ} (hpay : p.applyFill symbol side price quantity fee = .ok p')
    (hincome : 0 ≤ income side price quantity fee) : p'.Solvent := by
  unfold Portfolio.applyFill at hpay
  cases side with
  | buy =>
    dsimp only at hpay
    split at hpay
    · simp at hpay
    · next hfunds =>
      rw [Except.ok.injEq] at hpay
      have hleft : 0 ≤ p.balance symbol.currencies.2 - (price * quantity + fee) :=
        sub_nonneg.2 (not_lt.1 hfunds)
      have hpaid := h.setBalance symbol.currencies.2 hleft
      rw [← hpay]
      exact hpaid.setBalance _ (add_nonneg (hpaid _) hincome)
  | sell =>
    dsimp only at hpay
    split at hpay
    · simp at hpay
    · next hfunds =>
      rw [Except.ok.injEq] at hpay
      have hleft : 0 ≤ p.balance symbol.currencies.1 - quantity := sub_nonneg.2 (not_lt.1 hfunds)
      have hpaid := h.setBalance symbol.currencies.1 hleft
      rw [← hpay]
      exact hpaid.setBalance _ (add_nonneg (hpaid _) hincome)

end Portfolio

/-! ## Orders that bring something in -/

namespace Order

/-- A market order is filled at the price of a trade, and any other one at its own. -/
theorem price_of_decision {α : Type} [Amount α] {o : Order α} {replayed : Bool}
    {window : List (Trade α)} {price : α} (h : o.decision replayed window = some price) :
    (∃ t ∈ window, t.price = price) ∨ o.kind ≠ .sellMarket ∧ price = o.price := by
  have hlast : ((window.filter (o.counts replayed)).map (·.price)).getLast? = some price →
      ∃ t ∈ window, t.price = price := fun hlast => by
    obtain ⟨t, ht, hprice⟩ := List.mem_map.1 (List.mem_of_getLast? hlast)
    exact ⟨t, (List.mem_filter.1 ht).1, hprice⟩
  have hany : ∀ {b : Bool}, (if b = true then some o.price else none) = some price →
      price = o.price := by
    intro b hb
    split at hb
    · exact (Option.some.inj hb).symm
    · simp at hb
  simp only [decision, trigger] at h
  cases hkind : o.kind with
  | buyMarket => exact .inl (hlast (by simpa [hkind] using h))
  | sellMarket => exact .inl (hlast (by simpa [hkind] using h))
  | _ =>
    rw [hkind] at h
    exact .inr ⟨by simp, hany h⟩

/-- Whatever window fills the order brings something in, or nothing: its quantity is not negative,
and a sell has a price of its own that is not, or takes that of a trade, and pays at most the whole
value as its fee. -/
structure Covered (fees : FeeSchedule ℚ) (o : Order ℚ) : Prop where
  quantity : 0 ≤ o.quantity
  price : o.side = .sell → o.kind = .sellMarket ∨ 0 ≤ o.price
  fee : o.side = .sell → fees.rate o.kind ≤ 1

variable {fees : FeeSchedule ℚ} {o o' : Order ℚ}

/-- Whether an order is covered depends on its terms only. -/
theorem Covered.of_terms (h : o.Covered fees) (hterms : o'.terms = o.terms) : o'.Covered fees := by
  have hquantity : o'.quantity = o.quantity := congrArg (·.quantity) hterms
  have hprice : o'.price = o.price := congrArg (·.price) hterms
  have hkind : o'.kind = o.kind := congrArg (·.kind) hterms
  refine ⟨hquantity ▸ h.quantity, ?_, ?_⟩
  · rw [side, hkind, hprice]
    exact h.price
  · rw [side, hkind]
    exact h.fee

/-- Whatever fills a covered order, it brings in nothing below zero. A sale at a price that is not
negative costs at most its whole value. -/
theorem Covered.income_nonneg (h : o.Covered fees) {replayed : Bool} {window : List (Trade ℚ)}
    (hwindow : ∀ t ∈ window, 0 ≤ t.price) {price : ℚ}
    (hprice : o.decision replayed window = some price) :
    0 ≤ Portfolio.income o.side price o.quantity (o.feeAt fees price).cost := by
  unfold Portfolio.income
  cases hside : o.side with
  | buy => exact h.quantity
  | sell =>
    have hpositive : 0 ≤ price := by
      rcases price_of_decision hprice with ⟨t, ht, rfl⟩ | ⟨hkind, rfl⟩
      · exact hwindow t ht
      · exact (h.price hside).resolve_left hkind
    have hrate := h.fee hside
    have hvalue : 0 ≤ price * o.quantity := mul_nonneg hpositive h.quantity
    calc (0 : ℚ) ≤ price * o.quantity * (1 - fees.rate o.kind) :=
          mul_nonneg hvalue (sub_nonneg.2 hrate)
      _ = price * o.quantity - o.quantity * price * fees.rate o.kind := by ring

end Order

/-! ## Passes -/

/-- Nothing is overdrawn as long as every filled order is covered. -/
structure Desk.Careful (fees : FeeSchedule ℚ) (d : Desk ℚ) : Prop where
  fees_eq : d.fees = fees
  solvent : (∀ ⦃handle : Nat⦄ ⦃o : Order ℚ⦄, d.orders.at? handle = some o → o.status = .filled →
    o.Covered fees) → d.portfolio.Solvent

section Careful

variable {fees : FeeSchedule ℚ} {d d' : Desk ℚ}

/-- Where the filled orders of a store that aged are covered, the portfolio is solvent. -/
theorem Desk.Careful.solvent_of_ages (h : d.Careful fees) {s : OrderStore ℚ}
    (hages : d.orders.Ages s)
    (hcovered : ∀ ⦃handle : Nat⦄ ⦃o : Order ℚ⦄, s.at? handle = some o → o.status = .filled →
      o.Covered fees) : d.portfolio.Solvent := by
  refine h.solvent fun handle o ho hfilled => ?_
  obtain ⟨o', ho', haged⟩ := hages ho
  have hclosed : o.isOpen = false := by
    rw [Order.isOpen_eq_false, hfilled]
    decide
  exact (hcovered ho' ((haged.status_eq hclosed).trans hfilled)).of_terms haged.terms_eq.symm

/-- A desk stays careful when orders only age and no money moves: who was filled before is filled
still. -/
theorem Desk.Careful.of_ages (h : d.Careful fees) (hages : d.orders.Ages d'.orders)
    (hfees : d'.fees = d.fees) (hportfolio : d'.portfolio = d.portfolio) : d'.Careful fees where
  fees_eq := hfees.trans h.fees_eq
  solvent hcovered := by
    rw [hportfolio]
    exact h.solvent_of_ages hages hcovered

namespace MatchingPass

variable {p : MatchingPass ℚ}

/-- A cancellation moves no money. -/
theorem careful_cancelLinked (h : p.desk.Careful fees) (id : String) :
    (p.cancelLinked id).desk.Careful fees := by
  obtain ⟨closed, hcloses⟩ := closes_cancelLinked p id
  refine h.of_ages (kept_cancelLinked p id).ages hcloses.fees_eq ?_
  rcases cancelLinked_cases p id with ⟨hsame, -⟩ | ⟨handle, o, -, -, -, hcancel⟩
  · rw [hsame]
  · rw [hcancel]
    exact Desk.portfolio_modifyTrader ..

/-- What a fill brings in is not negative if the order is covered. -/
theorem careful_turn (h : p.desk.Careful fees) (replayed : Bool) {window : List (Trade ℚ)}
    (hwindow : ∀ t ∈ window, 0 ≤ t.price) (handle : Nat) :
    (p.turn replayed window handle).1.desk.Careful fees := by
  obtain ⟨closed, hcloses⟩ := closes_turn replayed window p handle
  have hages := (kept_turn replayed window p handle).ages
  have hturn := turn_spec replayed window p handle
  generalize p.turn replayed window handle = r at hcloses hages hturn ⊢
  cases hturn with
  | @filled o price portfolio ho hopen _ hprice hpay =>
    refine ⟨hcloses.fees_eq.trans h.fees_eq, fun hcovered => ?_⟩
    have hfilled := hcovered (at?_filling ho price portfolio) (Order.status_fill hopen _ _)
    have ho' : o.Covered fees := hfilled.of_terms (o.ages_fill _ _).terms_eq.symm
    have hincome := ho'.income_nonneg hwindow hprice
    rw [← h.fees_eq] at hincome
    have hpaid := (h.solvent_of_ages hages hcovered).applyFill hpay hincome
    rwa [filling, noteFill, Desk.portfolio_modifyTrader]
  | _ => exact h

/-- A visit is a turn that may move money, and cancellations that do not. -/
theorem careful_visit (h : p.desk.Careful fees) (replayed : Bool) {window : List (Trade ℚ)}
    (hwindow : ∀ t ∈ window, 0 ≤ t.price) (handle : Nat) :
    (p.visit replayed window handle).desk.Careful fees :=
  List.foldlRecOn (motive := fun p : MatchingPass ℚ => p.desk.Careful fees)
    (p.turn replayed window handle).2 _ (careful_turn h replayed hwindow handle)
    fun _ hp id _ => careful_cancelLinked hp id

end MatchingPass

/-- A pass keeps the desk careful at prices that are not negative. -/
theorem Desk.Careful.pass (h : d.Careful fees) (symbol : Symbol) (replayed : Bool)
    {window : List (Trade ℚ)} (hwindow : ∀ t ∈ window, 0 ≤ t.price) :
    (d.pass symbol replayed window).desk.Careful fees :=
  d.pass_induction (motive := fun p => p.desk.Careful fees) symbol replayed window h
    fun _ hp handle => MatchingPass.careful_visit hp replayed hwindow handle

end Careful

/-! ## Trades -/

namespace Market

variable {α : Type}

/-- Every stored trade is as `P` says. -/
def Trades (P : Trade α → Prop) (m : Market α) : Prop :=
  ∀ ⦃symbol : Symbol⦄ ⦃b : Board α⦄, m.board? symbol = some b → ∀ t ∈ b.trades, P t

variable {P : Trade α → Prop} {m : Market α}

/-- The recent trades are some of those that are stored. -/
theorem Trades.recentTrades (h : m.Trades P) (symbol : Symbol) (limit : Nat) :
    ∀ t ∈ m.recentTrades symbol limit, P t := by
  unfold Market.recentTrades
  cases hb : m.board? symbol with
  | none => simp
  | some b => exact fun t ht => h hb t (List.mem_of_mem_drop ht)

/-- A board may be changed as long as its trades stay as they should be. -/
theorem Trades.write (h : m.Trades P) (symbol : Symbol) {f : Board α → Board α}
    (hf : ∀ b, (∀ t ∈ b.trades, P t) → ∀ t ∈ (f b).trades, P t) : (m.write symbol f).Trades P := by
  intro symbol' b hb
  simp only [Market.board?, Market.write, Table.get?_modify] at hb
  split at hb
  · obtain rfl := Option.some.inj hb
    refine hf _ ?_
    cases hold : m.board? symbol with
    | none =>
      rw [show m.boards.get? symbol = none from hold]
      simp
    | some b =>
      rw [show m.boards.get? symbol = some b from hold]
      exact h hold
  · exact h hb

/-- A new board has no trades. -/
theorem Trades.ensure (h : m.Trades P) (symbol : Symbol) : (m.ensure symbol).Trades P :=
  h.write symbol fun _ hb => hb

/-- New trades are stored as they came in, behind some of the old ones. -/
theorem Trades.updateTrades (h : m.Trades P) (symbol : Symbol) {trades : List (Trade α)}
    (htrades : ∀ t ∈ trades, P t) : (m.updateTrades symbol trades).Trades P :=
  h.write symbol fun _ _ t ht => htrades t (List.mem_of_mem_drop ht)

end Market

/-! ## Matching without the exchange's balances -/

/-- Whether balances are taken over while the orders of some symbols are matched in turn. -/
def Desk.passesSync {σ α : Type} [Exchange σ α] [Amount α] (d : Desk α) (m : Market α) (ex : σ)
    (replayed : Bool) : List Symbol → Bool
  | [] => false
  | symbol :: rest =>
    let matched := d.matchSymbol m ex symbol replayed
    d.passSyncs m ex symbol replayed || matched.1.1.passesSync m matched.2 replayed rest

section Matching

variable {σ : Type} [Exchange σ ℚ] {fees : FeeSchedule ℚ} {d : Desk ℚ} {m : Market ℚ}

/-- Matching the orders of a symbol keeps the desk careful, unless balances are taken over from the
exchange. -/
theorem Desk.Careful.matchSymbol (h : d.Careful fees) (hm : m.Trades fun t => 0 ≤ t.price)
    {ex : σ} {symbol : Symbol} {replayed : Bool}
    (hunsynced : d.passSyncs m ex symbol replayed = false) :
    (d.matchSymbol m ex symbol replayed).1.1.Careful fees := by
  unfold Desk.matchSymbol
  cases hwindow : d.window? m symbol with
  | none => exact h
  | some window =>
    simp only [Desk.passSyncs, hwindow, Option.any_some] at hunsynced
    have htrades : ∀ t ∈ window, 0 ≤ t.price := by
      rw [Desk.eq_of_window? hwindow]
      exact hm.recentTrades symbol d.windowSize
    have hpass := h.pass symbol replayed htrades
    refine hpass.of_ages ?_ (Desk.closes_refreshTraders _ ex _).fees_eq
      (Desk.portfolio_refreshTraders hunsynced)
    rw [Desk.orders_refreshTraders]
    exact .refl _

/-- Matching the orders of several symbols keeps the desk careful, unless balances are taken over on
the way. -/
theorem Desk.Careful.matchSymbols (h : d.Careful fees) (hm : m.Trades fun t => 0 ≤ t.price)
    {ex : σ} {replayed : Bool} {symbols : List Symbol}
    (hunsynced : d.passesSync m ex replayed symbols = false) :
    (d.matchSymbols m ex replayed symbols).1.1.Careful fees := by
  induction symbols generalizing d ex with
  | nil => exact h
  | cons symbol rest ih =>
    rw [Desk.passesSync, Bool.or_eq_false_iff] at hunsynced
    exact ih (h.matchSymbol hm hunsynced.1) hunsynced.2

end Matching

/-! ## Trading with an engine -/

/-- What trading with an engine consists of. -/
inductive TradingEvent (α : Type) where
  /-- An order is handed in. -/
  | place (o : Order α)
  /-- The recent trades of a symbol come in. -/
  | trades (symbol : Symbol) (trades : List (Trade α))
  | pass (symbol : Symbol) (replayed : Bool)
  /-- The orders of every symbol are matched. -/
  | passAll (replayed : Bool)

namespace Engine

section Trading

variable {σ α : Type} [Exchange σ α] [Amount α]

/-- An order that is refused leaves the engine as it is. -/
def trade (e : Engine σ α) : TradingEvent α → Engine σ α
  | .place o =>
    match e.placeOrder o with
    | .ok e => e
    | .error _ => e
  | .trades symbol trades => { e with market := e.market.updateTrades symbol trades }
  | .pass symbol replayed => (e.matchSymbol symbol replayed).1
  | .passAll replayed => (e.matchAll replayed).1

def tradeAll (e : Engine σ α) (events : List (TradingEvent α)) : Engine σ α := events.foldl trade e

/-- Whether balances of the exchange are taken over then. -/
def syncs (e : Engine σ α) : TradingEvent α → Bool
  | .pass symbol replayed => e.desk.passSyncs e.market e.exchange symbol replayed
  | .passAll replayed => e.desk.passesSync e.market e.exchange replayed e.desk.orders.symbols
  | _ => false

/-- Whether balances of the exchange are ever taken over. -/
def everSyncs (e : Engine σ α) : List (TradingEvent α) → Bool
  | [] => false
  | event :: rest => e.syncs event || (e.trade event).everSyncs rest

omit [Exchange σ α] [Amount α] in
/-- An order that is accepted is one of a configured symbol, and is added to the others. -/
theorem placeOrder_eq_ok {e e' : Engine σ α} {o : Order α} (h : e.placeOrder o = .ok e') :
    o.symbol ∈ e.feed.symbols ∧ ∃ orders, e.desk.orders.add o = .ok orders ∧
      e' = e.modifyDesk ({ · with orders }) := by
  unfold placeOrder at h
  split at h
  · next hsymbol =>
    cases hadd : e.desk.orders.add o with
    | error cause => simp [hadd, bind, Except.bind] at h
    | ok orders =>
      simp only [hadd, bind, Except.bind, pure, Except.pure, Except.ok.injEq] at h
      exact ⟨by simpa using hsymbol, orders, rfl, h.symm⟩
  · simp [throw, throwThe, MonadExceptOf.throw] at h

end Trading

variable {σ : Type} [Exchange σ ℚ]

omit [Exchange σ ℚ] in
/-- The desk is careful, and no trade has a negative price. -/
structure Careful (fees : FeeSchedule ℚ) (e : Engine σ ℚ) : Prop where
  desk : e.desk.Careful fees
  market : e.market.Trades fun t => 0 ≤ t.price

variable {fees : FeeSchedule ℚ} {e : Engine σ ℚ}

/-- Each trading event keeps the engine careful. -/
theorem Careful.trade (h : e.Careful fees) {event : TradingEvent ℚ}
    (hprices : ∀ symbol trades, event = .trades symbol trades → ∀ t ∈ trades, 0 ≤ t.price)
    (hsyncs : e.syncs event = false) : (e.trade event).Careful fees := by
  cases event with
  | place o =>
    simp only [Engine.trade]
    split
    · next e' hplace =>
      obtain ⟨-, orders, hadd, rfl⟩ := placeOrder_eq_ok hplace
      exact ⟨h.desk.of_ages (OrderStore.ages_add hadd) rfl rfl, h.market⟩
    · exact h
  | trades symbol trades => exact ⟨h.desk, h.market.updateTrades symbol (hprices symbol trades rfl)⟩
  | pass symbol replayed => exact ⟨h.desk.matchSymbol h.market hsyncs, h.market⟩
  | passAll replayed => exact ⟨h.desk.matchSymbols h.market hsyncs, h.market⟩

/-- Trading keeps the engine careful all along. -/
theorem Careful.tradeAll (h : e.Careful fees) {events : List (TradingEvent ℚ)}
    (hprices : ∀ symbol trades, .trades symbol trades ∈ events → ∀ t ∈ trades, 0 ≤ t.price)
    (hsyncs : e.everSyncs events = false) : (e.tradeAll events).Careful fees := by
  induction events generalizing e with
  | nil => exact h
  | cons event rest ih =>
    rw [everSyncs, Bool.or_eq_false_iff] at hsyncs
    refine ih (h.trade (fun symbol trades hevent => ?_) hsyncs.1) (fun symbol trades hrest => ?_)
      hsyncs.2
    · exact hprices symbol trades (hevent ▸ List.mem_cons_self)
    · exact hprices symbol trades (List.mem_cons_of_mem _ hrest)

end Engine

namespace Session

variable {σ : Type}

/-- An engine that opens with no balance below zero is careful: it has no orders and no trades. -/
theorem careful_engine {settings : Settings ℚ} (plan : Plan ℚ) (exchange : σ) (exporter : Exporter)
    (folder : Folder) (hstart : (Portfolio.mk settings.startingBalances).Solvent) :
    (engine settings plan exchange exporter folder).Careful
      ⟨settings.makerFee, settings.takerFee⟩ := by
  have htasks : ∀ (owner : Nat) (symbol : Symbol) (shared : List Nat) (e : Engine σ ℚ),
      let e' := settings.timeFrames.foldl (addTask settings plan owner symbol shared) e
      e'.desk = e.desk ∧ e'.market = e.market := by
    intro owner symbol shared e
    exact List.foldlRecOn (motive := fun e' : Engine σ ℚ => e'.desk = e.desk ∧ e'.market = e.market)
      settings.timeFrames _ ⟨rfl, rfl⟩ fun _ he _ _ => he
  unfold engine
  refine List.foldlRecOn (motive := fun e : Engine σ ℚ =>
    e.Careful ⟨settings.makerFee, settings.takerFee⟩) settings.symbols _
    ⟨⟨rfl, fun _ => hstart⟩, ?_⟩ fun e he symbol _ => ?_
  · intro symbol b hb
    simp [Market.board?, Table.get?] at hb
  · obtain ⟨hdesk, hmarket⟩ := htasks e.evaluations.length symbol
      ((List.range (plan.shared symbol).length).map (e.evaluators.length + ·)) _
    refine ⟨?_, ?_⟩
    · rw [addSymbol, hdesk]
      exact he.desk
    · rw [addSymbol, hmarket]
      exact he.market.ensure symbol

variable [Exchange σ ℚ] {settings : Settings ℚ} {plan : Plan ℚ} {exchange : σ}
  {exporter : Exporter} {folder : Folder} {s : Session σ ℚ}

/-- However a session that was built trades, as long as it takes over no balances of the exchange
and no trade has a negative price, it overdraws no currency, unless it filled an order that is not
covered: one of a negative quantity, or a sell at a negative price of its own or with a fee above
its value. -/
theorem never_overdrawn (hbuild : build settings plan exchange exporter folder = .ok s)
    (hstart : (Portfolio.mk settings.startingBalances).Solvent) {events : List (TradingEvent ℚ)}
    (hprices : ∀ symbol trades, .trades symbol trades ∈ events → ∀ t ∈ trades, 0 ≤ t.price)
    (hsyncs : s.shared.everSyncs events = false)
    (hcovered : ∀ handle o, (s.shared.tradeAll events).desk.orders.at? handle = some o →
      o.status = .filled → o.Covered ⟨settings.makerFee, settings.takerFee⟩) (currency : Currency) :
    0 ≤ (s.shared.tradeAll events).desk.portfolio.balance currency := by
  have hcareful : s.shared.Careful ⟨settings.makerFee, settings.takerFee⟩ := by
    rw [(opened_build hbuild).1]
    exact careful_engine plan exchange exporter folder hstart
  exact (hcareful.tradeAll hprices hsyncs).desk.solvent hcovered currency

/-! ## One sale and one purchase -/

/-- A holder of one coin pays this share of what it sells for. -/
def holderSettings (takerFee : ℚ) : Settings ℚ where
  exchangeName := "sim"
  symbols := ["BTC/USDT"]
  timeFrames := [.oneHour]
  backtesting := false
  saveEvaluations := false
  exportDir := "."
  queueSize := 1
  tradeFilterSize := 1
  mostCandles := 10
  mostTrades := 10
  mostOrders := 10
  matchWindow := 10
  candleLimit := 10
  longestSleepSecs := 1
  ordersPeriodSecs := 60
  tickerPeriodSecs := 10
  bookPeriodSecs := 5
  tradesPeriodSecs := 5
  balancePeriodSecs := 30
  makerFee := 0
  takerFee
  startingBalances := [("BTC", 1)]

/-- An order at the market's price, which is 100. -/
def marketOrder (kind : OrderKind) (quantity : ℚ) : List (TradingEvent ℚ) :=
  [.place (.new "only" "BTC/USDT" kind 0 quantity traderName 0),
    .trades "BTC/USDT" [⟨100, 1, 1000⟩], .pass "BTC/USDT" false]

/-- The engine of the holder. -/
def holder (takerFee : ℚ) : Engine (ScriptedExchange ℚ) ℚ :=
  engine (holderSettings takerFee) .standard {} { place := "" } {}

/-- The holder's settings are accepted, and the session starts with the holder's engine. -/
theorem exists_holder (takerFee : ℚ) (hfee : 0 ≤ takerFee) :
    ∃ s, build (holderSettings takerFee) .standard ({} : ScriptedExchange ℚ) { place := "" } {}
      = .ok s ∧ s.shared = holder takerFee := by
  have hvalid : (holderSettings takerFee).validate = .ok () := by
    have hfees : ¬((0 : ℚ) < Amount.zero ∨ takerFee < Amount.zero) :=
      not_or.2 ⟨lt_irrefl _, not_lt.2 hfee⟩
    have hname : (Text.trim "sim").isEmpty = false := by decide +kernel
    simp [Settings.validate, Settings.fault?, Settings.sizes, holderSettings, hfees, hname]
  have hbuild : ∃ s, build (holderSettings takerFee) .standard ({} : ScriptedExchange ℚ)
      { place := "" } {} = .ok s := ⟨_, build_eq_ok_iff.2 ⟨hvalid, rfl⟩⟩
  obtain ⟨s, hs⟩ := hbuild
  exact ⟨s, hs, (opened_build hs).1⟩

/-- The coin is sold for 100 less a fee. -/
theorem never_overdrawn_sale :
    ∃ s, build (holderSettings (1 / 1000)) .standard ({} : ScriptedExchange ℚ) { place := "" } {}
      = .ok s ∧
      let e := s.shared.tradeAll (marketOrder .sellMarket 1)
      e.desk.orders.status? 0 = some .filled ∧
      e.desk.portfolio.balances = [("BTC", 0), ("USDT", 999 / 10)] ∧
      ∀ currency, 0 ≤ e.desk.portfolio.balance currency := by
  obtain ⟨s, hbuild, hs⟩ := exists_holder (1 / 1000) (by norm_num)
  have hstart : (Portfolio.mk (holderSettings (1 / 1000)).startingBalances).Solvent :=
    Portfolio.solvent_of_nonneg (by simp [holderSettings])
  have hprices : ∀ symbol trades, .trades symbol trades ∈ marketOrder .sellMarket 1 →
      ∀ t ∈ trades, 0 ≤ t.price := by
    simp [marketOrder]
  -- there is one order, a sale on the market, which covers the fee by its proceeds
  have hsold : ((holder (1 / 1000)).tradeAll (marketOrder .sellMarket 1)).desk.orders.slots.all
      (fun slot => slot.order.kind = .sellMarket ∧ slot.order.quantity = 1) = true := by
    decide +kernel
  have hcovered : ∀ handle o, ((holder (1 / 1000)).tradeAll
      (marketOrder .sellMarket 1)).desk.orders.at? handle = some o → o.status = .filled →
      o.Covered ⟨0, 1 / 1000⟩ := by
    intro handle o ho _
    obtain ⟨slot, hslot, rfl⟩ := OrderStore.at?_eq_some.1 ho
    obtain ⟨hkind, hquantity⟩ := of_decide_eq_true
      (List.all_eq_true.1 hsold slot (List.mem_of_getElem? hslot))
    refine ⟨by simp [hquantity], fun _ => .inl hkind, fun _ => ?_⟩
    rw [hkind]
    norm_num [FeeSchedule.rate, OrderKind.isTaker]
  rw [← hs] at hcovered
  refine ⟨s, hbuild, ?_, ?_, never_overdrawn hbuild hstart hprices ?_ hcovered⟩ <;> rw [hs]
  · decide +kernel
  · decide +kernel
  · decide +kernel

/-- A sale whose fee is above its value, and a purchase of a negative quantity: neither is refused
for lack of funds, and each of them overdraws a currency. -/
theorem overdrawn :
    (∃ s, build (holderSettings (3 / 2)) .standard ({} : ScriptedExchange ℚ) { place := "" } {}
      = .ok s ∧ (Portfolio.mk (holderSettings (3 / 2)).startingBalances).Solvent ∧
      s.shared.everSyncs (marketOrder .sellMarket 1) = false ∧
      (s.shared.tradeAll (marketOrder .sellMarket 1)).desk.portfolio.balance "USDT" = -50) ∧
    ∃ s, build (holderSettings 0) .standard ({} : ScriptedExchange ℚ) { place := "" } {} = .ok s ∧
      (Portfolio.mk (holderSettings 0).startingBalances).Solvent ∧
      s.shared.everSyncs (marketOrder .buyMarket (-2)) = false ∧
      (s.shared.tradeAll (marketOrder .buyMarket (-2))).desk.portfolio.balance "BTC" = -1 := by
  have hstart : ∀ takerFee, (Portfolio.mk (holderSettings takerFee).startingBalances).Solvent :=
    fun takerFee => Portfolio.solvent_of_nonneg (by simp [holderSettings])
  constructor
  · obtain ⟨s, hbuild, hs⟩ := exists_holder (3 / 2) (by norm_num)
    refine ⟨s, hbuild, hstart _, ?_, ?_⟩ <;> rw [hs] <;> decide +kernel
  · obtain ⟨s, hbuild, hs⟩ := exists_holder 0 (le_refl _)
    refine ⟨s, hbuild, hstart _, ?_, ?_⟩ <;> rw [hs] <;> decide +kernel

end Session

end MarketEngine
