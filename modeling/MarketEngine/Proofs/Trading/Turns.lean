import MarketEngine.Proofs.Trading.OrderHistory
import MarketEngine.Trading.SuspendedPass
/-!
# Turns of a matching pass

What the turn of one order can come to (`MatchingPass.Turn`), and what the cancellation of a linked
order can come to (`MatchingPass.cancelLinked_cases`). A pass neither adds an order nor gives one
up, and the orders only age on the way (`OrderStore.Kept`). Traders that read the balances anew
leave the orders alone.
-/

namespace MarketEngine

variable {α : Type}

/-- A store with the same orders under the same ids, some of them aged. -/
structure OrderStore.Kept (s s' : OrderStore α) : Prop where
  ages : s.Ages s'
  handle?_eq : ∀ id, s'.handle? id = s.handle? id
  sound : s.Sound → s'.Sound

namespace OrderStore

theorem Kept.refl (s : OrderStore α) : s.Kept s := ⟨.refl s, fun _ => rfl, fun h => h⟩

/-- What two changes keep, the two of them keep. -/
theorem Kept.trans {s s' s'' : OrderStore α} (h : s.Kept s') (h' : s'.Kept s'') : s.Kept s'' where
  ages := h.ages.trans h'.ages
  handle?_eq id := (h'.handle?_eq id).trans (h.handle?_eq id)
  sound hs := h'.sound (h.sound hs)

/-- A store with an order that only ages is the same store. -/
theorem kept_modify (s : OrderStore α) (handle : Nat) {f : Order α → Order α}
    (hf : ∀ o : Order α, o.Ages (f o)) : s.Kept (s.modify handle f) where
  ages := ages_modify s handle hf
  handle?_eq := handle?_modify s handle fun o => (hf o).id_eq
  sound hs := hs.modify handle hf

end OrderStore

/-- The traders do not hold the money. -/
@[simp] theorem Desk.portfolio_modifyTrader (d : Desk α) (name : String)
    (f : Trader α → Trader α) : (d.modifyTrader name f).portfolio = d.portfolio := by
  unfold modifyTrader
  split <;> rfl

namespace MatchingPass

/-! ## Canceling a linked order -/

/-- The pass after canceling an open order. -/
def canceling (p : MatchingPass α) (handle : Nat) (o : Order α) : MatchingPass α :=
  { p with
    desk := { p.desk with orders := p.desk.orders.modify handle (·.cancel.1) }.modifyTrader
      o.trader (·.noteCancel o.cancel.1)
    report := { p.report with canceled := p.report.canceled ++ [o.id] } }

/-- An order that is stored and open is canceled, and with any other nothing happens. -/
theorem cancelLinked_cases (p : MatchingPass α) (id : String) :
    p.cancelLinked id = p ∧ (∀ handle o, p.desk.orders.handle? id = some handle →
      p.desk.orders.at? handle = some o → o.isOpen = false) ∨
    ∃ handle o, p.desk.orders.handle? id = some handle ∧ p.desk.orders.at? handle = some o ∧
      o.isOpen = true ∧ p.cancelLinked id = p.canceling handle o := by
  unfold cancelLinked
  cases hhandle : p.desk.orders.handle? id with
  | none => exact .inl ⟨rfl, fun handle o h => by simp at h⟩
  | some handle =>
    cases ho : p.desk.orders.at? handle with
    | none =>
      refine .inl ⟨by simp [ho], ?_⟩
      rintro _ o ⟨⟩ ho'
      simp [ho] at ho'
    | some o =>
      by_cases hopen : o.isOpen
      · exact .inr ⟨handle, o, rfl, ho, hopen, by simp [ho, hopen, canceling]⟩
      · refine .inl ⟨by simp [ho, hopen], ?_⟩
        rintro _ o' ⟨⟩ ho'
        rw [ho, Option.some.injEq] at ho'
        simpa [ho'] using hopen

/-- A cancellation lets one order age. -/
theorem kept_canceling (p : MatchingPass α) (handle : Nat) (o : Order α) :
    p.desk.orders.Kept (p.canceling handle o).desk.orders := by
  simpa [canceling] using OrderStore.kept_modify p.desk.orders handle Order.ages_cancel

/-- To cancel a linked order lets one order age, or none. -/
theorem kept_cancelLinked (p : MatchingPass α) (id : String) :
    p.desk.orders.Kept (p.cancelLinked id).desk.orders := by
  rcases cancelLinked_cases p id with ⟨hsame, -⟩ | ⟨handle, o, -, -, -, hcancel⟩
  · rw [hsame]
    exact .refl _
  · rw [hcancel]
    exact kept_canceling p handle o

/-- A cancellation fills nothing. -/
theorem unfilled_cancelLinked (p : MatchingPass α) (id : String) :
    p.desk.orders.Unfilled (p.cancelLinked id).desk.orders := by
  rcases cancelLinked_cases p id with ⟨hsame, -⟩ | ⟨handle, o, -, -, -, hcancel⟩
  · rw [hsame]
    exact .refl _
  · rw [hcancel]
    simpa [canceling] using OrderStore.unfilled_cancel p.desk.orders handle

/-- Cancellations in turn let orders age. -/
theorem kept_foldl_cancelLinked (p : MatchingPass α) (ids : List String) :
    p.desk.orders.Kept (ids.foldl cancelLinked p).desk.orders := by
  induction ids generalizing p with
  | nil => exact .refl _
  | cons id rest ih => exact (kept_cancelLinked p id).trans (ih (p.cancelLinked id))

/-- Cancellations in turn fill nothing. -/
theorem unfilled_foldl_cancelLinked (p : MatchingPass α) (ids : List String) :
    p.desk.orders.Unfilled (ids.foldl cancelLinked p).desk.orders := by
  induction ids generalizing p with
  | nil => exact .refl _
  | cons id rest ih => exact (unfilled_cancelLinked p id).trans (ih (p.cancelLinked id))

/-! ## The turn of an order -/

variable [Amount α]

/-- The pass after an order was filled at a price, with what is then left of the portfolio. -/
def filling (p : MatchingPass α) (handle : Nat) (o : Order α) (price : α)
    (portfolio : Portfolio α) : MatchingPass α :=
  let fill (o' : Order α) : Order α := (o'.fill price (o.feeAt p.desk.fees price)).1
  p.noteFill { p.desk with portfolio, orders := p.desk.orders.modify handle fill } (fill o)

/-- A filled order stands where it stood. -/
theorem at?_filling {p : MatchingPass α} {handle : Nat} {o : Order α}
    (ho : p.desk.orders.at? handle = some o) (price : α) (portfolio : Portfolio α) :
    (p.filling handle o price portfolio).desk.orders.at? handle
      = some (o.fill price (o.feeAt p.desk.fees price)).1 := by
  simpa [filling, noteFill] using
    OrderStore.at?_modify_self ho fun o' : Order α => (o'.fill price (o.feeAt p.desk.fees price)).1

/-- What the turn of an order can come to, with the linked orders to be canceled then. -/
inductive Turn (replayed : Bool) (window : List (Trade α)) (p : MatchingPass α) (handle : Nat) :
    MatchingPass α × List String → Prop where
  | absent (hnone : p.desk.orders.at? handle = none) : Turn replayed window p handle (p, [])
  | closed {o : Order α} (ho : p.desk.orders.at? handle = some o) (hclosed : o.isOpen = false) :
    Turn replayed window p handle (p, [])
  | missing {o : Order α} (ho : p.desk.orders.at? handle = some o) (hopen : o.isOpen = true)
    (hmissing : p.desk.isMissing o = true) : Turn replayed window p handle (p.miss o, [])
  | untriggered {o : Order α} (ho : p.desk.orders.at? handle = some o) (hopen : o.isOpen = true)
    (hknown : p.desk.isMissing o = false) (hprice : o.decision replayed window = none) :
    Turn replayed window p handle (p, [])
  | rejected {o : Order α} {price : α} {e : EngineError α}
    (ho : p.desk.orders.at? handle = some o) (hopen : o.isOpen = true)
    (hknown : p.desk.isMissing o = false) (hprice : o.decision replayed window = some price)
    (hpay : p.desk.portfolio.applyFill o.symbol o.side price o.quantity
      (o.feeAt p.desk.fees price).cost = .error e) : Turn replayed window p handle (p, [])
  | filled {o : Order α} {price : α} {portfolio : Portfolio α}
    (ho : p.desk.orders.at? handle = some o) (hopen : o.isOpen = true)
    (hknown : p.desk.isMissing o = false) (hprice : o.decision replayed window = some price)
    (hpay : p.desk.portfolio.applyFill o.symbol o.side price o.quantity
      (o.feeAt p.desk.fees price).cost = .ok portfolio) :
    Turn replayed window p handle (p.filling handle o price portfolio, o.linked)

/-- In its turn an order is absent, closed, missing, untriggered, refused or filled, and only a fill
names linked orders to cancel. -/
theorem turn_spec (replayed : Bool) (window : List (Trade α)) (p : MatchingPass α) (handle : Nat) :
    Turn replayed window p handle (p.turn replayed window handle) := by
  -- in the order in which the turn asks
  unfold turn
  cases ho : p.desk.orders.at? handle with
  | none => exact .absent ho
  | some o =>
    by_cases hopen : o.isOpen
    · by_cases hmissing : p.desk.isMissing o
      · simpa [hopen, hmissing] using Turn.missing ho hopen hmissing
      · rw [Bool.not_eq_true] at hmissing
        cases hprice : o.decision replayed window with
        | none =>
          simpa [hopen, hmissing, Desk.charge, hprice] using
            Turn.untriggered ho hopen hmissing hprice
        | some price =>
          cases hpay : p.desk.portfolio.applyFill o.symbol o.side price o.quantity
              (o.feeAt p.desk.fees price).cost with
          | error e =>
            simpa [hopen, hmissing, Desk.charge, hprice, hpay] using
              Turn.rejected ho hopen hmissing hprice hpay
          | ok portfolio =>
            simpa [hopen, hmissing, Desk.charge, hprice, hpay, filling, Order.linked_fill] using
              Turn.filled ho hopen hmissing hprice hpay
    · rw [Bool.not_eq_true] at hopen
      simpa [hopen] using Turn.closed ho hopen

/-- A fill lets one order age. -/
theorem kept_filling (p : MatchingPass α) (handle : Nat) (o : Order α) (price : α)
    (portfolio : Portfolio α) :
    p.desk.orders.Kept (p.filling handle o price portfolio).desk.orders := by
  simpa [filling, noteFill] using OrderStore.kept_modify p.desk.orders handle
    fun o' => o'.ages_fill price (o.feeAt p.desk.fees price)

/-- A turn lets one order age, or none. -/
theorem kept_turn (replayed : Bool) (window : List (Trade α)) (p : MatchingPass α) (handle : Nat) :
    p.desk.orders.Kept (p.turn replayed window handle).1.desk.orders := by
  have hturn := turn_spec replayed window p handle
  generalize p.turn replayed window handle = r at hturn ⊢
  cases hturn with
  | filled => exact kept_filling ..
  | _ => exact .refl _

/-- A visit lets orders age, its own and those that are linked to it. -/
theorem kept_visit (replayed : Bool) (window : List (Trade α)) (p : MatchingPass α)
    (handle : Nat) : p.desk.orders.Kept (p.visit replayed window handle).desk.orders :=
  (kept_turn replayed window p handle).trans (kept_foldl_cancelLinked _ _)

end MatchingPass

/-! ## Passes -/

/-- There is nothing to match without recent trades, and never for the wildcard. -/
theorem Desk.window?_eq_none {d : Desk α} {m : Market α} {symbol : Symbol} :
    d.window? m symbol = none ↔
      m.recentTrades symbol d.windowSize = [] ∨ symbol = Symbol.wildcard := by
  rw [or_comm, or_iff_not_imp_left]
  simp [window?]

/-- A pass looks at stored trades only. -/
theorem Desk.eq_of_window? {d : Desk α} {m : Market α} {symbol : Symbol}
    {window : List (Trade α)} (h : d.window? m symbol = some window) :
    window = m.recentTrades symbol d.windowSize := by
  simp only [window?] at h
  split at h
  · simp at h
  · exact (Option.some.inj h).symm

variable [Amount α]

/-- What every visit keeps, a pass keeps. -/
theorem Desk.pass_induction {motive : MatchingPass α → Prop} (d : Desk α) (symbol : Symbol)
    (replayed : Bool) (window : List (Trade α)) (hd : motive { desk := d })
    (hvisit : ∀ p, motive p → ∀ handle, motive (p.visit replayed window handle)) :
    motive (d.pass symbol replayed window) := by
  have hvisits : ∀ (handles : List Nat) (p : MatchingPass α), motive p →
      motive (handles.foldl (MatchingPass.visit replayed window) p) := by
    intro handles
    induction handles with
    | nil => exact fun p hp => hp
    | cons handle rest ih => exact fun p hp => ih _ (hvisit p hp handle)
  exact hvisits _ _ hd

/-- A pass lets orders age, and no order comes or goes. -/
theorem Desk.kept_pass (d : Desk α) (symbol : Symbol) (replayed : Bool) (window : List (Trade α)) :
    d.orders.Kept (d.pass symbol replayed window).desk.orders :=
  d.pass_induction (motive := fun p => d.orders.Kept p.desk.orders) symbol replayed window
    (.refl _) fun p hp handle => hp.trans (MatchingPass.kept_visit replayed window p handle)

end MarketEngine
