import MarketEngine.Proofs.Trading.Reports
/-!
# Redelivery

Matching the same trades a second time fills an order only if the first time the order was missing,
or there was no money for it, and cancels only orders that are linked to such ones. Where the first
pass neither missed nor refused an order, the second does nothing (`Desk.matchSymbol_again`).

The argument is about one order at a time: an order that the first pass visited and left open was
missing, refused, or not reached by the trades (`MatchingPass.fate`), and the last of these it is
again the second time, since that depends on nothing but its terms.
-/

namespace MarketEngine

variable {α : Type}

section

variable [Amount α]

/-- A fill is refused for lack of funds only. -/
theorem Portfolio.applyFill_eq_error {p : Portfolio α} {symbol : Symbol} {side : Side}
    {price quantity fee : α} {e : EngineError α}
    (h : p.applyFill symbol side price quantity fee = .error e) :
    ∃ currency required, e = .insufficientFunds currency required (p.balance currency) ∧
      p.balance currency < required := by
  unfold applyFill at h
  cases side with
  | buy =>
    dsimp only at h
    split at h
    · next hshort => exact ⟨_, _, (Except.error.inj h).symm, hshort⟩
    · simp at h
  | sell =>
    dsimp only at h
    split at h
    · next hshort => exact ⟨_, _, (Except.error.inj h).symm, hshort⟩
    · simp at h

/-- A fill is refused only for lack of a currency, of which there is less than it takes. -/
theorem Desk.insufficient_of_charge {d : Desk α} {handle : Nat} {o : Order α} {replayed : Bool}
    {window : List (Trade α)} {e : EngineError α}
    (h : d.charge handle o replayed window = .error e) :
    ∃ currency required, e = .insufficientFunds currency required (d.portfolio.balance currency) ∧
      d.portfolio.balance currency < required := by
  unfold charge at h
  split at h
  · simp at h
  · dsimp only at h
    split at h
    · next hpay =>
      obtain rfl := Except.error.inj h
      exact Portfolio.applyFill_eq_error hpay
    · simp at h

/-- Whether an order fills has nothing to do with what a fill or a cancellation changes of it. -/
theorem Order.decision_eq_of_unsettled {o o' : Order α} (h : o'.unsettled = o.unsettled)
    (replayed : Bool) (window : List (Trade α)) :
    o'.decision replayed window = o.decision replayed window :=
  show o'.unsettled.decision replayed window = o.unsettled.decision replayed window by rw [h]

end

/-- Whether its trader misses an order has nothing to do with what a fill or a cancellation changes
of it. -/
theorem Desk.isMissing_eq_of_unsettled {o o' : Order α} (h : o'.unsettled = o.unsettled)
    (d : Desk α) : d.isMissing o' = d.isMissing o :=
  show d.isMissing o'.unsettled = d.isMissing o.unsettled by rw [h]

namespace MatchingPass

/-! ## Refused orders -/

section Refusals

variable [Amount α]

/-- What the turn of an order is refused with, and the id of the order. -/
def refusal? (replayed : Bool) (window : List (Trade α)) (p : MatchingPass α) (handle : Nat) :
    Option (String × EngineError α) :=
  match p.desk.orders.at? handle with
  | none => none
  | some o =>
    if !o.isOpen || p.desk.isMissing o then none
    else match p.desk.charge handle o replayed window with
      | .error e => some (o.id, e)
      | .ok _ => none

/-- What the turns of some orders are refused with, in turn. -/
def refusals (replayed : Bool) (window : List (Trade α)) :
    MatchingPass α → List Nat → List (String × EngineError α)
  | _, [] => []
  | p, handle :: rest =>
    (p.refusal? replayed window handle).toList ++ (p.visit replayed window handle).refusals
      replayed window rest

/-- An order is refused for lack of funds only. -/
theorem insufficient_of_mem_refusals {replayed : Bool} {window : List (Trade α)}
    {p : MatchingPass α} {handles : List Nat} {id : String} {e : EngineError α}
    (h : (id, e) ∈ p.refusals replayed window handles) :
    ∃ currency required available, e = .insufficientFunds currency required available ∧
      available < required := by
  induction handles generalizing p with
  | nil => simp [refusals] at h
  | cons handle rest ih =>
    rw [refusals] at h
    rcases List.mem_append.1 h with hfirst | hrest
    · rw [Option.mem_toList] at hfirst
      unfold refusal? at hfirst
      split at hfirst
      · simp at hfirst
      · split at hfirst
        · simp at hfirst
        · split at hfirst
          · next e' hcharge =>
            obtain ⟨-, rfl⟩ := Prod.mk.inj (Option.some.inj hfirst)
            obtain ⟨currency, required, rfl, hshort⟩ := Desk.insufficient_of_charge hcharge
            exact ⟨currency, required, _, rfl, hshort⟩
          · simp at hfirst
    · exact ih hrest

end Refusals

/-! ## What became of an order -/

/-- What is there later was there before, and if it is open it was open. -/
theorem Frame.exists_before {p p' : MatchingPass α} (h : p.Frame p') {handle : Nat} {o' : Order α}
    (ho' : p'.desk.orders.at? handle = some o') :
    ∃ o, p.desk.orders.at? handle = some o ∧ o'.unsettled = o.unsettled ∧
      (o'.isOpen = true → o.isOpen = true) := by
  have hlt := OrderStore.at?_lt_length ho'
  rw [OrderStore.length_eq_of_fixtures h.fixtures_eq] at hlt
  have hslot := List.getElem?_eq_getElem hlt
  have ho : p.desk.orders.at? handle = some p.desk.orders.slots[handle].order :=
    OrderStore.at?_eq_some.2 ⟨_, hslot, rfl⟩
  obtain ⟨o'', ho'', hages⟩ := h.ages ho
  obtain rfl := Option.some.inj (ho''.symm.trans ho')
  obtain ⟨slot', hslot', -, -, heq⟩ := OrderStore.exists_slot_of_fixtures h.fixtures_eq hslot
  rw [OrderStore.at?, hslot', Option.map_some, Option.some.injEq] at ho'
  exact ⟨_, ho, ho' ▸ heq, hages.isOpen_of_isOpen⟩

/-- Canceling linked orders is nobody's fill and leaves nobody to refresh. -/
theorem noted_foldl_cancelLinked (p : MatchingPass α) (ids : List String) :
    (ids.foldl cancelLinked p).report.filled = p.report.filled ∧
    (ids.foldl cancelLinked p).report.missing = p.report.missing ∧
    (ids.foldl cancelLinked p).toRefresh = p.toRefresh := by
  induction ids generalizing p with
  | nil => exact ⟨rfl, rfl, rfl⟩
  | cons id rest ih =>
    obtain ⟨hfilled, hmissing, hrefresh⟩ := ih (p.cancelLinked id)
    rw [List.foldl_cons, hfilled, hmissing, hrefresh]
    rcases cancelLinked_cases p id with ⟨hsame, -⟩ | ⟨handle, o, -, -, -, hcancel⟩
    · rw [hsame]
      exact ⟨rfl, rfl, rfl⟩
    · rw [hcancel]
      exact ⟨rfl, rfl, rfl⟩

variable [Amount α] {replayed : Bool} {window : List (Trade α)}

/-- An order that stays open in its turn was missing, was refused, or the window does not fill
it. -/
theorem fate_visit (p : MatchingPass α) {handle : Nat} {o' : Order α}
    (ho' : (p.visit replayed window handle).desk.orders.at? handle = some o')
    (hopen' : o'.isOpen = true) :
    o'.id ∈ (p.visit replayed window handle).report.missing ∨
    (∃ e, p.refusal? replayed window handle = some (o'.id, e)) ∨
    p.desk.isMissing o' = false ∧ o'.decision replayed window = none := by
  have hturn := turn_spec replayed window p handle
  rw [visit] at ho' ⊢
  generalize p.turn replayed window handle = r at ho' hturn ⊢
  cases hturn with
  | absent hnone =>
    have hgone := hnone.symm.trans ho'
    simp at hgone
  | closed ho hclosed =>
    obtain rfl := Option.some.inj (ho.symm.trans ho')
    rw [hopen'] at hclosed
    simp at hclosed
  | missing ho =>
    obtain rfl := Option.some.inj (ho.symm.trans ho')
    exact .inl (List.mem_append_right _ (List.mem_singleton_self _))
  | @rejected o price e ho hopen hknown hprice hpay =>
    obtain rfl := Option.some.inj (ho.symm.trans ho')
    exact .inr (.inl ⟨e, by simp [refusal?, ho, hopen, hknown, Desk.charge, hprice, hpay]⟩)
  | untriggered ho _ hknown hprice =>
    obtain rfl := Option.some.inj (ho.symm.trans ho')
    exact .inr (.inr ⟨hknown, hprice⟩)
  | @filled o price portfolio ho hopen =>
    -- what was filled is not open any more
    obtain ⟨o₁, ho₁, -, hopen₁⟩ := (frame_foldl_cancelLinked _ _).exists_before ho'
    obtain rfl := Option.some.inj ((at?_filling ho price portfolio).symm.trans ho₁)
    have hstatus := Order.isOpen_iff.1 (hopen₁ hopen')
    rw [Order.status_fill hopen] at hstatus
    exact OrderStatus.noConfusion hstatus

/-- An order that is visited and stays open was missing, was refused, or the window does not fill
it. -/
theorem fate (p : MatchingPass α) {handles : List Nat} {handle : Nat} (hhandle : handle ∈ handles)
    {o : Order α}
    (ho : (handles.foldl (visit replayed window) p).desk.orders.at? handle = some o)
    (hopen : o.isOpen = true) :
    o.id ∈ (handles.foldl (visit replayed window) p).report.missing ∨
    (∃ e, (o.id, e) ∈ p.refusals replayed window handles) ∨
    p.desk.isMissing o = false ∧ o.decision replayed window = none := by
  induction handles generalizing p with
  | nil => simp at hhandle
  | cons first rest ih =>
    rw [List.foldl_cons] at ho ⊢
    rcases List.mem_cons.1 hhandle with rfl | hrest
    · obtain ⟨o₁, ho₁, heq, hopen₁⟩ :=
        (frame_foldl_visit replayed window (p.visit replayed window handle) rest).exists_before ho
      rw [Order.id_eq_of_unsettled heq, Desk.isMissing_eq_of_unsettled heq,
        Order.decision_eq_of_unsettled heq]
      rcases p.fate_visit ho₁ (hopen₁ hopen) with hmissing | ⟨e, he⟩ | hquiet
      · obtain ⟨closed, missed, htally⟩ :=
          tally_foldl_visit replayed window (p.visit replayed window handle) rest
        rw [htally.missing_eq]
        exact .inl (List.mem_append_left _ hmissing)
      · exact .inr (.inl ⟨e, List.mem_append_left _ (by simp [he])⟩)
      · exact .inr (.inr hquiet)
    · rcases ih (p.visit replayed window first) hrest ho with hmissing | ⟨e, he⟩ | ⟨hknown, hnone⟩
      · exact .inl hmissing
      · exact .inr (.inl ⟨e, List.mem_append_right _ he⟩)
      · refine .inr (.inr ⟨?_, hnone⟩)
        rwa [Desk.isMissing_congr (frame_visit replayed window p first).knowledge_eq] at hknown

/-- What is filled on the way is an open order that the window fills. -/
theorem exists_decided (p : MatchingPass α) {handles : List Nat} {id : String}
    (hid : id ∈ (handles.foldl (visit replayed window) p).report.filled) :
    id ∈ p.report.filled ∨ ∃ handle ∈ handles, ∃ o, p.desk.orders.at? handle = some o ∧
      o.isOpen = true ∧ o.id = id ∧ o.decision replayed window ≠ none := by
  induction handles generalizing p with
  | nil => exact .inl hid
  | cons first rest ih =>
    rw [List.foldl_cons] at hid
    rcases ih (p.visit replayed window first) hid with
      hbefore | ⟨handle, hhandle, o, ho, hopen, rfl, hprice⟩
    · have hturn := turn_spec replayed window p first
      rw [visit] at hbefore
      rw [(noted_foldl_cancelLinked _ _).1] at hbefore
      generalize p.turn replayed window first = r at hbefore hturn
      cases hturn with
      | @filled o price portfolio ho hopen _ hprice =>
        rcases List.mem_append.1 hbefore with hold | hnew
        · exact .inl hold
        · rw [List.mem_singleton, (o.ages_fill price _).id_eq] at hnew
          exact .inr ⟨first, List.mem_cons_self, o, ho, hopen, hnew.symm, by simp [hprice]⟩
      | _ => exact .inl hbefore
    · obtain ⟨o₁, ho₁, heq, hopen₁⟩ := (frame_visit replayed window p first).exists_before ho
      refine .inr ⟨handle, List.mem_cons_of_mem _ hhandle, o₁, ho₁, hopen₁ hopen,
        (Order.id_eq_of_unsettled heq).symm, ?_⟩
      rwa [← Order.decision_eq_of_unsettled heq]

/-- Somebody is to be refreshed only if an order is missing. -/
theorem toRefresh_eq_nil (d : Desk α) (symbol : Symbol)
    (hmissing : (d.pass symbol replayed window).report.missing = []) :
    (d.pass symbol replayed window).toRefresh = [] := by
  refine d.pass_induction (motive := fun p => p.report.missing = [] → p.toRefresh = []) symbol
    replayed window (fun _ => rfl) (fun p hp handle hmissing => ?_) hmissing
  have hturn := turn_spec replayed window p handle
  rw [visit] at hmissing ⊢
  obtain ⟨-, hkept, hrefresh⟩ := noted_foldl_cancelLinked (p.turn replayed window handle).1
    (p.turn replayed window handle).2
  rw [hkept] at hmissing
  rw [hrefresh]
  generalize p.turn replayed window handle = r at hmissing hturn ⊢
  cases hturn with
  | missing => exact absurd hmissing (List.append_ne_nil_of_right_ne_nil _ (List.cons_ne_nil _ _))
  | _ => exact hp hmissing

/-- Orders that are known and that the window does not fill have their turns in vain. -/
theorem foldl_visit_of_quiet {p : MatchingPass α} {handles : List Nat}
    (h : ∀ handle ∈ handles, ∃ o, p.desk.orders.at? handle = some o ∧ p.desk.isMissing o = false ∧
      o.decision replayed window = none) : handles.foldl (visit replayed window) p = p := by
  induction handles with
  | nil => rfl
  | cons handle rest ih =>
    obtain ⟨o, ho, hknown, hnone⟩ := h handle List.mem_cons_self
    have hvisit : p.visit replayed window handle = p := by
      simp [visit, turn, ho, hknown, Desk.charge, hnone]
    rw [List.foldl_cons, hvisit]
    exact ih fun handle hhandle => h handle (List.mem_cons_of_mem _ hhandle)

end MatchingPass

/-! ## The same trades again -/

namespace Desk

section Refreshing

variable {σ : Type} [Exchange σ α]

/-- A trader that reads its orders anew leaves the size of the window alone. -/
theorem windowSize_refreshTrader (d : Desk α) (ex : σ) (name : String) :
    (d.refreshTrader ex name).1.1.windowSize = d.windowSize := by
  unfold refreshTrader
  split
  · rfl
  · exact windowSize_modifyTrader ..

/-- Traders that read their orders anew leave the size of the window alone. -/
theorem windowSize_refreshTraders (d : Desk α) (ex : σ) (names : List String) :
    (d.refreshTraders ex names).1.windowSize = d.windowSize := by
  induction names generalizing d ex with
  | nil => rfl
  | cons name rest ih => exact (ih _ _).trans (d.windowSize_refreshTrader ex name)

end Refreshing

variable [Amount α]

/-- What the fills of a matching pass are refused with, and the ids of the orders. -/
def refusals (d : Desk α) (m : Market α) (symbol : Symbol) (replayed : Bool) :
    List (String × EngineError α) :=
  match d.window? m symbol with
  | none => []
  | some window =>
    ({ desk := d } : MatchingPass α).refusals replayed window (d.orders.openOrders symbol)

/-- An order that is still open after a pass was missing, was refused, or the window does not fill
it. -/
theorem fate_pass (d : Desk α) {symbol : Symbol} {replayed : Bool} {window : List (Trade α)}
    {handle : Nat}
    (hhandle : handle ∈ (d.pass symbol replayed window).desk.orders.openOrders symbol)
    {o : Order α} (ho : (d.pass symbol replayed window).desk.orders.at? handle = some o) :
    o.id ∈ (d.pass symbol replayed window).report.missing ∨
    (∃ e, (o.id, e) ∈
      ({ desk := d } : MatchingPass α).refusals replayed window (d.orders.openOrders symbol)) ∨
    d.isMissing o = false ∧ o.decision replayed window = none := by
  have hframe := MatchingPass.frame_foldl_visit replayed window { desk := d }
    (d.orders.openOrders symbol)
  obtain ⟨slot', hslot', hstored', hsymbol', hopen'⟩ := OrderStore.mem_openOrders.1 hhandle
  obtain rfl : slot'.order = o :=
    Option.some.inj ((OrderStore.at?_eq_some.2 ⟨slot', hslot', rfl⟩).symm.trans ho)
  obtain ⟨old, hold, heq, hopen⟩ := hframe.exists_before ho
  obtain ⟨slot, hslot, rfl⟩ := OrderStore.at?_eq_some.1 hold
  refine MatchingPass.fate { desk := d } (OrderStore.mem_openOrders.2 ⟨slot, hslot, ?_, ?_, ?_⟩)
    ho hopen'
  · obtain ⟨slot'', hslot'', hstored, -⟩ :=
      OrderStore.exists_slot_of_fixtures hframe.fixtures_eq hslot
    obtain rfl := Option.some.inj (hslot''.symm.trans hslot')
    rw [← hstored, hstored']
  · rw [← hsymbol']
    exact (congrArg (·.symbol) heq).symm
  · exact hopen hopen'

/-- Another pass over the same trades, begun with the orders as a pass left them, fills an order
only if the first one missed or refused it. -/
theorem filled_pass_again (d d' : Desk α) {symbol : Symbol} {replayed : Bool}
    {window : List (Trade α)}
    (horders : d'.orders = (d.pass symbol replayed window).desk.orders) {id : String}
    (hid : id ∈ (d'.pass symbol replayed window).report.filled) :
    id ∈ (d.pass symbol replayed window).report.missing ∨
    ∃ e, (id, e) ∈
      ({ desk := d } : MatchingPass α).refusals replayed window (d.orders.openOrders symbol) := by
  rcases MatchingPass.exists_decided { desk := d' } hid with
    hnone | ⟨handle, hhandle, o, ho, -, rfl, hprice⟩
  · simp at hnone
  · rw [horders] at hhandle ho
    rcases d.fate_pass hhandle ho with hmissing | hrefused | ⟨-, hnone⟩
    · exact .inl hmissing
    · exact .inr hrefused
    · exact absurd hnone hprice

/-- If the first pass missed and refused nothing, another pass over the same trades does nothing. -/
theorem pass_again (d : Desk α) {symbol : Symbol} {replayed : Bool} {window : List (Trade α)}
    (hmissing : (d.pass symbol replayed window).report.missing = [])
    (hrefusals : ({ desk := d } : MatchingPass α).refusals replayed window
      (d.orders.openOrders symbol) = []) :
    (d.pass symbol replayed window).desk.pass symbol replayed window
      = { desk := (d.pass symbol replayed window).desk } := by
  refine MatchingPass.foldl_visit_of_quiet fun handle hhandle => ?_
  obtain ⟨slot, hslot, -⟩ := OrderStore.mem_openOrders.1 hhandle
  have ho := OrderStore.at?_eq_some.2 ⟨slot, hslot, rfl⟩
  have hframe := MatchingPass.frame_foldl_visit replayed window { desk := d }
    (d.orders.openOrders symbol)
  rcases d.fate_pass hhandle ho with hmissed | ⟨e, hrefused⟩ | ⟨hknown, hnone⟩
  · simp [hmissing] at hmissed
  · simp [hrefusals] at hrefused
  · exact ⟨slot.order, ho, (isMissing_congr hframe.knowledge_eq _).trans hknown, hnone⟩

variable {σ : Type} [Exchange σ α]

/-- When the orders of a symbol are matched against the same trades twice in a row, an order that is
filled the second time was missing the first time, or was refused because a balance was too small;
an order that is canceled the second time is linked to one that is filled then. Hence, if the first
time no order was missing or refused, nothing happens the second time, and the report is empty. -/
theorem matchSymbol_again (d : Desk α) (m : Market α) (ex : σ) (symbol : Symbol)
    (replayed : Bool) :
    let first := d.matchSymbol m ex symbol replayed
    let second := first.1.1.matchSymbol m first.2 symbol replayed
    (∀ id ∈ second.1.2.filled, id ∈ first.1.2.missing ∨
      ∃ currency required available,
        (id, .insufficientFunds currency required available) ∈ d.refusals m symbol replayed ∧
          available < required) ∧
    (∀ id ∈ second.1.2.canceled, ∃ o ∈ first.1.1.orders.opened symbol,
      o.id ∈ second.1.2.filled ∧ id ∈ o.linked) ∧
    (first.1.2.missing = [] → d.refusals m symbol replayed = [] →
      second = ((first.1.1, {}), first.2)) := by
  intro first second
  cases hwindow : d.window? m symbol with
  | none =>
    have hfirst : first = ((d, {}), ex) := by simp only [first, matchSymbol, hwindow]
    have hsecond : second = ((d, {}), ex) := by
      simp only [second, hfirst, matchSymbol, hwindow]
    rw [hsecond, hfirst]
    simp
  | some window =>
    obtain ⟨r, hr⟩ : ∃ r, (d.pass symbol replayed window).desk.refreshTraders ex
      (d.pass symbol replayed window).toRefresh = r := ⟨_, rfl⟩
    have hfirst : first = ((r.1, (d.pass symbol replayed window).report), r.2) := by
      simp only [first, matchSymbol, hwindow, hr]
    -- the refreshes between the passes change neither the orders nor the window
    have horders : r.1.orders = (d.pass symbol replayed window).desk.orders := by
      rw [← hr, orders_refreshTraders]
    have hwindow' : r.1.window? m symbol = some window := by
      have hsize : r.1.windowSize = d.windowSize := by
        rw [← hr, windowSize_refreshTraders]
        exact (MatchingPass.frame_foldl_visit replayed window { desk := d } _).windowSize_eq
      rwa [window?, hsize]
    refine ⟨fun id hid => ?_, fun id hid => ?_, fun hmissing hrefusals => ?_⟩
    · simp only [second, hfirst, matchSymbol, hwindow'] at hid
      rw [hfirst, refusals, hwindow]
      refine (filled_pass_again d r.1 horders hid).imp_right fun hrefused => ?_
      obtain ⟨e, he⟩ := hrefused
      obtain ⟨currency, required, available, rfl, hshort⟩ :=
        MatchingPass.insufficient_of_mem_refusals he
      exact ⟨currency, required, available, he, hshort⟩
    · obtain ⟨p, closed, missed, htally, -, hreport⟩ :=
        first.1.1.exists_tally m first.2 symbol replayed
      rw [show second.1.2 = p.report from hreport] at hid ⊢
      obtain ⟨-, -, -, -, hlinked⟩ := htally.exists_linked hid
      exact hlinked
    · rw [hfirst] at hmissing ⊢
      rw [refusals, hwindow] at hrefusals
      rw [MatchingPass.toRefresh_eq_nil d symbol hmissing] at hr
      obtain rfl : ((d.pass symbol replayed window).desk, ex) = r := hr
      simp only [second, hfirst, matchSymbol, hwindow', pass_again d hmissing hrefusals]
      rfl

end Desk

/-! ## A purchase that waits for a sale -/

/-- A purchase that there is no money for before the sale behind it. -/
def waitingEvents : List (FloorEvent (ScriptedExchange ℚ) ℚ) :=
  [.add (.new "buy" "BTC/USDT" .buyMarket 0 12 "sim" 0),
    .add (.new "sell" "BTC/USDT" .sellMarket 0 5 "sim" 0), .trades "BTC/USDT" [⟨115, 1, 5⟩]]

/-- The first time the purchase is refused and the sale filled, the second time the purchase is
filled, and the third time nothing happens. -/
theorem Desk.matchSymbol_again_waiting :
    let f := Floor.bracketFloor.run waitingEvents
    let first := f.desk.matchSymbol f.market f.exchange "BTC/USDT" false
    let second := first.1.1.matchSymbol f.market first.2 "BTC/USDT" false
    let third := second.1.1.matchSymbol f.market second.2 "BTC/USDT" false
    first.1.2 = ⟨["sell"], [], []⟩ ∧ second.1.2 = ⟨["buy"], [], []⟩ ∧
      (∃ currency required available,
        ("buy", .insufficientFunds currency required available)
            ∈ f.desk.refusals f.market "BTC/USDT" false ∧ available < required) ∧
      third = ((second.1.1, {}), second.2) := by
  intro f first second third
  have hfirst : first.1.2 = ⟨["sell"], [], []⟩ := by decide +kernel
  have hsecond : second.1.2 = ⟨["buy"], [], []⟩ := by decide +kernel
  have hrefusals : first.1.1.refusals f.market "BTC/USDT" false = [] := by
    rw [← List.isEmpty_iff]
    decide +kernel
  -- from here on the reports are all that matters, and the floor is any floor
  clear_value f
  have hbuy : "buy" ∈ second.1.2.filled := by
    rw [hsecond]
    exact List.mem_singleton_self _
  have hknown : "buy" ∉ first.1.2.missing := by
    rw [hfirst]
    exact List.not_mem_nil
  have hmissing : second.1.2.missing = [] := by rw [hsecond]
  obtain ⟨hfilled, -, -⟩ := f.desk.matchSymbol_again f.market f.exchange "BTC/USDT" false
  obtain ⟨-, -, hnothing⟩ := first.1.1.matchSymbol_again f.market first.2 "BTC/USDT" false
  exact ⟨hfirst, hsecond, (hfilled "buy" hbuy).resolve_left hknown, hnothing hmissing hrefusals⟩

end MarketEngine
