import MarketEngine.Proofs.Trading.BoundedStore
import MarketEngine.Proofs.Trading.Closings
import MarketEngine.Proofs.Trading.Floor
/-!
# The life of an order

Whatever happens on a trading floor, an order that is placed open and unfilled is closed at most
once, says what was filled of it, and does not change any more but for its links; its trader is told
of it exactly if a pass closed it, and then once and with the order as the pass left it
(`Floor.life_cycle`).

Events without matching do to the orders what they do to a store (`Floor.orders_step`) and tell no
trader anything; a pass closes some orders (`Floor.closes_step`).
-/

namespace MarketEngine

variable {σ α : Type}

/-- The rate of a fill, by the kind of the order. -/
theorem FeeSchedule.rate_eq (fees : FeeSchedule α) (kind : OrderKind) :
    fees.rate kind = if kind ∈ [.buyMarket, .sellMarket, .stopLoss, .stopLossLimit] then fees.taker
      else fees.maker := by
  cases kind <;> rfl

/-- An order as it is placed: open, and nothing of it is filled. -/
structure Order.IsNew [Amount α] (o : Order α) : Prop where
  isOpen : o.isOpen = true
  filledPrice : o.filledPrice = none
  filledQuantity : o.filledQuantity = Amount.zero
  fee : o.fee = none

/-- Every new order is as placed. -/
theorem Order.isNew_new [Amount α] (id : String) (symbol : Symbol) (kind : OrderKind)
    (price quantity : α) (trader : String) (created : Int) :
    (new id symbol kind price quantity trader created).IsNew :=
  ⟨rfl, rfl, rfl, rfl⟩

/-- A new order says rightly that nothing of it was filled. -/
theorem Order.IsNew.accounted [Amount α] {o : Order α} (h : o.IsNew) (fees : FeeSchedule α) :
    o.Accounted fees where
  filled hfilled := by
    have hopen := isOpen_iff.1 h.isOpen
    rw [hfilled] at hopen
    exact absurd hopen (by decide)
  unfilled _ := ⟨h.filledPrice, h.filledQuantity, h.fee⟩

/-- What an event without matching does to the orders, if anything. -/
def FloorEvent.toStore? : FloorEvent σ α → Option (StoreEvent α)
  | .add o => some (.add o)
  | .link first second => some (.link first second)
  | .cancel handle => some (.cancel handle)
  | _ => none

namespace OrderStore

/-- An order that was not there before is the one that is added. -/
theorem at?_step_of_none {s : OrderStore α} {handle : Nat} (hnone : s.at? handle = none)
    (e : StoreEvent α) {o : Order α} (ho : (s.step e).at? handle = some o) : e = .add o := by
  cases e with
  | add new =>
    rw [step] at ho
    split at ho
    · next s' hadd =>
      rw [at?_add hadd] at ho
      split at ho
      · rw [Option.some.inj ho]
      · rw [hnone] at ho
        simp at ho
    · rw [hnone] at ho
      simp at ho
  | link first second =>
    rw [step] at ho
    split at ho
    · next s' hlink =>
      obtain ⟨a, b, -, -, rfl⟩ := link_eq_ok hlink
      simp [at?_modify, hnone] at ho
    · rw [hnone] at ho
      simp at ho
  | fill | cancel => simp [step, at?_modify, hnone] at ho

end OrderStore

/-- An event of a store other than a fill keeps what the orders say of their fills. -/
theorem Desk.Accounted.step [Amount α] {d d' : Desk α} (h : d.Accounted) {e : StoreEvent α}
    (hfees : d'.fees = d.fees) (horders : d'.orders = d.orders.step e)
    (hadd : ∀ o, e = .add o → o.IsNew) (hfill : ∀ handle price fee, e ≠ .fill handle price fee) :
    d'.Accounted := by
  have hsame : d'.orders = d.orders → d'.Accounted := by
    intro horders handle o ho
    rw [horders] at ho
    rw [hfees]
    exact h ho
  cases e with
  | add new =>
    rw [OrderStore.step] at horders
    split at horders
    · next s' hs' =>
      intro handle o ho
      rw [horders, OrderStore.at?_add hs'] at ho
      rw [hfees]
      split at ho
      · rw [← Option.some.inj ho]
        exact (hadd new rfl).accounted d.fees
      · exact h ho
    · exact hsame horders
  | link first second =>
    rw [OrderStore.step] at horders
    split at horders
    · next s' hlink =>
      -- each of the two gets a link, and what is written on it stays
      obtain ⟨a, b, -, -, rfl⟩ := OrderStore.link_eq_ok hlink
      have hfirst : ({ d with orders := d.orders.modify a (·.link second) } : Desk α).Accounted :=
        h.modify rfl rfl fun o _ ho => ho.link second
      exact hfirst.modify hfees horders fun o _ ho => ho.link first
    · exact hsame horders
  | fill handle price fee => exact absurd rfl (hfill handle price fee)
  | cancel handle =>
    have hcancel : d'.orders = d.orders.modify handle (·.cancel.1) := horders
    exact h.modify hfees hcancel fun o _ ho => ho.cancel

namespace Floor

variable [Exchange σ α] [Amount α]

/-! ## Steps -/

/-- Outside of passes only additions, links and cancellations touch the orders. -/
theorem orders_step (f : Floor σ α) {e : FloorEvent σ α} (he : e.isPass = false) :
    (f.step e).desk.orders = e.toStore?.elim f.desk.orders f.desk.orders.step := by
  cases e with
  | add o =>
    simp only [step, FloorEvent.toStore?, Option.elim_some, OrderStore.step]
    cases f.desk.orders.add o <;> rfl
  | link first second =>
    simp only [step, FloorEvent.toStore?, Option.elim_some, OrderStore.step]
    cases f.desk.orders.link first second <;> rfl
  | refresh trader =>
    rw [step]
    split <;> rfl
  | pass | passAll => simp [FloorEvent.isPass] at he
  | _ => rfl

/-- Without matching, nobody is told anything. -/
theorem log?_step (f : Floor σ α) {e : FloorEvent σ α} (he : e.isPass = false) :
    (f.step e).desk.fees = f.desk.fees ∧
    ∀ name, (f.step e).desk.log? name = f.desk.log? name := by
  cases e with
  | add o =>
    rw [step]
    split <;> exact ⟨rfl, fun name => rfl⟩
  | link first second =>
    rw [step]
    split <;> exact ⟨rfl, fun name => rfl⟩
  -- a trader that is told of the exchange's orders, or reads them, keeps its log
  | openOrders trader symbol orders =>
    refine ⟨rfl, Desk.log?_congr (map_modify (fun t => ?_) _ _)⟩
    unfold Trader.replaceKnown
    split <;> rfl
  | track trader symbol id =>
    exact ⟨rfl, Desk.log?_congr
      (map_modify (f := fun t : Trader α => t.track symbol id) (fun t => rfl) _ _)⟩
  | refresh trader =>
    rw [step]
    split
    · exact ⟨rfl, fun name => rfl⟩
    · next t ht =>
      refine ⟨rfl, Desk.log?_congr ?_⟩
      simp only [List.set_eq_modify]
      refine map_modify_of_getElem? fun t' ht' => ?_
      rw [ht, Option.some.injEq] at ht'
      rw [← ht']
      exact Desk.log_forceRefresh t f.desk.portfolio f.exchange
  | pass | passAll => simp [FloorEvent.isPass] at he
  | _ => exact ⟨rfl, fun name => rfl⟩

/-- Matching closes some orders. -/
theorem closes_step (f : Floor σ α) {e : FloorEvent σ α} (he : e.isPass = true) :
    ∃ closed, f.desk.Closes closed (f.step e).desk := by
  have hpasses : ∀ (symbols : List Symbol) (replayed : Bool) (f : Floor σ α), ∃ closed,
      f.desk.Closes closed (symbols.foldl (fun f symbol => f.pass symbol replayed) f).desk := by
    intro symbols replayed
    induction symbols with
    | nil => exact fun f => ⟨[], .refl _⟩
    | cons symbol rest ih =>
      intro f
      obtain ⟨closed, hclosed⟩ := f.desk.closes_matchSymbol f.market f.exchange symbol replayed
      obtain ⟨closed', hclosed'⟩ := ih (f.pass symbol replayed)
      exact ⟨_, Desk.Closes.trans hclosed hclosed'⟩
  cases e with
  | pass symbol replayed => exact f.desk.closes_matchSymbol f.market f.exchange symbol replayed
  | passAll replayed => exact hpasses _ replayed f
  | _ => simp [FloorEvent.isPass] at he

/-- In the course of a run orders age and none is lost. -/
theorem ages_run (f : Floor σ α) (events : List (FloorEvent σ α)) :
    f.desk.orders.Ages (f.run events).desk.orders := by
  refine run_induction (motive := fun g => f.desk.orders.Ages g.desk.orders)
    (fun g hg e _ he => hg.trans (g.step_spec he).unfilled.ages) (fun g hg symbol replayed => ?_)
    (.refl _)
  obtain ⟨p, rfl | ⟨window, rfl⟩, horders, -⟩ := g.pass_spec symbol replayed
  · rwa [horders]
  · rw [horders]
    exact hg.trans (g.desk.kept_pass symbol replayed window).ages

/-- A step keeps the fees, and what the orders say of their fills. -/
theorem accounted_step {f : Floor σ α} {e : FloorEvent σ α} (hnew : ∀ o, e = .add o → o.IsNew) :
    (f.step e).desk.fees = f.desk.fees ∧
    (f.desk.Accounted → (f.step e).desk.Accounted) := by
  cases he : e.isPass with
  | true =>
    obtain ⟨closed, hclosed⟩ := f.closes_step he
    exact ⟨hclosed.fees_eq, hclosed.accounted⟩
  | false =>
    obtain ⟨hfees, -⟩ := f.log?_step he
    refine ⟨hfees, fun h => ?_⟩
    have horders := f.orders_step he
    cases hstore : e.toStore? with
    | none =>
      rw [hstore] at horders
      intro handle o ho
      rw [horders] at ho
      rw [hfees]
      exact h ho
    | some e' =>
      rw [hstore] at horders
      refine h.step hfees horders ?_ ?_
      · rintro o rfl
        cases e <;> simp [FloorEvent.toStore?] at hstore
        exact hnew o (by rw [hstore])
      · rintro handle price fee rfl
        cases e <;> simp [FloorEvent.toStore?] at hstore

/-- Through every run the fees stay and every order says what was filled of it. -/
theorem accounted_run {f : Floor σ α} {events : List (FloorEvent σ α)}
    (hnew : ∀ o, .add o ∈ events → o.IsNew) (hf : f.desk.Accounted) :
    (f.run events).desk.fees = f.desk.fees ∧ (f.run events).desk.Accounted := by
  induction events generalizing f with
  | nil => exact ⟨rfl, hf⟩
  | cons e events ih =>
    obtain ⟨hfees, haccounted⟩ := accounted_step (f := f) (e := e)
      fun o ho => hnew o (ho ▸ List.mem_cons_self)
    obtain ⟨hfees', haccounted'⟩ :=
      ih (fun o ho => hnew o (List.mem_cons_of_mem e ho)) (haccounted hf)
    exact ⟨hfees'.trans hfees, haccounted'⟩

/-- An order that is new after a step is open. -/
theorem status?_step_of_none {f : Floor σ α} {e : FloorEvent σ α}
    (hnew : ∀ o, e = .add o → o.IsNew) {handle : Nat} (hnone : f.desk.orders.at? handle = none)
    {status : OrderStatus} (hstatus : (f.step e).desk.orders.status? handle = some status) :
    status = .opened := by
  obtain ⟨o, ho, rfl⟩ := OrderStore.status?_eq_some.1 hstatus
  cases he : e.isPass with
  | true =>
    obtain ⟨closed, hclosed⟩ := f.closes_step he
    have hmem : handle ∉ closed.map (·.1) := by
      intro hmem
      obtain ⟨⟨_, o'⟩, hentry, rfl⟩ := List.mem_map.1 hmem
      obtain ⟨hopen, -⟩ := (hclosed.mem_iff _ o').1 hentry
      simp [OrderStore.status?, hnone] at hopen
    rw [hclosed.others handle hmem, hnone] at ho
    simp at ho
  | false =>
    rw [f.orders_step he] at ho
    cases hstore : e.toStore? with
    | none =>
      rw [hstore, Option.elim_none, hnone] at ho
      simp at ho
    | some e' =>
      rw [hstore, Option.elim_some] at ho
      obtain rfl := OrderStore.at?_step_of_none hnone e' ho
      cases e <;> simp [FloorEvent.toStore?] at hstore
      exact Order.isOpen_iff.1 (hnew o (by rw [hstore])).isOpen

/-! ## The statuses of an order -/

/-- The statuses that an order has in the course of a run, from its acceptance on: at the beginning
and after each event. -/
def statuses (handle : Nat) (f : Floor σ α) : List (FloorEvent σ α) → List OrderStatus
  | [] => (f.desk.orders.status? handle).toList
  | e :: events => (f.desk.orders.status? handle).toList ++ (f.step e).statuses handle events

/-- A closed order has one status to the end of the run. -/
theorem statuses_of_closed {f : Floor σ α} {handle : Nat} {status : OrderStatus}
    (hstatus : f.desk.orders.status? handle = some status) (hclosed : status ≠ .opened)
    (events : List (FloorEvent σ α)) :
    f.statuses handle events = List.replicate (events.length + 1) status := by
  induction events generalizing f with
  | nil => simp [statuses, hstatus]
  | cons e events ih =>
    have hstep : (f.step e).desk.orders.status? handle = some status :=
      (f.ages_run [e]).status?_eq hstatus hclosed
    rw [statuses, hstatus, ih hstep]
    rfl

/-- An order is open for a while, and may then be closed for good. -/
theorem statuses_eq {f : Floor σ α} {events : List (FloorEvent σ α)}
    (hnew : ∀ o, .add o ∈ events → o.IsNew) {handle : Nat}
    (hopen : ∀ status, f.desk.orders.status? handle = some status → status = .opened) :
    ∃ n m status, status ≠ .opened ∧ (m ≠ 0 → n ≠ 0) ∧
      f.statuses handle events = List.replicate n .opened ++ List.replicate m status := by
  induction events generalizing f with
  | nil =>
    cases hstatus : f.desk.orders.status? handle with
    | none => exact ⟨0, 0, .filled, by decide, by simp, by simp [statuses, hstatus]⟩
    | some status =>
      obtain rfl := hopen status hstatus
      exact ⟨1, 0, .filled, by decide, by simp, by simp [statuses, hstatus]⟩
  | cons e events ih =>
    have hadd : ∀ o, e = .add o → o.IsNew := fun o ho => hnew o (ho ▸ List.mem_cons_self)
    have hrest : ∀ o, .add o ∈ events → o.IsNew :=
      fun o ho => hnew o (List.mem_cons_of_mem e ho)
    -- as long as the order is not closed the induction goes on
    by_cases hstep : ∀ status, (f.step e).desk.orders.status? handle = some status →
        status = .opened
    · obtain ⟨n, m, status, hclosed, hpos, hstatuses⟩ := ih hrest hstep
      rw [statuses, hstatuses]
      cases hstatus : f.desk.orders.status? handle with
      | none => exact ⟨n, m, status, hclosed, hpos, rfl⟩
      | some status' =>
        obtain rfl := hopen status' hstatus
        exact ⟨n + 1, m, status, hclosed, fun _ => Nat.succ_ne_zero n, rfl⟩
    · -- the event closes the order
      obtain ⟨status, hstep⟩ := not_forall.1 hstep
      obtain ⟨hstatus, hclosed⟩ := Classical.not_imp.1 hstep
      rw [statuses, statuses_of_closed hstatus hclosed]
      cases hbefore : f.desk.orders.status? handle with
      | none =>
        have hnone : f.desk.orders.at? handle = none := Option.map_eq_none_iff.1 hbefore
        exact absurd (status?_step_of_none hadd hnone hstatus) hclosed
      | some status' =>
        obtain rfl := hopen status' hbefore
        exact ⟨1, _, status, hclosed, fun _ => Nat.one_ne_zero, rfl⟩

/-! ## What traders are told in the course of a run -/

/-- A pass found the order open and left it as it says here, and closed. -/
def ClosedByPass (f : Floor σ α) (events : List (FloorEvent σ α)) (handle : Nat) (o : Order α) :
    Prop :=
  ∃ before e after, events = before ++ e :: after ∧ e.isPass = true ∧
    (f.run before).desk.orders.status? handle = some .opened ∧
    (f.run (before ++ [e])).desk.orders.at? handle = some o ∧ o.isOpen = false

/-- A pass closed an order in a run if the first event did, or a later one. -/
theorem closedByPass_cons {f : Floor σ α} {e : FloorEvent σ α} {events : List (FloorEvent σ α)}
    {handle : Nat} {o : Order α} : f.ClosedByPass (e :: events) handle o ↔
      e.isPass = true ∧ f.desk.orders.status? handle = some .opened ∧
        (f.step e).desk.orders.at? handle = some o ∧ o.isOpen = false ∨
      (f.step e).ClosedByPass events handle o := by
  constructor
  · rintro ⟨before, e', after, hevents, he', hopen, ho, hclosed⟩
    cases before with
    | nil =>
      obtain ⟨rfl, rfl⟩ := List.cons.inj hevents
      exact .inl ⟨he', hopen, ho, hclosed⟩
    | cons first before =>
      obtain ⟨rfl, rfl⟩ := List.cons.inj hevents
      exact .inr ⟨before, e', after, rfl, he', hopen, ho, hclosed⟩
  · rintro (⟨he, hopen, ho, hclosed⟩ | ⟨before, e', after, rfl, he', hopen, ho, hclosed⟩)
    · exact ⟨[], e, events, rfl, he, hopen, ho, hclosed⟩
    · exact ⟨e :: before, e', after, rfl, he', hopen, ho, hclosed⟩

/-- A pass closes no order that is closed already. -/
theorem ClosedByPass.isOpen {f : Floor σ α} {events : List (FloorEvent σ α)} {handle : Nat}
    {o : Order α} (h : f.ClosedByPass events handle o) {o' : Order α}
    (ho' : f.desk.orders.at? handle = some o') : o'.isOpen = true := by
  obtain ⟨before, -, -, -, -, hopen, -⟩ := h
  by_contra hclosed
  rw [Bool.not_eq_true, Order.isOpen_eq_false] at hclosed
  have hstatus : f.desk.orders.status? handle = some o'.status :=
    OrderStore.status?_eq_some.2 ⟨o', ho', rfl⟩
  rw [(f.ages_run before).status?_eq hstatus hclosed, Option.some.injEq] at hopen
  exact hclosed hopen

/-- Through a run, traders are told of the orders that passes closed, of each once and in the order
of the passes. -/
theorem told_run (f : Floor σ α) (events : List (FloorEvent σ α)) :
    ∃ closed : List (Nat × Order α), (closed.map (·.1)).Nodup ∧
      (∀ handle o, (handle, o) ∈ closed ↔ f.ClosedByPass events handle o) ∧
      ∀ name, (f.run events).desk.log? name = (f.desk.log? name).map fun log =>
        (log.1 ++ Desk.told .filled name closed, log.2 ++ Desk.told .canceled name closed) := by
  induction events generalizing f with
  | nil =>
    refine ⟨[], List.nodup_nil, fun handle o => ?_, fun name => by simp [run, Desk.told]⟩
    constructor
    · intro hmem
      simp at hmem
    · rintro ⟨before, e, after, hevents, -⟩
      simp at hevents
  | cons e events ih =>
    obtain ⟨closed', hnodup', hmem', hlog'⟩ := ih (f.step e)
    cases he : e.isPass with
    | false =>
      refine ⟨closed', hnodup', fun handle o => ?_, fun name => ?_⟩
      · rw [hmem', closedByPass_cons, he]
        simp
      · rw [← (f.log?_step he).2 name]
        exact hlog' name
    | true =>
      obtain ⟨closed, hclosed⟩ := f.closes_step he
      refine ⟨closed ++ closed', ?_, fun handle o => ?_, fun name => ?_⟩
      -- an order that this pass closed is no longer open for a later one
      · rw [List.map_append, List.nodup_append']
        refine ⟨hclosed.nodup, hnodup', fun handle hmem hmem'' => ?_⟩
        obtain ⟨⟨_, o⟩, hentry, rfl⟩ := List.mem_map.1 hmem
        obtain ⟨⟨_, o'⟩, hentry', hhandle⟩ := List.mem_map.1 hmem''
        obtain rfl : _ = _ := hhandle
        obtain ⟨-, ho, hnot⟩ := (hclosed.mem_iff _ o).1 hentry
        have hopen := ((hmem' _ o').1 hentry').isOpen ho
        rw [hnot] at hopen
        simp at hopen
      · rw [List.mem_append, hclosed.mem_iff, hmem', closedByPass_cons]
        simp [he]
      · have hrun : (f.run (e :: events)).desk.log? name = ((f.step e).run events).desk.log? name :=
          rfl
        rw [hrun, hlog' name, hclosed.log?_eq, Option.map_map]
        congr 1
        funext log
        rw [Function.comp_apply, Desk.told_append, Desk.told_append, List.append_assoc,
          List.append_assoc]

/-! ## The life of an order -/

/-- On a floor where orders are placed open and unfilled, whatever happens:

* an order is open from its acceptance on, and may then be filled or canceled for good;
* it is filled exactly if a price and a fee are written on it, and then all of it is filled, for the
  fee of its kind; otherwise nothing is written on it;
* once it is closed, only its links change;
* a trader that is there from the start is told of the orders of its name that passes closed, of
  each once, filled or canceled, and as the pass left it. -/
theorem life_cycle (market : Market α) (exchange : σ) (desk : Desk α) (mostOrders : Nat)
    (events : List (FloorEvent σ α)) (hnew : ∀ o, .add o ∈ events → o.IsNew) :
    let f := opening market exchange desk mostOrders
    let g := f.run events
    (∀ handle, ∃ n m status, status ≠ .opened ∧ (m ≠ 0 → n ≠ 0) ∧
      f.statuses handle events = List.replicate n .opened ++ List.replicate m status) ∧
    (∀ handle o, g.desk.orders.at? handle = some o →
      (o.status = .filled ↔ o.filledPrice.isSome ∧ o.fee.isSome) ∧
      (o.status = .filled → ∃ price, o.filledPrice = some price ∧
        o.filledQuantity = o.quantity ∧
        o.fee = some ⟨o.quantity * price *
          (if o.kind ∈ [.buyMarket, .sellMarket, .stopLoss, .stopLossLimit] then desk.fees.taker
            else desk.fees.maker), o.symbol.quote⟩) ∧
      (o.status ≠ .filled → o.filledPrice = none ∧ o.filledQuantity = Amount.zero ∧
        o.fee = none)) ∧
    (∀ before after, events = before ++ after → ∀ handle o,
      (f.run before).desk.orders.at? handle = some o → o.isOpen = false →
      ∃ linked, g.desk.orders.at? handle = some { o with linked }) ∧
    ∃ closed : List (Nat × Order α), (closed.map (·.1)).Nodup ∧
      (∀ handle o, (handle, o) ∈ closed ↔ f.ClosedByPass events handle o) ∧
      ∀ name t, desk.trader? name = some t → ∃ t', g.desk.trader? name = some t' ∧
        t'.fills = t.fills ++ (closed.filter fun entry =>
          entry.2.status == .filled && entry.2.trader == name).map (·.2) ∧
        t'.cancels = t.cancels ++ (closed.filter fun entry =>
          entry.2.status == .canceled && entry.2.trader == name).map (·.2) := by
  intro f g
  -- there is no order in the beginning, so what steps keep holds of all orders of the run
  have hnone : ∀ handle, f.desk.orders.at? handle = none := fun handle => rfl
  have hf : f.desk.Accounted := by
    intro handle o ho
    rw [hnone] at ho
    simp at ho
  obtain ⟨hfees, haccounted⟩ := accounted_run hnew hf
  refine ⟨fun handle => ?_, fun handle o ho => ?_, ?_, ?_⟩
  · refine statuses_eq hnew fun status hstatus => ?_
    rw [OrderStore.status?, hnone] at hstatus
    simp at hstatus
  · have hrecord := haccounted ho
    rw [hfees] at hrecord
    refine ⟨⟨fun hfilled => ?_, fun hwritten => ?_⟩, fun hfilled => ?_, hrecord.unfilled⟩
    · obtain ⟨price, hprice, -, hfee⟩ := hrecord.filled hfilled
      rw [hprice, hfee]
      exact ⟨rfl, rfl⟩
    · by_contra hunfilled
      obtain ⟨hprice, -, -⟩ := hrecord.unfilled hunfilled
      rw [hprice] at hwritten
      simp at hwritten
    · obtain ⟨price, hprice, hquantity, hfee⟩ := hrecord.filled hfilled
      refine ⟨price, hprice, hquantity, ?_⟩
      rw [hfee, Order.feeAt, FeeSchedule.rate_eq]
      rfl
  · rintro before after rfl handle o ho hclosed
    obtain ⟨o', ho', hages⟩ := (f.run before).ages_run after ho
    have hrun : g = (f.run before).run after := List.foldl_append
    have hrecord : { o with linked := o'.linked } = o' :=
      congrArg (fun record : Order α => { record with linked := o'.linked })
        (hages.record_eq hclosed).symm
    exact ⟨o'.linked, by rw [hrun, ho', hrecord]⟩
  -- the log of a name grows by what the passes closed for it, so also that of this trader
  · obtain ⟨closed, hnodup, hmem, hlog⟩ := told_run f events
    refine ⟨closed, hnodup, hmem, fun name t ht => ?_⟩
    have htold := hlog name
    have ht' : f.desk.trader? name = some t := ht
    rw [Desk.log?, Desk.log?, ht', Option.map_some, Option.map_some] at htold
    obtain ⟨t', hget, hlog'⟩ := Option.map_eq_some_iff.1 htold
    exact ⟨t', hget, congrArg (·.1) hlog', congrArg (·.2) hlog'⟩

/-- The trader of the bracket is told once of the target's fill and once of the stop's end. -/
theorem life_cycle_bracket :
    let desk : Desk ℚ :=
      { bracketFloor.desk with traders := [{ name := "sim", symbols := ["BTC/USDT"] }] }
    let events := bracketOrders ++ .link "target" "stop" :: bracketMatching
    let g := (opening bracketFloor.market bracketFloor.exchange desk 3).run events
    (∀ o, .add o ∈ events → o.IsNew) ∧
    g.desk.orders.status? 0 = some .filled ∧ g.desk.orders.status? 1 = some .canceled ∧
    ∃ (closed : List (Nat × Order ℚ)) (t : Trader ℚ), (closed.map (·.1)).Nodup ∧
      g.desk.trader? "sim" = some t ∧
      t.fills = (closed.filter fun entry =>
        entry.2.status == .filled && entry.2.trader == "sim").map (·.2) ∧
      t.fills.map (·.id) = ["target"] ∧ t.cancels.map (·.id) = ["stop"] := by
  intro desk events g
  have hnew : ∀ o, .add o ∈ events → o.IsNew := by
    intro o ho
    simp only [events, bracketOrders, bracketMatching, List.cons_append, List.nil_append,
      List.mem_cons, FloorEvent.add.injEq, reduceCtorEq, List.not_mem_nil, or_false] at ho
    rcases ho with rfl | rfl | rfl <;> exact Order.isNew_new ..
  obtain ⟨-, -, -, closed, hnodup, -, htold⟩ :=
    life_cycle bracketFloor.market bracketFloor.exchange desk 3 events hnew
  obtain ⟨t, ht, hfills, -⟩ := htold "sim" { name := "sim", symbols := ["BTC/USDT"] } rfl
  have hids : (g.desk.trader? "sim").map (fun t => (t.fills.map (·.id), t.cancels.map (·.id)))
      = some (["target"], ["stop"]) := by decide +kernel
  have ht' : g.desk.trader? "sim" = some t := ht
  rw [ht', Option.map_some, Option.some.injEq, Prod.mk.injEq] at hids
  exact ⟨hnew, by decide +kernel, by decide +kernel, closed, t, hnodup, ht, hfills, hids.1, hids.2⟩

end Floor

end MarketEngine
