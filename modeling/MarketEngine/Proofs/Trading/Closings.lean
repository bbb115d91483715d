import MarketEngine.Proofs.Trading.Turns
import Mathlib.Data.List.Nodup
/-!
# Orders that a pass closes

A pass fills and cancels orders, and tells their traders. What it closed on the way is a list of
handles with the orders as they were left (`Desk.Closes`): every order that was open before and is
not open afterwards is in it once, all other orders are as before, and each trader was told of
exactly those entries that are its own. Such lists of consecutive changes add up
(`Desk.Closes.trans`), and so a matching of orders has one (`Desk.closes_matchSymbol`).
-/

namespace MarketEngine

variable {α : Type}

/-! ## What is written on a filled order -/

section Accounted

variable [Amount α]

/-- A filled order says at which price and for which fee it was filled, and all of it was; any other
order says that nothing was. -/
structure Order.Accounted (fees : FeeSchedule α) (o : Order α) : Prop where
  filled : o.status = .filled → ∃ price, o.filledPrice = some price ∧
    o.filledQuantity = o.quantity ∧ o.fee = some (o.feeAt fees price)
  unfilled : o.status ≠ .filled → o.filledPrice = none ∧ o.filledQuantity = Amount.zero ∧
    o.fee = none

namespace Order

variable {fees : FeeSchedule α} {o : Order α}

/-- A link says nothing about a fill. -/
theorem Accounted.link (h : o.Accounted fees) (id : String) : (o.link id).Accounted fees := by
  unfold Order.link
  split
  · exact h
  · exact ⟨h.filled, h.unfilled⟩

/-- A canceled order says that nothing of it was filled. -/
theorem Accounted.cancel (h : o.Accounted fees) : o.cancel.1.Accounted fees := by
  unfold Order.cancel
  split
  · next hopen =>
    have hunfilled : o.status ≠ .filled := by
      rw [isOpen_iff.1 hopen]
      decide
    exact ⟨fun hfilled => absurd hfilled (by simp), fun _ => h.unfilled hunfilled⟩
  · exact h

/-- A fill of an open order is written on it in full. -/
theorem accounted_fill (hopen : o.isOpen = true) (price : α) :
    (o.fill price (o.feeAt fees price)).1.Accounted fees := by
  unfold fill
  rw [if_pos hopen]
  exact ⟨fun _ => ⟨price, rfl, rfl, rfl⟩, fun hunfilled => absurd rfl hunfilled⟩

end Order

/-- All orders of the desk say what was filled of them. -/
def Desk.Accounted (d : Desk α) : Prop :=
  ∀ ⦃handle : Nat⦄ ⦃o : Order α⦄, d.orders.at? handle = some o → o.Accounted d.fees

/-- All orders say what was filled of them if the one that changes does. -/
theorem Desk.Accounted.modify {d d' : Desk α} (h : d.Accounted) {handle : Nat}
    {f : Order α → Order α} (hfees : d'.fees = d.fees)
    (horders : d'.orders = d.orders.modify handle f)
    (hf : ∀ o, d.orders.at? handle = some o → o.Accounted d.fees → (f o).Accounted d.fees) :
    d'.Accounted := by
  intro k o ho
  rw [horders, OrderStore.at?_modify] at ho
  rw [hfees]
  split at ho
  · next hk =>
    obtain ⟨old, hold, rfl⟩ := Option.map_eq_some_iff.1 ho
    subst hk
    exact hf old hold (h hold)
  · exact h ho

end Accounted

/-! ## What a trader was told -/

/-- Who a trader is and what it was told: the fills and the cancellations. -/
def Trader.log (t : Trader α) : String × List (Order α) × List (Order α) :=
  (t.name, t.fills, t.cancels)

namespace Desk

/-- What the trader of this name was told. -/
def log? (d : Desk α) (name : String) : Option (List (Order α) × List (Order α)) :=
  (d.trader? name).map (·.log.2)

/-- The logs are all that counts for what a trader was told. -/
theorem log?_congr {d d' : Desk α} (h : d'.traders.map Trader.log = d.traders.map Trader.log)
    (name : String) : d'.log? name = d.log? name := by
  have hlog : ∀ d : Desk α, d.log? name
      = (latest? (·.1 == name) (d.traders.map Trader.log)).bind fun i =>
        (d.traders.map Trader.log)[i]?.map (·.2) := by
    intro d
    rw [log?, trader?, latest?_map, Option.map_bind]
    congr 1
    funext i
    rw [Function.comp_apply, List.getElem?_map, Option.map_map]
    rfl
  rw [hlog, hlog, h]

/-- Changing the trader of one name changes what it was told, and nobody else's log. -/
theorem log?_modifyTrader (d : Desk α) (name : String) {f : Trader α → Trader α}
    (hf : ∀ t, (f t).name = t.name) (other : String) :
    (d.modifyTrader name f).log? other
      = if other = name then (d.trader? name).map fun t => (f t).log.2 else d.log? other := by
  unfold modifyTrader
  cases hlatest : latest? (·.name == name) d.traders with
  | none =>
    by_cases heq : other = name
    · rw [if_pos heq]
      simp [log?, trader?, heq, hlatest]
    · rw [if_neg heq]
  | some i =>
    obtain ⟨t, ht, hname⟩ := exists_of_latest? hlatest
    rw [beq_iff_eq] at hname
    -- names stay, and so does which trader is the last of its name
    have hsame : latest? (·.name == other) (d.traders.modify i f)
        = latest? (·.name == other) d.traders := by
      have hnames := congrArg (latest? (· == other)) (map_modify (g := Trader.name) hf d.traders i)
      rwa [latest?_map, latest?_map] at hnames
    simp only [log?, trader?, hsame]
    by_cases heq : other = name
    · rw [if_pos heq, heq, hlatest]
      simp [ht, List.getElem?_modify]
    · rw [if_neg heq]
      cases hother : latest? (·.name == other) d.traders with
      | none => rfl
      | some j =>
        obtain ⟨t', ht', hname'⟩ := exists_of_latest? hother
        rw [beq_iff_eq] at hname'
        have hij : i ≠ j := by
          rintro rfl
          rw [ht, Option.some.injEq] at ht'
          exact heq (by rw [← hname', ← ht', hname])
        simp [List.getElem?_modify, hij]

/-! ## What was closed -/

/-- Those of some closed orders that the trader of a name is told in the same breath: the ones with
a status that are its own. -/
def told (status : OrderStatus) (name : String) (closed : List (Nat × Order α)) : List (Order α) :=
  (closed.filter fun entry => entry.2.status == status && entry.2.trader == name).map (·.2)

/-- What a trader is told of closed orders, first of the ones and then of the others. -/
theorem told_append (status : OrderStatus) (name : String) (closed closed' : List (Nat × Order α)) :
    told status name (closed ++ closed') = told status name closed ++ told status name closed' := by
  rw [told, List.filter_append, List.map_append]
  rfl

/-- An order that is closed does not have the status of an open one. -/
theorem not_opened {s : OrderStore α} {handle : Nat} {o : Order α} (ho : s.at? handle = some o)
    (hclosed : o.isOpen = false) : s.status? handle ≠ some .opened := by
  intro hopen
  obtain ⟨o', ho', hstatus⟩ := OrderStore.status?_eq_some.1 hopen
  rw [ho, Option.some.injEq] at ho'
  rw [ho'] at hclosed
  exact Order.isOpen_eq_false.1 hclosed hstatus

variable [Amount α]

/-- The orders of the list, and no others, were open before and are not open afterwards, and every
trader was told of its own. -/
structure Closes (d : Desk α) (closed : List (Nat × Order α)) (d' : Desk α) : Prop where
  fees_eq : d'.fees = d.fees
  nodup : (closed.map (·.1)).Nodup
  mem_iff : ∀ handle o, (handle, o) ∈ closed ↔ d.orders.status? handle = some .opened ∧
    d'.orders.at? handle = some o ∧ o.isOpen = false
  others : ∀ handle, handle ∉ closed.map (·.1) → d'.orders.at? handle = d.orders.at? handle
  log?_eq : ∀ name, d'.log? name = (d.log? name).map fun log =>
    (log.1 ++ told .filled name closed, log.2 ++ told .canceled name closed)
  accounted : d.Accounted → d'.Accounted

/-- A change that no order and no trader's log sees. -/
theorem closes_nil {d d' : Desk α} (horders : d'.orders = d.orders) (hfees : d'.fees = d.fees)
    (hlog : ∀ name, d'.log? name = d.log? name) : d.Closes [] d' where
  fees_eq := hfees
  nodup := List.nodup_nil
  mem_iff handle o := by
    constructor
    · intro hmem
      simp at hmem
    · rintro ⟨hopen, ho, hclosed⟩
      rw [horders] at ho
      exact absurd hopen (not_opened ho hclosed)
  others handle _ := by rw [horders]
  log?_eq name := by
    rw [hlog name]
    simp [told]
  accounted h handle o ho := by
    rw [horders] at ho
    rw [hfees]
    exact h ho

/-- Where nothing is closed nobody is told. -/
theorem Closes.refl (d : Desk α) : d.Closes [] d := closes_nil rfl rfl fun _ => rfl

/-- What is closed in one stretch and what is closed in the next are different orders, and every
trader is told of its own in this order. -/
theorem Closes.trans {d d' d'' : Desk α} {closed closed' : List (Nat × Order α)}
    (h : d.Closes closed d') (h' : d'.Closes closed' d'') :
    d.Closes (closed ++ closed') d'' := by
  -- what was closed first was not open for the second
  have hdisjoint : ∀ handle, handle ∈ closed.map (·.1) → handle ∉ closed'.map (·.1) := by
    intro handle hmem hmem'
    obtain ⟨⟨_, o⟩, hentry, rfl⟩ := List.mem_map.1 hmem
    obtain ⟨⟨_, o'⟩, hentry', rfl⟩ := List.mem_map.1 hmem'
    obtain ⟨-, ho, hclosed⟩ := (h.mem_iff _ o).1 hentry
    exact not_opened ho hclosed ((h'.mem_iff _ o').1 hentry').1
  refine ⟨h'.fees_eq.trans h.fees_eq, ?_, ?_, ?_, ?_, fun hd => h'.accounted (h.accounted hd)⟩
  · rw [List.map_append, List.nodup_append']
    exact ⟨h.nodup, h'.nodup, fun handle hmem hmem' => hdisjoint handle hmem hmem'⟩
  · intro handle o
    rw [List.mem_append, h.mem_iff, h'.mem_iff]
    constructor
    · rintro (⟨hopen, ho, hclosed⟩ | ⟨hopen, ho, hclosed⟩)
      · have hmem : handle ∈ closed.map (·.1) :=
          List.mem_map_of_mem ((h.mem_iff handle o).2 ⟨hopen, ho, hclosed⟩)
        exact ⟨hopen, (h'.others handle (hdisjoint handle hmem)).trans ho, hclosed⟩
      · have hmem : handle ∉ closed.map (·.1) := fun hmem => hdisjoint handle hmem
          (List.mem_map_of_mem ((h'.mem_iff handle o).2 ⟨hopen, ho, hclosed⟩))
        refine ⟨?_, ho, hclosed⟩
        rwa [OrderStore.status?, h.others handle hmem] at hopen
    · rintro ⟨hopen, ho, hclosed⟩
      by_cases hmem : handle ∈ closed.map (·.1)
      · left
        rw [h'.others handle (hdisjoint handle hmem)] at ho
        exact ⟨hopen, ho, hclosed⟩
      · right
        refine ⟨?_, ho, hclosed⟩
        rwa [OrderStore.status?, h.others handle hmem]
  · intro handle hmem
    rw [List.map_append, List.mem_append, not_or] at hmem
    exact (h'.others handle hmem.2).trans (h.others handle hmem.1)
  · intro name
    rw [h'.log?_eq, h.log?_eq, Option.map_map]
    congr 1
    funext log
    rw [Function.comp_apply, told_append, told_append, List.append_assoc, List.append_assoc]

/-- An open order is closed, and its trader is told. -/
theorem closes_modify {d : Desk α} {handle : Nat} {o : Order α}
    (ho : d.orders.at? handle = some o) (hopen : o.isOpen = true) {f : Order α → Order α}
    (hclosed : (f o).isOpen = false) (htrader : (f o).trader = o.trader)
    (haccounted : o.Accounted d.fees → (f o).Accounted d.fees) (portfolio : Portfolio α)
    {note : Trader α → Trader α} (hnote : ∀ t, (note t).log = (t.name,
      t.fills ++ told .filled o.trader [(handle, f o)],
      t.cancels ++ told .canceled o.trader [(handle, f o)])) :
    d.Closes [(handle, f o)]
      ({ d with portfolio, orders := d.orders.modify handle f }.modifyTrader o.trader note) := by
  have hstatus : d.orders.status? handle = some .opened :=
    OrderStore.status?_eq_some.2 ⟨o, ho, Order.isOpen_iff.1 hopen⟩
  have hfees : ∀ d : Desk α, (d.modifyTrader o.trader note).fees = d.fees := by
    intro d
    unfold modifyTrader
    split <;> rfl
  refine ⟨hfees _, List.nodup_singleton _, ?_, ?_, ?_, ?_⟩
  · intro k o'
    rw [orders_modifyTrader, List.mem_singleton, Prod.mk.injEq]
    constructor
    · rintro ⟨rfl, rfl⟩
      exact ⟨hstatus, OrderStore.at?_modify_self ho f, hclosed⟩
    · rintro ⟨hopen', ho', hclosed'⟩
      rw [OrderStore.at?_modify] at ho'
      split at ho'
      · next hk =>
        subst hk
        rw [ho, Option.map_some, Option.some.injEq] at ho'
        exact ⟨rfl, ho'.symm⟩
      -- every other order is as it was, so a pass did not close it
      · exact absurd hopen' (not_opened ho' hclosed')
  · intro k hk
    rw [List.map_singleton, List.mem_singleton] at hk
    rw [orders_modifyTrader, OrderStore.at?_modify, if_neg (Ne.symm hk)]
  · intro name
    rw [log?_modifyTrader _ _ fun t => congrArg (·.1) (hnote t)]
    split
    · next hname =>
      rw [hname, log?, Option.map_map]
      congr 1
      funext t
      rw [hnote t]
      rfl
    · next hname =>
      have hnobody : ∀ status, told status name [(handle, f o)] = [] := by
        intro status
        simp [told, htrader, Ne.symm hname]
      rw [hnobody, hnobody]
      simp [log?, trader?]
  · intro hd
    refine hd.modify (hfees _) (orders_modifyTrader _ _ _) fun o' ho' => ?_
    rw [ho, Option.some.injEq] at ho'
    rw [← ho']
    exact haccounted

end Desk

/-! ## Passes -/

namespace MatchingPass

/-- A cancellation of an open order closes that one, and its trader is told. -/
theorem closes_canceling [Amount α] {p : MatchingPass α} {handle : Nat} {o : Order α}
    (ho : p.desk.orders.at? handle = some o) (hopen : o.isOpen = true) :
    p.desk.Closes [(handle, o.cancel.1)] (p.canceling handle o).desk := by
  have htrader : o.cancel.1.trader = o.trader := congrArg (·.trader) o.ages_cancel.terms_eq
  refine Desk.closes_modify (f := (·.cancel.1)) ho hopen o.isOpen_cancel htrader
    (fun h => h.cancel) p.desk.portfolio fun t => ?_
  simp [Trader.log, Trader.noteCancel, Desk.told, Order.status_cancel, hopen, htrader]

/-- To cancel a linked order closes it, or nothing. -/
theorem closes_cancelLinked [Amount α] (p : MatchingPass α) (id : String) :
    ∃ closed, p.desk.Closes closed (p.cancelLinked id).desk := by
  rcases cancelLinked_cases p id with ⟨hsame, -⟩ | ⟨handle, o, -, ho, hopen, hcancel⟩
  · rw [hsame]
    exact ⟨[], .refl _⟩
  · rw [hcancel]
    exact ⟨_, closes_canceling ho hopen⟩

/-- Linked orders are closed one after the other. -/
theorem closes_foldl_cancelLinked [Amount α] (p : MatchingPass α) (ids : List String) :
    ∃ closed, p.desk.Closes closed (ids.foldl cancelLinked p).desk := by
  induction ids generalizing p with
  | nil => exact ⟨[], .refl _⟩
  | cons id rest ih =>
    obtain ⟨closed, hclosed⟩ := closes_cancelLinked p id
    obtain ⟨closed', hclosed'⟩ := ih (p.cancelLinked id)
    exact ⟨_, hclosed.trans hclosed'⟩

variable [Amount α]

/-- A fill of an open order closes that one, and its trader is told. -/
theorem closes_filling {p : MatchingPass α} {handle : Nat} {o : Order α}
    (ho : p.desk.orders.at? handle = some o) (hopen : o.isOpen = true) (price : α)
    (portfolio : Portfolio α) :
    p.desk.Closes [(handle, (o.fill price (o.feeAt p.desk.fees price)).1)]
      (p.filling handle o price portfolio).desk := by
  have hages := o.ages_fill price (o.feeAt p.desk.fees price)
  have hstatus := Order.status_fill hopen price (o.feeAt p.desk.fees price)
  have htrader : (o.fill price (o.feeAt p.desk.fees price)).1.trader = o.trader :=
    congrArg (·.trader) hages.terms_eq
  have hclosed : (o.fill price (o.feeAt p.desk.fees price)).1.isOpen = false := by
    rw [Order.isOpen_eq_false, hstatus]
    decide
  rw [filling, noteFill, htrader]
  refine Desk.closes_modify (f := fun o' => (o'.fill price (o.feeAt p.desk.fees price)).1) ho hopen
    hclosed htrader (fun _ => Order.accounted_fill hopen price) portfolio fun t => ?_
  simp [Trader.log, Trader.noteFill, Desk.told, hstatus, htrader]

/-- A turn fills its order, or closes nothing. -/
theorem closes_turn (replayed : Bool) (window : List (Trade α)) (p : MatchingPass α)
    (handle : Nat) : ∃ closed, p.desk.Closes closed (p.turn replayed window handle).1.desk := by
  have hturn := turn_spec replayed window p handle
  generalize p.turn replayed window handle = r at hturn ⊢
  cases hturn with
  | @filled o price portfolio ho hopen => exact ⟨_, closes_filling ho hopen price portfolio⟩
  | _ => exact ⟨[], .refl _⟩

/-- A visit closes an order and those that are linked to it, or nothing. -/
theorem closes_visit (replayed : Bool) (window : List (Trade α)) (p : MatchingPass α)
    (handle : Nat) : ∃ closed, p.desk.Closes closed (p.visit replayed window handle).desk := by
  obtain ⟨closed, hclosed⟩ := closes_turn replayed window p handle
  obtain ⟨closed', hclosed'⟩ := closes_foldl_cancelLinked (p.turn replayed window handle).1
    (p.turn replayed window handle).2
  exact ⟨_, hclosed.trans hclosed'⟩

end MatchingPass

variable [Amount α]

namespace Desk

/-- A pass closes the orders that its visits do. -/
theorem closes_pass (d : Desk α) (symbol : Symbol) (replayed : Bool) (window : List (Trade α)) :
    ∃ closed, d.Closes closed (d.pass symbol replayed window).desk := by
  refine d.pass_induction (motive := fun p => ∃ closed, d.Closes closed p.desk) symbol replayed
    window ⟨[], .refl d⟩ fun p hp handle => ?_
  obtain ⟨closed, hclosed⟩ := hp
  obtain ⟨closed', hclosed'⟩ := MatchingPass.closes_visit replayed window p handle
  exact ⟨_, hclosed.trans hclosed'⟩

variable {σ : Type} [Exchange σ α]

omit [Amount α] in
/-- Reading orders and balances anew tells a trader nothing of its fills. -/
theorem log_forceRefresh (t : Trader α) (p : Portfolio α) (ex : σ) :
    (t.forceRefresh p ex).1.1.log = t.log := by
  have horders : ∀ (symbols : List Symbol) (t : Trader α) (ex : σ),
      (t.refreshOrders ex symbols).1.1.log = t.log := by
    intro symbols
    induction symbols with
    | nil => exact fun t ex => rfl
    | cons symbol rest ih =>
      intro t ex
      rw [Trader.refreshOrders]
      split
      · rfl
      · next orders ex' _ =>
        rw [ih]
        unfold Trader.replaceKnown
        split <;> rfl
  rw [Trader.forceRefresh]
  split
  · rfl
  · exact horders _ _ _

/-- A refresh closes nothing. -/
theorem closes_refreshTrader (d : Desk α) (ex : σ) (name : String) :
    d.Closes [] (d.refreshTrader ex name).1.1 := by
  unfold refreshTrader
  cases ht : d.trader? name with
  | none => exact .refl d
  | some t =>
    have hlog := log_forceRefresh t d.portfolio ex
    obtain ⟨i, hi, hget⟩ := Option.bind_eq_some_iff.1 ht
    simp only [modifyTrader, hi]
    refine closes_nil rfl rfl (log?_congr (map_modify_of_getElem? fun t' ht' => ?_))
    rw [hget, Option.some.injEq] at ht'
    rw [← ht']
    exact hlog

/-- Refreshes of several traders close nothing. -/
theorem closes_refreshTraders (d : Desk α) (ex : σ) (names : List String) :
    d.Closes [] (d.refreshTraders ex names).1 := by
  induction names generalizing d ex with
  | nil => exact .refl d
  | cons name rest ih => exact (d.closes_refreshTrader ex name).trans (ih _ _)

/-- Matching the orders of a symbol closes some orders and tells their traders. -/
theorem closes_matchSymbol (d : Desk α) (m : Market α) (ex : σ) (symbol : Symbol)
    (replayed : Bool) : ∃ closed, d.Closes closed (d.matchSymbol m ex symbol replayed).1.1 := by
  unfold matchSymbol
  split
  · exact ⟨[], .refl d⟩
  · next window _ =>
    obtain ⟨closed, hclosed⟩ := d.closes_pass symbol replayed window
    exact ⟨_, hclosed.trans (closes_refreshTraders _ ex _)⟩

end Desk

end MarketEngine
