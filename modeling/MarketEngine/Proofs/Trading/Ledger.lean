import MarketEngine.Proofs.Trading.Floor
import Mathlib.Data.List.Nodup
/-!
# The ledger of fills

The reports of the matching passes, read in order, name every filled order once. As long as no
balances of the exchange are taken over, moving the money of these fills as the orders' records have
it leads from the starting balances to the present ones (`Floor.replay_ledger`).

The argument is local to a turn: a turn that fills an order charges exactly what it writes into the
order's record, and a closed order's record never changes (`Desk.Balanced`).
-/

namespace MarketEngine

variable {σ α : Type} [Amount α]

/-! ## Replaying fills -/

namespace Portfolio

/-- Moves the money of a fill as the order's record has it. Without a fill on record there is
nothing to replay. -/
def replayFill (p : Portfolio α) (o : Order α) : Except (EngineError α) (Portfolio α) :=
  match o.filledPrice, o.fee with
  | some price, some fee => p.applyFill o.symbol o.side price o.filledQuantity fee.cost
  | _, _ => .error (.orderMissing o.id)

/-- Moves the money of some fills in order, and stops where one is refused. -/
def replay (p : Portfolio α) (orders : List (Order α)) : Except (EngineError α) (Portfolio α) :=
  orders.foldlM replayFill p

/-- Fills are replayed one after the other, and the first that is refused ends the replay. -/
theorem replay_append (p : Portfolio α) (first second : List (Order α)) :
    p.replay (first ++ second) = p.replay first >>= (·.replay second) :=
  List.foldlM_append

/-- Links have no part in a replay. -/
theorem replay_congr (p : Portfolio α) {orders orders' : List (Order α)}
    (h : orders'.map Order.record = orders.map Order.record) :
    p.replay orders' = p.replay orders := by
  have hrecord : ∀ orders : List (Order α),
      p.replay orders = (orders.map Order.record).foldlM replayFill p := fun orders => by
    rw [List.foldlM_map]
    rfl
  rw [hrecord, hrecord, h]

/-- A fill is replayed with the amounts that it was booked with. -/
theorem replayFill_fill (p : Portfolio α) {o : Order α} (hopen : o.isOpen = true) (price : α)
    (fee : Fee α) :
    p.replayFill (o.fill price fee).1 = p.applyFill o.symbol o.side price o.quantity fee.cost := by
  simp [replayFill, Order.fill, hopen, Order.side]

end Portfolio

/-! ## Books that balance -/

/-- The handles in `ledger` are those of the filled orders, each once, and the replay of their fills
leads from the starting portfolio to the present one. -/
structure Desk.Balanced (start : Portfolio α) (ledger : List Nat) (d : Desk α) : Prop where
  sound : d.orders.Sound
  nodup : ledger.Nodup
  mem_iff : ∀ handle, handle ∈ ledger ↔ d.orders.status? handle = some .filled
  replay_eq : start.replay (ledger.filterMap d.orders.at?) = .ok d.portfolio

omit [Amount α] in
/-- The records of closed orders stay while the orders age. -/
theorem OrderStore.Ages.records_eq {s s' : OrderStore α} (h : s.Ages s') {ledger : List Nat}
    (hfilled : ∀ handle ∈ ledger, s.status? handle = some .filled) :
    (ledger.filterMap s'.at?).map Order.record = (ledger.filterMap s.at?).map Order.record := by
  rw [List.map_filterMap, List.map_filterMap]
  refine List.filterMap_congr fun handle hhandle => ?_
  obtain ⟨o, ho, hstatus⟩ := OrderStore.status?_eq_some.1 (hfilled handle hhandle)
  obtain ⟨o', ho', hages⟩ := h ho
  have hclosed : o.isOpen = false := by simp [Order.isOpen_eq_false, hstatus]
  simp [ho, ho', hages.record_eq hclosed]

namespace Desk.Balanced

variable {start : Portfolio α} {ledger : List Nat} {d : Desk α}

/-- Books are about orders and money only. -/
theorem congr (h : d.Balanced start ledger) {d' : Desk α} (horders : d'.orders = d.orders)
    (hportfolio : d'.portfolio = d.portfolio) : d'.Balanced start ledger where
  sound := by rw [horders]; exact h.sound
  nodup := h.nodup
  mem_iff := by rw [horders]; exact h.mem_iff
  replay_eq := by rw [horders, hportfolio]; exact h.replay_eq

/-- The books stay as they are while no more orders get filled and no money moves. -/
theorem of_unfilled (h : d.Balanced start ledger) {d' : Desk α}
    (horders : d.orders.Unfilled d'.orders)
    (hadded : ∀ handle, d.orders.at? handle = none → d'.orders.status? handle ≠ some .filled)
    (hportfolio : d'.portfolio = d.portfolio) : d'.Balanced start ledger where
  sound := horders.sound h.sound
  nodup := h.nodup
  mem_iff handle := by
    rw [h.mem_iff]
    refine ⟨fun hstatus => horders.ages.status?_eq hstatus (by simp), fun hstatus => ?_⟩
    cases ho : d.orders.at? handle with
    | none => exact absurd hstatus (hadded handle ho)
    | some o => exact OrderStore.status?_eq_some.2 ⟨o, ho, horders.status_eq ho hstatus⟩
  replay_eq := by
    rw [start.replay_congr (horders.ages.records_eq fun handle => (h.mem_iff handle).1),
      h.replay_eq, hportfolio]

/-- A fill that is paid for is one more entry of the ledger. -/
theorem fill (h : d.Balanced start ledger) {handle : Nat} {o : Order α}
    (ho : d.orders.at? handle = some o) (hopen : o.isOpen = true) {price : α} {fee : Fee α}
    {portfolio : Portfolio α}
    (hpay : d.portfolio.applyFill o.symbol o.side price o.quantity fee.cost = .ok portfolio) :
    { d with
      portfolio
      orders := d.orders.modify handle fun o' => (o'.fill price fee).1 }.Balanced start
        (ledger ++ [handle]) := by
  have hages : ∀ o' : Order α, o'.Ages (o'.fill price fee).1 := fun o' => o'.ages_fill price fee
  have hself := OrderStore.at?_modify_self ho fun o' : Order α => (o'.fill price fee).1
  have hnew : handle ∉ ledger := by
    rw [h.mem_iff, OrderStore.status?, ho, Option.map_some, Order.isOpen_iff.1 hopen]
    simp
  refine ⟨h.sound.modify handle hages, ?_, fun k => ?_, ?_⟩
  · rw [List.nodup_append]
    exact ⟨h.nodup, List.nodup_singleton _, by rintro _ hk _ hl rfl; simp_all⟩
  · rw [List.mem_append, List.mem_singleton, h.mem_iff]
    by_cases hk : k = handle
    · subst hk
      simp [OrderStore.status?, hself, Order.status_fill hopen]
    · simp [OrderStore.status?, OrderStore.at?_modify, Ne.symm hk, hk]
  · -- the older entries have the records they had, and the new one has what was charged
    have hold := (OrderStore.ages_modify d.orders handle hages).records_eq fun k =>
      (h.mem_iff k).1
    rw [List.filterMap_append, start.replay_append, start.replay_congr hold, h.replay_eq]
    simp only [List.filterMap_cons, hself, List.filterMap_nil]
    calc d.portfolio.replay [(o.fill price fee).1]
        = d.portfolio.replayFill (o.fill price fee).1 := bind_pure _
      _ = .ok portfolio := by rw [Portfolio.replayFill_fill _ hopen, hpay]

end Desk.Balanced

/-! ## Passes -/

namespace MatchingPass

variable {start : Portfolio α} {ledger : List Nat}

/-- The report's fills are posted to the ledger, and the books balance. -/
def Posted (start : Portfolio α) (ledger : List Nat) (p : MatchingPass α) : Prop :=
  ∃ posted : List Nat, p.report.filled.map p.desk.orders.handle? = posted.map some ∧
    p.desk.Balanced start (ledger ++ posted)

/-- A cancellation posts nothing. -/
theorem Posted.cancelLinked {p : MatchingPass α} (h : p.Posted start ledger) (id : String) :
    (p.cancelLinked id).Posted start ledger := by
  rcases cancelLinked_cases p id with ⟨hsame, -⟩ | ⟨handle, o, -, ho, hopen, hcancel⟩
  · rwa [hsame]
  · obtain ⟨posted, hposted, hbalanced⟩ := h
    have hkept := kept_canceling p handle o
    rw [hcancel]
    refine ⟨posted, ?_, ?_⟩
    · rw [show (p.canceling handle o).report.filled = p.report.filled from rfl,
        funext hkept.handle?_eq, hposted]
    · have hcanceled : Desk.Balanced start (ledger ++ posted)
          { p.desk with orders := p.desk.orders.modify handle (·.cancel.1) } :=
        hbalanced.of_unfilled (OrderStore.unfilled_cancel _ handle)
          (fun k hk => by simp [OrderStore.status?, OrderStore.at?_modify, hk]) rfl
      exact hcanceled.congr (by simp [canceling]) (by simp [canceling])

/-- Cancellations post nothing. -/
theorem Posted.foldl_cancelLinked {p : MatchingPass α} (h : p.Posted start ledger)
    (ids : List String) : (ids.foldl MatchingPass.cancelLinked p).Posted start ledger := by
  induction ids generalizing p with
  | nil => exact h
  | cons id rest ih => exact ih (h.cancelLinked id)

/-- A fill that was paid is posted last, and the books balance. -/
theorem Posted.filling {p : MatchingPass α} (h : p.Posted start ledger) {handle : Nat}
    {o : Order α} (ho : p.desk.orders.at? handle = some o) (hopen : o.isOpen = true) {price : α}
    {portfolio : Portfolio α}
    (hpay : p.desk.portfolio.applyFill o.symbol o.side price o.quantity
      (o.feeAt p.desk.fees price).cost = .ok portfolio) :
    (p.filling handle o price portfolio).Posted start ledger := by
  obtain ⟨posted, hposted, hbalanced⟩ := h
  have hkept := kept_filling p handle o price portfolio
  have hid : (o.fill price (o.feeAt p.desk.fees price)).1.id = o.id := (o.ages_fill _ _).id_eq
  refine ⟨posted ++ [handle], ?_, ?_⟩
  · rw [show (p.filling handle o price portfolio).report.filled
        = p.report.filled ++ [(o.fill price (o.feeAt p.desk.fees price)).1.id] from rfl,
      funext hkept.handle?_eq, List.map_append, hposted, hid]
    simp [hbalanced.sound.handle?_of_isOpen ho hopen]
  · rw [← List.append_assoc]
    exact (hbalanced.fill ho hopen hpay).congr (by simp [MatchingPass.filling, noteFill])
      (by simp [MatchingPass.filling, noteFill])

/-- A turn posts its fill, if it is one. -/
theorem Posted.turn {p : MatchingPass α} (h : p.Posted start ledger) (replayed : Bool)
    (window : List (Trade α)) (handle : Nat) :
    (p.turn replayed window handle).1.Posted start ledger := by
  have hturn := turn_spec replayed window p handle
  generalize p.turn replayed window handle = r at hturn ⊢
  cases hturn with
  | filled ho hopen _ _ hpay => exact h.filling ho hopen hpay
  | _ => exact h

/-- A visit posts the fill of its turn, and the cancellations after it post nothing. -/
theorem Posted.visit {p : MatchingPass α} (h : p.Posted start ledger) (replayed : Bool)
    (window : List (Trade α)) (handle : Nat) :
    (p.visit replayed window handle).Posted start ledger :=
  (h.turn replayed window handle).foldl_cancelLinked _

/-- A pass posts its fills. -/
theorem posted_pass {d : Desk α} (h : d.Balanced start ledger) (symbol : Symbol)
    (replayed : Bool) (window : List (Trade α)) :
    (d.pass symbol replayed window).Posted start ledger :=
  d.pass_induction (motive := (·.Posted start ledger)) symbol replayed window
    ⟨[], rfl, by simpa using h⟩ fun _ hp handle => hp.visit replayed window handle

end MatchingPass

/-! ## Runs -/

omit [Amount α] in
/-- The handles that the reports' filled ids led to when their pass was over, in order. -/
def Floor.ledger (f : Floor σ α) : List Nat :=
  f.passes.flatMap fun (report, orders) => report.filled.filterMap orders.handle?

namespace Floor

variable [Exchange σ α] {start : Portfolio α}

/-- The books balance, and the ledger's handles lead to orders under the reports' ids. -/
structure Booked (start : Portfolio α) (f : Floor σ α) : Prop where
  balanced : f.desk.Balanced start f.ledger
  ids_eq : f.ledger.map (fun handle => (f.desk.orders.at? handle).map (·.id))
    = (f.reports.flatMap (·.filled)).map some

omit [Exchange σ α] in
/-- At the opening nothing is filled and nothing is posted. -/
theorem booked_opening (market : Market α) (exchange : σ) (desk : Desk α) (mostOrders : Nat) :
    (opening market exchange desk mostOrders).Booked desk.portfolio where
  balanced :=
    { sound := OrderStore.sound_empty mostOrders
      nodup := List.nodup_nil
      mem_iff := fun handle => by
        simp [opening, ledger, OrderStore.status?, OrderStore.at?, OrderStore.empty]
      replay_eq := rfl }
  ids_eq := rfl

omit [Exchange σ α] in
/-- The handles of the ledger keep leading to the same ids. -/
theorem Booked.ids_of_ages {f : Floor σ α} (h : f.Booked start) {s : OrderStore α}
    (hages : f.desk.orders.Ages s) :
    f.ledger.map (fun handle => (s.at? handle).map (·.id))
      = (f.reports.flatMap (·.filled)).map some := by
  rw [← h.ids_eq]
  refine List.map_congr_left fun handle hhandle => ?_
  obtain ⟨o, ho, -⟩ := OrderStore.status?_eq_some.1 ((h.balanced.mem_iff handle).1 hhandle)
  obtain ⟨o', ho', haged⟩ := hages ho
  rw [ho, ho', Option.map_some, Option.map_some, haged.id_eq]

omit [Exchange σ α] in
/-- The books stay as they are while no more orders get filled and no money moves. -/
theorem Booked.of_unfilled {f g : Floor σ α} (h : f.Booked start)
    (horders : f.desk.orders.Unfilled g.desk.orders)
    (hadded : ∀ handle, f.desk.orders.at? handle = none →
      g.desk.orders.status? handle ≠ some .filled)
    (hportfolio : g.desk.portfolio = f.desk.portfolio) (hpasses : g.passes = f.passes) :
    g.Booked start := by
  have hledger : g.ledger = f.ledger := by rw [ledger, hpasses, ledger]
  have hreports : g.reports = f.reports := by rw [reports, hpasses, reports]
  refine ⟨hledger ▸ h.balanced.of_unfilled horders hadded hportfolio, ?_⟩
  rw [hledger, hreports, h.ids_of_ages horders.ages]

omit [Exchange σ α] in
/-- A pass that posts its fills leaves the books in order. -/
theorem Booked.posting {f g : Floor σ α} (h : f.Booked start) {report : MatchReport}
    {posted : List Nat} (hages : f.desk.orders.Ages g.desk.orders)
    (hposted : report.filled.map g.desk.orders.handle? = posted.map some)
    (hbalanced : g.desk.Balanced start (f.ledger ++ posted))
    (hpasses : g.passes = f.passes ++ [(report, g.desk.orders)]) : g.Booked start := by
  have hfilled : report.filled.filterMap g.desk.orders.handle? = posted := by
    calc report.filled.filterMap g.desk.orders.handle?
        = (report.filled.map g.desk.orders.handle?).filterMap id := by
          rw [List.filterMap_map]
          rfl
      _ = posted := by
          rw [hposted, List.filterMap_map]
          simp
  have hledger : g.ledger = f.ledger ++ posted := by
    simp [ledger, hpasses, hfilled]
  refine ⟨hledger ▸ hbalanced, ?_⟩
  -- the report's ids led to these handles, so the handles lead back to the ids
  have hnew : posted.map (fun handle => (g.desk.orders.at? handle).map (·.id))
      = report.filled.map some := by
    calc posted.map (fun handle => (g.desk.orders.at? handle).map (·.id))
        = (posted.map some).map
            (fun found => found.bind fun handle => (g.desk.orders.at? handle).map (·.id)) := by
          simp [Function.comp_def]
      _ = report.filled.map fun id =>
            (g.desk.orders.handle? id).bind fun handle =>
              (g.desk.orders.at? handle).map (·.id) := by
          rw [← hposted, List.map_map]
          rfl
      _ = report.filled.map some := by
          refine List.map_congr_left fun id hid => ?_
          have hfound : g.desk.orders.handle? id ∈ posted.map some :=
            hposted ▸ List.mem_map_of_mem hid
          obtain ⟨handle, -, hhandle⟩ := List.mem_map.1 hfound
          obtain ⟨slot, hslot, -, hslotid⟩ := OrderStore.handle?_eq_some hhandle.symm
          simp [← hhandle, OrderStore.at?, hslot, hslotid]
  rw [hledger, List.map_append, h.ids_of_ages hages, hnew]
  simp [reports, hpasses]

/-- A pass posts its fills in the order of its report, behind those of the passes before it. -/
theorem Booked.pass {f : Floor σ α} (h : f.Booked start) {symbol : Symbol} {replayed : Bool}
    (hsynced : (f.pass symbol replayed).synced = false) :
    (f.pass symbol replayed).Booked start := by
  obtain ⟨p, hp, horders, hpasses, hportfolio⟩ := f.pass_spec symbol replayed
  have hposted : p.Posted start f.ledger ∧ f.desk.orders.Ages p.desk.orders := by
    rcases hp with rfl | ⟨window, rfl⟩
    · exact ⟨⟨[], rfl, by simpa using h.balanced⟩, .refl _⟩
    · exact ⟨MatchingPass.posted_pass h.balanced symbol replayed window,
        (f.desk.kept_pass symbol replayed window).ages⟩
  obtain ⟨⟨posted, hfilled, hbalanced⟩, hages⟩ := hposted
  have hbalanced' : (f.pass symbol replayed).desk.Balanced start (f.ledger ++ posted) :=
    hbalanced.congr horders (hportfolio hsynced)
  rw [← horders] at hages hfilled hpasses
  exact h.posting hages hfilled hbalanced' hpasses

/-- An event without matching keeps the books in order, unless it takes over balances. -/
theorem Booked.step {f : Floor σ α} (h : f.Booked start) {e : FloorEvent σ α}
    (hopen : ∀ o, e = .add o → o.isOpen = true) (hsynced : (f.step e).synced = false)
    (he : e.isPass = false) : (f.step e).Booked start := by
  have hstep := f.step_spec he
  exact h.of_unfilled hstep.unfilled (hstep.added hopen) (hstep.synced hsynced).2 hstep.passes_eq

/-- After every run the books balance, unless balances were taken over from the exchange. -/
theorem booked_run {f : Floor σ α} (h : f.Booked start) {events : List (FloorEvent σ α)}
    (hopen : ∀ o, .add o ∈ events → o.isOpen = true) (hsynced : (f.run events).synced = false) :
    (f.run events).Booked start := by
  -- balances that were taken over once are never forgotten
  refine run_induction (motive := fun f => f.synced = false → f.Booked start) ?_ ?_
    (fun _ => h) hsynced
  · intro f hf e he hplain hsynced
    have hbefore := ((f.step_spec hplain).synced hsynced).1
    exact (hf hbefore).step (fun o ho => hopen o (ho ▸ he)) hsynced hplain
  · intro f hf symbol replayed hsynced
    exact (hf (Bool.or_eq_false_iff.1 hsynced).1).pass hsynced

/-- In a run of a floor that opened without orders, where orders are open when they are added and no
balances are taken over, the fills in the passes' reports are those of the filled orders, each once.
Replaying them from the starting portfolio, with the price, the quantity and the fee on the orders'
records, is refused nowhere and ends with the present portfolio. -/
theorem replay_ledger (market : Market α) (exchange : σ) (desk : Desk α) (mostOrders : Nat)
    (events : List (FloorEvent σ α)) (hopen : ∀ o, .add o ∈ events → o.isOpen = true)
    (hsynced : ((opening market exchange desk mostOrders).run events).synced = false) :
    let f := (opening market exchange desk mostOrders).run events
    f.ledger.map (fun handle => (f.desk.orders.at? handle).map (·.id))
      = (f.reports.flatMap (·.filled)).map some ∧
    f.ledger.Nodup ∧
    (∀ handle, handle ∈ f.ledger ↔ f.desk.orders.status? handle = some .filled) ∧
    desk.portfolio.replay (f.ledger.filterMap f.desk.orders.at?) = .ok f.desk.portfolio := by
  have h := booked_run (booked_opening market exchange desk mostOrders) hopen hsynced
  exact ⟨h.ids_eq, h.balanced.nodup, h.balanced.mem_iff, h.balanced.replay_eq⟩

/-- The target is filled and the stop canceled, and the order that is too large is never charged. -/
theorem replay_ledger_bracket :
    let events := bracketOrders ++ .link "target" "stop" :: bracketMatching
    let f := bracketFloor.run events
    (∀ o, .add o ∈ events → o.isOpen = true) ∧ f.synced = false ∧ f.ledger = [0] ∧
      bracketFloor.desk.portfolio.replay (f.ledger.filterMap f.desk.orders.at?)
        = .ok f.desk.portfolio := by
  have hopen : ∀ o, .add o ∈ bracketOrders ++ .link "target" "stop" :: bracketMatching →
      o.isOpen = true := by
    simp [bracketOrders, bracketMatching, Order.new, Order.isOpen]
  have hsynced :
      (bracketFloor.run (bracketOrders ++ .link "target" "stop" :: bracketMatching)).synced
        = false := by decide +kernel
  obtain ⟨-, -, -, hreplay⟩ := replay_ledger _ _ _ _ _ hopen hsynced
  exact ⟨hopen, hsynced, by decide +kernel, hreplay⟩

end Floor

end MarketEngine
