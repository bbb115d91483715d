import MarketEngine.Trading.Desk
/-!
# Matching passes that wait

A matching pass in the background does not touch an order that somebody holds: it waits until the
order is let go of. Such a pass first looks at all orders of its symbol that were stored when it
began, and picks the open ones; then these have their turns, and after a fill the orders linked to
the filled one are canceled. The trades are those from the beginning of the pass, but every order,
the portfolio and the traders are as they are at the order's turn. The traders that missed an order
refresh themselves after the last turn.

While nobody holds an order, a pass goes through at once and does what `Desk.matchSymbol` does
(`SuspendedPass.resume_of_isFree`).
-/

namespace MarketEngine

/-- What is left of a matching pass, and what it did so far. -/
structure SuspendedPass (α : Type) where
  replayed : Bool
  window : List (Trade α)
  /-- The orders that were not looked at yet. -/
  unseen : List Nat
  /-- The orders that were open when they were looked at and did not have their turn yet. -/
  ahead : List Nat := []
  /-- The linked orders to cancel before the next turn. -/
  toCancel : List String := []
  report : MatchReport := {}
  toRefresh : List String := []
  deriving Repr

namespace MatchingPass

variable {α : Type}

/-- Cancels linked orders in turn until one is held; also says which are left. -/
def cancelInTurn (p : MatchingPass α) : List String → MatchingPass α × List String
  | [] => (p, [])
  | id :: rest =>
    if (p.desk.orders.handle? id).any p.desk.orders.isHeld then (p, id :: rest)
    else (p.cancelLinked id).cancelInTurn rest

/-- The turns of some orders until one is held; also says which turns are left, and the linked
orders that are to be canceled before them. -/
def visitInTurn [Amount α] (replayed : Bool) (window : List (Trade α)) (p : MatchingPass α) :
    List Nat → MatchingPass α × List Nat × List String
  | [] => (p, [], [])
  | handle :: rest =>
    if p.desk.orders.isHeld handle then (p, handle :: rest, [])
    else
      let (p, linked) := p.turn replayed window handle
      match p.cancelInTurn linked with
      | (p, []) => p.visitInTurn replayed window rest
      | (p, linked) => (p, rest, linked)

end MatchingPass

/-- Looks at some orders in turn until one is held; also says which are left. The result leads to
the open ones. -/
def OrderStore.pickInTurn {α : Type} (s : OrderStore α) : List Nat → List Nat × List Nat
  | [] => ([], [])
  | handle :: rest =>
    if s.isHeld handle then ([], handle :: rest)
    else
      let (picked, left) := s.pickInTurn rest
      (if (s.at? handle).any (·.isOpen) then handle :: picked else picked, left)

namespace SuspendedPass

variable {α : Type}

/-- Whether every order had its turn. -/
def isDone (w : SuspendedPass α) : Bool :=
  w.unseen.isEmpty && w.ahead.isEmpty && w.toCancel.isEmpty

/-- A pass that has not begun with its orders. -/
def start? (d : Desk α) (m : Market α) (symbol : Symbol) (replayed : Bool) :
    Option (SuspendedPass α) :=
  (d.window? m symbol).map fun window =>
    { replayed, window, unseen := d.orders.ordersFor symbol }

/-- Takes a pass up at a desk. -/
def takeUp (w : SuspendedPass α) (d : Desk α) : MatchingPass α :=
  { desk := d, report := w.report, toRefresh := w.toRefresh }

/-- Puts a pass down again. -/
def putDown (w : SuspendedPass α) (p : MatchingPass α) : SuspendedPass α :=
  { w with report := p.report, toRefresh := p.toRefresh }

variable [Amount α]

/-- Goes on with a pass until an order is held. -/
def goOn (w : SuspendedPass α) (d : Desk α) : MatchingPass α × SuspendedPass α :=
  let (p, toCancel) := (w.takeUp d).cancelInTurn w.toCancel
  let (picked, unseen) := p.desk.orders.pickInTurn w.unseen
  let w := { w with toCancel, unseen, ahead := w.ahead ++ picked }
  if toCancel.isEmpty && unseen.isEmpty then
    let (p, ahead, toCancel) := p.visitInTurn w.replayed w.window w.ahead
    (p, { w with toCancel, ahead }.putDown p)
  else (p, w.putDown p)

/-- Goes on with a pass; after the last turn the traders that missed an order refresh themselves.
Also says what is left. -/
def resume {σ : Type} [Exchange σ α] (w : SuspendedPass α) (d : Desk α) (ex : σ) :
    (Desk α × Option (SuspendedPass α)) × σ :=
  let (p, w) := w.goOn d
  if w.isDone then
    let (desk, ex) := p.desk.refreshTraders ex p.toRefresh
    ((desk, none), ex)
  else ((p.desk, some w), ex)

end SuspendedPass

/-! ## Passes while nobody holds an order -/

section Free

variable {α : Type}

namespace OrderStore

/-- Where nobody holds an order none is held. -/
theorem isHeld_eq_false {s : OrderStore α} (h : s.isFree) (handle : Nat) :
    s.isHeld handle = false := by
  rw [isHeld, Option.any_eq_false]
  intro slot hslot
  simpa using List.all_eq_true.1 h slot (List.mem_of_getElem? hslot)

/-- A change of an order is no reason to hold it. -/
theorem isFree_modify {s : OrderStore α} (h : s.isFree) (handle : Nat) (f : Order α → Order α) :
    (s.modify handle f).isFree := by
  rw [isFree, List.all_eq_true]
  intro slot hslot
  obtain ⟨i, hi⟩ := List.mem_iff_getElem?.1 hslot
  rw [modify, List.getElem?_modify] at hi
  obtain ⟨old, hold, rfl⟩ := Option.map_eq_some_iff.1 hi
  have hfree := List.all_eq_true.1 h old (List.mem_of_getElem? hold)
  split <;> simpa using hfree

/-- Where nobody holds an order all are looked at, at once. -/
theorem pickInTurn_eq {s : OrderStore α} (h : s.isFree) (handles : List Nat) :
    s.pickInTurn handles = (handles.filter fun handle => (s.at? handle).any (·.isOpen), []) := by
  induction handles with
  | nil => rfl
  | cons handle rest ih =>
    rw [pickInTurn, isHeld_eq_false h, ih]
    simp [List.filter_cons]

/-- Picking the open ones from all stored orders of a symbol. -/
theorem filter_ordersFor (s : OrderStore α) (symbol : Symbol) :
    ((s.ordersFor symbol).filter fun handle => (s.at? handle).any (·.isOpen))
      = s.openOrders symbol := by
  rw [ordersFor, openOrders, handlesOf, handlesOf, List.filter_filter]
  congr 1
  funext handle
  cases hslot : s.slots[handle]? <;> simp [at?, hslot, Bool.and_comm, Bool.and_assoc]

end OrderStore

@[simp] theorem Desk.orders_modifyTrader (d : Desk α) (name : String) (f : Trader α → Trader α) :
    (d.modifyTrader name f).orders = d.orders := by
  unfold modifyTrader
  split <;> rfl

namespace MatchingPass

/-- A cancellation leaves no order held. -/
theorem isFree_cancelLinked {p : MatchingPass α} (h : p.desk.orders.isFree) (id : String) :
    (p.cancelLinked id).desk.orders.isFree := by
  unfold cancelLinked
  split
  · exact h
  · split
    · exact h
    · split
      · simpa using OrderStore.isFree_modify h _ _
      · exact h

/-- Where nobody holds an order all cancellations go through at once. -/
theorem cancelInTurn_eq {p : MatchingPass α} (h : p.desk.orders.isFree) (ids : List String) :
    p.cancelInTurn ids = (ids.foldl cancelLinked p, []) := by
  induction ids generalizing p with
  | nil => rfl
  | cons id rest ih =>
    have hid : (p.desk.orders.handle? id).any p.desk.orders.isHeld = false := by
      rw [Option.any_eq_false]
      intro handle _
      simp [OrderStore.isHeld_eq_false h]
    rw [cancelInTurn, hid]
    exact ih (isFree_cancelLinked h id)

/-- Cancellations in turn leave no order held. -/
theorem isFree_foldl_cancelLinked {p : MatchingPass α} (h : p.desk.orders.isFree)
    (ids : List String) : (ids.foldl cancelLinked p).desk.orders.isFree := by
  induction ids generalizing p with
  | nil => exact h
  | cons id rest ih => exact ih (isFree_cancelLinked h id)

variable [Amount α]

/-- A turn leaves no order held. -/
theorem isFree_turn {p : MatchingPass α} (h : p.desk.orders.isFree) (replayed : Bool)
    (window : List (Trade α)) (handle : Nat) :
    (p.turn replayed window handle).1.desk.orders.isFree := by
  unfold turn
  split
  · exact h
  · split
    · exact h
    · split
      · exact h
      · split
        · exact h
        · exact h
        · rename_i desk filled hcharge
          unfold Desk.charge at hcharge
          split at hcharge
          · simp at hcharge
          · simp only at hcharge
            split at hcharge
            · simp at hcharge
            · simp only [Except.ok.injEq, Option.some.injEq, Prod.mk.injEq] at hcharge
              rw [noteFill, ← hcharge.1]
              simpa using OrderStore.isFree_modify h _ _

/-- Where nobody holds an order all visits go through at once. -/
theorem visitInTurn_eq {p : MatchingPass α} (h : p.desk.orders.isFree) (replayed : Bool)
    (window : List (Trade α)) (handles : List Nat) :
    p.visitInTurn replayed window handles
      = (handles.foldl (visit replayed window) p, [], []) := by
  induction handles generalizing p with
  | nil => rfl
  | cons handle rest ih =>
    have hturn := isFree_turn h replayed window handle
    rw [visitInTurn, OrderStore.isHeld_eq_false h]
    simp only [cancelInTurn_eq hturn]
    exact ih (isFree_foldl_cancelLinked hturn _)

end MatchingPass

variable [Amount α]

/-- While nobody holds an order, a pass goes through at once. -/
theorem SuspendedPass.goOn_of_isFree {d : Desk α} (h : d.orders.isFree) (symbol : Symbol)
    (replayed : Bool) (window : List (Trade α)) :
    let w : SuspendedPass α := { replayed, window, unseen := d.orders.ordersFor symbol }
    (w.goOn d).1 = d.pass symbol replayed window ∧ (w.goOn d).2.isDone := by
  have hpick := OrderStore.pickInTurn_eq h (d.orders.ordersFor symbol)
  rw [OrderStore.filter_ordersFor] at hpick
  have hvisit := MatchingPass.visitInTurn_eq (p := { desk := d }) h replayed window
    (d.orders.openOrders symbol)
  simp [goOn, takeUp, putDown, MatchingPass.cancelInTurn, hpick, hvisit, Desk.pass, isDone]

/-- While nobody holds an order, a pass in the background does what one from outside does. -/
theorem SuspendedPass.resume_of_isFree {σ : Type} [Exchange σ α] {d : Desk α}
    (h : d.orders.isFree) {m : Market α} {symbol : Symbol} {replayed : Bool} {w : SuspendedPass α}
    (hw : start? d m symbol replayed = some w) (ex : σ) :
    w.resume d ex
      = (((d.matchSymbol m ex symbol replayed).1.1, none), (d.matchSymbol m ex symbol replayed).2)
    := by
  rw [start?, Option.map_eq_some_iff] at hw
  obtain ⟨window, hwindow, rfl⟩ := hw
  obtain ⟨hpass, hdone⟩ := goOn_of_isFree h symbol replayed window
  simp only [resume, hdone, hpass, Desk.matchSymbol, hwindow, if_true]

end Free

end MarketEngine
