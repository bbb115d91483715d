import MarketEngine.Proofs.Exact
import MarketEngine.Trading.Desk
/-!
# When an order is filled

A market order is filled by the latest trade that counts for it. Any other order waits for a level,
which the price has to come down or go up to, and is filled at its own price once some trade that
counts has reached the level, whichever trade that is (`Order.decision_rule`).
-/

namespace MarketEngine

variable {α : Type}

/-- The way in which a price comes to a level. -/
inductive Approach where
  | falling
  | rising

namespace OrderKind

def isMarket : OrderKind → Bool
  | buyMarket => true
  | sellMarket => true
  | _ => false

/-- How the price comes to the level that an order of this kind waits for, if it waits for one. -/
def approach? : OrderKind → Option Approach
  | buyMarket => none
  | sellMarket => none
  | buyLimit => some .falling
  | stopLoss => some .falling
  | stopLossLimit => some .falling
  | sellLimit => some .rising
  | takeProfit => some .rising
  | takeProfitLimit => some .rising

end OrderKind

namespace Order

/-- The level that an order waits for: the stop price of a stop order with a limit, if it has one,
and its own price otherwise. -/
def level (o : Order α) : α :=
  match o.kind with
  | .stopLossLimit => o.stop.getD o.price
  | .takeProfitLimit => o.stop.getD o.price
  | _ => o.price

variable [Amount α]

/-- Whether a price has reached what the order waits for; market orders wait for nothing. -/
def Reached (o : Order α) (x : α) : Prop :=
  match o.kind.approach? with
  | none => True
  | some .falling => x ≤ o.level
  | some .rising => o.level ≤ x

/-- A trade whose price is no number, or which is older than the order while no history is
replayed. -/
def Discards (o : Order α) (replayed : Bool) (t : Trade α) : Prop :=
  Amount.isUndefined t.price = true ∨ replayed = false ∧ t.timestamp < o.created

instance (o : Order α) (replayed : Bool) (t : Trade α) : Decidable (o.Discards replayed t) :=
  inferInstanceAs (Decidable (_ ∨ _))

/-- The trades of a window that are left when those that the order discards are deleted. -/
def remaining (o : Order α) (replayed : Bool) (window : List (Trade α)) : List (Trade α) :=
  window.filter fun t => ¬ o.Discards replayed t

/-- A trade counts for an order unless the order discards it. -/
theorem counts_eq (o : Order α) (replayed : Bool) (t : Trade α) :
    o.counts replayed t = decide (¬ o.Discards replayed t) := by
  rw [Bool.eq_iff_iff, decide_eq_true_iff]
  cases replayed <;> simp [counts, Discards]

/-- Only the trades that are left matter. -/
theorem decision_eq (o : Order α) (replayed : Bool) (window : List (Trade α)) :
    o.decision replayed window = o.trigger ((o.remaining replayed window).map (·.price)) := by
  rw [decision, remaining, List.filter_congr fun t _ => o.counts_eq replayed t]

/-- What is left of a window is left of it once more. -/
theorem remaining_remaining (o : Order α) (replayed : Bool) (window : List (Trade α)) :
    o.remaining replayed (o.remaining replayed window) = o.remaining replayed window := by
  rw [remaining, remaining, List.filter_filter]
  simp only [Bool.and_self]

/-- A market order takes the last price. -/
theorem trigger_of_isMarket {o : Order α} (h : o.kind.isMarket = true) (prices : List α) :
    o.trigger prices = prices.getLast? := by
  unfold trigger
  cases hkind : o.kind with
  | buyMarket => rfl
  | sellMarket => rfl
  | _ => simp [hkind, OrderKind.isMarket] at h

/-- Any other order takes its own price once some price has reached its level. -/
theorem trigger_eq_some_iff {o : Order α} (h : o.kind.isMarket = false) {prices : List α}
    {price : α} : o.trigger prices = some price ↔ price = o.price ∧ ∃ x ∈ prices, o.Reached x := by
  have hany : ∀ p : α → Bool, (∀ x, p x = true ↔ o.Reached x) →
      ((if prices.any p = true then some o.price else none) = some price ↔
        price = o.price ∧ ∃ x ∈ prices, o.Reached x) := by
    intro p hp
    rw [Option.ite_none_right_eq_some, List.any_eq_true, Option.some.injEq, and_comm, eq_comm]
    simp only [hp]
  unfold trigger
  cases hkind : o.kind with
  | buyMarket => simp [hkind, OrderKind.isMarket] at h
  | sellMarket => simp [hkind, OrderKind.isMarket] at h
  | _ => exact hany _ fun x => by simp [Reached, level, hkind, OrderKind.approach?]

/-- A market order takes the price of the last trade that is left. -/
theorem decision_of_isMarket {o : Order α} (h : o.kind.isMarket = true) (replayed : Bool)
    (window : List (Trade α)) :
    o.decision replayed window = (o.remaining replayed window).getLast?.map (·.price) := by
  rw [decision_eq, trigger_of_isMarket h, List.getLast?_map]

/-- Any other order takes its own price once some trade that is left has reached its level. -/
theorem decision_eq_some_iff {o : Order α} (h : o.kind.isMarket = false) {replayed : Bool}
    {window : List (Trade α)} {price : α} :
    o.decision replayed window = some price ↔
      price = o.price ∧ ∃ t ∈ o.remaining replayed window, o.Reached t.price := by
  rw [decision_eq, trigger_eq_some_iff h]
  simp only [List.mem_map, exists_exists_and_eq_and]

/-- An order that waits for a level is filled at the same price when more trades come in. -/
theorem decision_of_subset {o : Order α} (h : o.kind.isMarket = false) {replayed : Bool}
    {window window' : List (Trade α)} (hsubset : window ⊆ window') {price : α}
    (hprice : o.decision replayed window = some price) :
    o.decision replayed window' = some price := by
  obtain ⟨rfl, t, ht, hreached⟩ := (decision_eq_some_iff h).1 hprice
  obtain ⟨hwindow, hkept⟩ := List.mem_filter.1 ht
  exact (decision_eq_some_iff h).2 ⟨rfl, t, List.mem_filter.2 ⟨hsubset hwindow, hkept⟩, hreached⟩

/-- The order of the trades counts for market orders only. -/
theorem decision_perm {o : Order α} (h : o.kind.isMarket = false) (replayed : Bool)
    {window window' : List (Trade α)} (hperm : window'.Perm window) :
    o.decision replayed window' = o.decision replayed window :=
  Option.ext fun _ => ⟨decision_of_subset h hperm.subset, decision_of_subset h hperm.symm.subset⟩

end Order

namespace Desk

variable [Amount α]

/-- A charge sees of the trades only at which price they fill the order. -/
theorem charge_congr (d : Desk α) (handle : Nat) {o : Order α} {replayed : Bool}
    {window window' : List (Trade α)}
    (h : o.decision replayed window' = o.decision replayed window) :
    d.charge handle o replayed window' = d.charge handle o replayed window := by
  rw [charge, charge, h]

/-- There is nothing to pay if and only if the order is not filled. -/
theorem charge_eq_none_iff (d : Desk α) (handle : Nat) (o : Order α) (replayed : Bool)
    (window : List (Trade α)) :
    d.charge handle o replayed window = .ok none ↔ o.decision replayed window = none := by
  unfold charge
  cases o.decision replayed window with
  | none => simp
  | some price =>
    dsimp only
    split <;> simp

/-- An open order that is charged for is filled at the price of the decision. -/
theorem filledPrice_of_charge {d d' : Desk α} {handle : Nat} {o filled : Order α}
    (hopen : o.isOpen = true) {replayed : Bool} {window : List (Trade α)}
    (h : d.charge handle o replayed window = .ok (some (d', filled))) :
    filled.filledPrice = o.decision replayed window := by
  unfold charge at h
  split at h
  · simp at h
  · next price hprice =>
    dsimp only at h
    split at h
    · simp at h
    · obtain ⟨-, rfl⟩ := Prod.mk.inj (Option.some.inj (Except.ok.inj h))
      rw [Order.fill, if_pos hopen, hprice]

end Desk

/-- Whether a window of trades fills an open order, and at which price. Trades whose price is no
number do not matter, nor do those that are older than the order unless history is replayed: with
these deleted the charge comes out the same, and so does its price. A market order is filled by the
last trade that is left, at its price. Any other order is filled at its own price, if and only if
some trade that is left has come down or gone up to its level; so the order of the trades does not
matter to it, and more trades, wherever they are added, do not undo the fill. -/
theorem Order.decision_rule {o : Order α} [Amount α] (hopen : o.isOpen = true) (replayed : Bool)
    (window : List (Trade α)) :
    let remaining := o.remaining replayed window
    let price? := o.decision replayed window
    (∀ (d : Desk α) (handle : Nat),
      d.charge handle o replayed remaining = d.charge handle o replayed window ∧
      (d.charge handle o replayed window = .ok none ↔ price? = none) ∧
      ∀ d' filled, d.charge handle o replayed window = .ok (some (d', filled)) →
        filled.filledPrice = price?) ∧
    o.decision replayed remaining = price? ∧
    (o.kind.isMarket = true → price? = remaining.getLast?.map (·.price)) ∧
    (o.kind.isMarket = false →
      (∀ price, price? = some price ↔
        price = o.price ∧ ∃ t ∈ remaining, o.Reached t.price) ∧
      (∀ window', window'.Perm window → o.decision replayed window' = price?) ∧
      ∀ window', window.Sublist window' → ∀ price, price? = some price →
        price = o.price ∧ o.decision replayed window' = some price) := by
  intro remaining price?
  have hremaining : o.decision replayed remaining = price? := by
    rw [decision_eq, remaining_remaining, ← decision_eq]
  refine ⟨fun d handle => ⟨d.charge_congr handle hremaining,
    d.charge_eq_none_iff handle o replayed window, fun _ _ => Desk.filledPrice_of_charge hopen⟩,
    hremaining, fun h => decision_of_isMarket h replayed window, fun h => ⟨fun _ =>
      decision_eq_some_iff h, fun _ => decision_perm h replayed, ?_⟩⟩
  intro window' hsublist price hprice
  exact ⟨((decision_eq_some_iff h).1 hprice).1, decision_of_subset h hsublist.subset hprice⟩

/-- Sells at 88 once the price has come down to 90. -/
def protectiveOrder : Order ℚ :=
  { Order.new "stop" "BTC/USDT" .stopLossLimit 88 1 "sim" 100 with stop := some 90 }

/-- The trade at 89 is from before the order; what fills the order is the one at 90, wherever the
trade at 95 stands. -/
theorem Order.decision_rule_protective :
    protectiveOrder.decision false [⟨89, 1, 50⟩, ⟨95, 1, 110⟩] = none ∧
      protectiveOrder.decision false [⟨89, 1, 50⟩, ⟨95, 1, 110⟩, ⟨90, 1, 120⟩] = some 88 ∧
      protectiveOrder.decision false [⟨90, 1, 120⟩, ⟨95, 1, 110⟩, ⟨89, 1, 50⟩] = some 88 := by
  have hopen : protectiveOrder.isOpen = true := rfl
  have hlimit : protectiveOrder.kind.isMarket = false := rfl
  obtain ⟨-, hdeleted, -⟩ := Order.decision_rule hopen false [⟨89, 1, 50⟩, ⟨95, 1, 110⟩]
  obtain ⟨-, -, -, hrule⟩ :=
    Order.decision_rule hopen false [⟨89, 1, 50⟩, ⟨95, 1, 110⟩, ⟨90, 1, 120⟩]
  obtain ⟨hiff, hperm, -⟩ := hrule hlimit
  have hreached : protectiveOrder.Reached 90 := Rat.le_refl
  have hfilled := (hiff 88).2 ⟨rfl, ⟨90, 1, 120⟩, List.mem_filter.2 ⟨by simp, rfl⟩, hreached⟩
  exact ⟨hdeleted.symm.trans rfl, hfilled, (hperm _ (List.reverse_perm _)).trans hfilled⟩

end MarketEngine
