import MarketEngine.Codec.Evaluation
import MarketEngine.Proofs.Json.Forms
import MarketEngine.Proofs.Json.RoundTrip
/-!
# The data model as JSON

Each type of the data model has a writer and a reader. The reader undoes the writer, and it also
reads every other form of the records in a value as that value; and whatever a reader accepts, its
result is written so that it is read again as the same (`DataType.round_trip`).

For each type there are two lemmas: forms of a value are read as the value (`ofJson?_of_form`), and
what was read can be held, its whole numbers in 64 bits and its amounts finite
(`spec_of_ofJson?`).
-/

namespace MarketEngine

open Json

variable {α : Type} [JsonAmount α]

/-! ## Market data -/

namespace Candle

def amounts (c : Candle α) : List α := [c.opening, c.high, c.low, c.close, c.volume]

/-- Any form of a candle's record is read as that candle. -/
theorem ofJson?_of_form {c : Candle α} {j : Json} (hform : RecordForm c.toJson.entries j)
    (htime : IsInt64 c.time) (hamounts : ∀ x ∈ c.amounts, ReadsBack x) : ofJson? j = some c := by
  obtain ⟨r, hrecord, hr⟩ := hform.exists_record
    ["time", "open", "high", "low", "close", "volume"] rfl (by decide)
  simp only [amounts, List.forall_mem_cons] at hamounts
  obtain ⟨hopening, hhigh, hlow, hclose, hvolume, -⟩ := hamounts
  unfold ofJson?
  rw [hrecord, Option.bind_eq_bind, Option.bind_some,
    Record.required_eq hr rfl (int64?_ofInt htime),
    Record.required_eq hr rfl (amount?_ofAmount hopening),
    Record.required_eq hr rfl (amount?_ofAmount hhigh),
    Record.required_eq hr rfl (amount?_ofAmount hlow),
    Record.required_eq hr rfl (amount?_ofAmount hclose),
    Record.required_eq hr rfl (amount?_ofAmount hvolume)]
  rfl

/-- A candle that was read has a time of 64 bits and finite amounts. -/
theorem spec_of_ofJson? [Amount α] [LawfulJsonAmount α] {c : Candle α} {j : Json}
    (h : ofJson? j = some c) : IsInt64 c.time ∧ ∀ x ∈ c.amounts, Amount.isFinite x = true := by
  simp only [ofJson?, Option.bind_eq_bind, Option.bind_eq_some_iff, Option.pure_def,
    Option.some.injEq] at h
  obtain ⟨r, -, time, htime, opening, hopening, high, hhigh, low, hlow, close, hclose, volume,
    hvolume, rfl⟩ := h
  simp only [amounts, List.forall_mem_cons]
  exact ⟨Record.isInt64_of_required htime, Record.isFinite_of_required hopening,
    Record.isFinite_of_required hhigh, Record.isFinite_of_required hlow,
    Record.isFinite_of_required hclose, Record.isFinite_of_required hvolume,
    List.forall_mem_nil _⟩

end Candle

namespace Trade

def amounts (t : Trade α) : List α := [t.price, t.quantity]

/-- Any form of a trade's record is read as that trade. -/
theorem ofJson?_of_form {t : Trade α} {j : Json} (hform : RecordForm t.toJson.entries j)
    (htime : IsInt64 t.timestamp) (hamounts : ∀ x ∈ t.amounts, ReadsBack x) :
    ofJson? j = some t := by
  obtain ⟨r, hrecord, hr⟩ := hform.exists_record ["price", "quantity", "timestamp"] rfl (by decide)
  simp only [amounts, List.forall_mem_cons] at hamounts
  obtain ⟨hprice, hquantity, -⟩ := hamounts
  unfold ofJson?
  rw [hrecord, Option.bind_eq_bind, Option.bind_some,
    Record.required_eq hr rfl (amount?_ofAmount hprice),
    Record.required_eq hr rfl (amount?_ofAmount hquantity),
    Record.required_eq hr rfl (int64?_ofInt htime)]
  rfl

/-- A trade that was read has a time of 64 bits and finite amounts. -/
theorem spec_of_ofJson? [Amount α] [LawfulJsonAmount α] {t : Trade α} {j : Json}
    (h : ofJson? j = some t) :
    IsInt64 t.timestamp ∧ ∀ x ∈ t.amounts, Amount.isFinite x = true := by
  simp only [ofJson?, Option.bind_eq_bind, Option.bind_eq_some_iff, Option.pure_def,
    Option.some.injEq] at h
  obtain ⟨r, -, price, hprice, quantity, hquantity, timestamp, htime, rfl⟩ := h
  simp only [amounts, List.forall_mem_cons]
  exact ⟨Record.isInt64_of_required htime, Record.isFinite_of_required hprice,
    Record.isFinite_of_required hquantity, List.forall_mem_nil _⟩

end Trade

namespace Ticker

def amounts (t : Ticker α) : List α := [t.bid, t.ask, t.last]

/-- Any form of a ticker's record is read as that ticker. -/
theorem ofJson?_of_form {t : Ticker α} {j : Json} (hform : RecordForm t.toJson.entries j)
    (htime : IsInt64 t.timestamp) (hamounts : ∀ x ∈ t.amounts, ReadsBack x) :
    ofJson? j = some t := by
  obtain ⟨r, hrecord, hr⟩ := hform.exists_record ["symbol", "bid", "ask", "last", "timestamp"] rfl
    (by decide)
  simp only [amounts, List.forall_mem_cons] at hamounts
  obtain ⟨hbid, hask, hlast, -⟩ := hamounts
  unfold ofJson?
  rw [hrecord, Option.bind_eq_bind, Option.bind_some,
    Record.required_eq hr rfl (string?_ofString t.symbol),
    Record.required_eq hr rfl (amount?_ofAmount hbid),
    Record.required_eq hr rfl (amount?_ofAmount hask),
    Record.required_eq hr rfl (amount?_ofAmount hlast),
    Record.required_eq hr rfl (int64?_ofInt htime)]
  rfl

/-- A ticker that was read has a time of 64 bits and finite amounts. -/
theorem spec_of_ofJson? [Amount α] [LawfulJsonAmount α] {t : Ticker α} {j : Json}
    (h : ofJson? j = some t) :
    IsInt64 t.timestamp ∧ ∀ x ∈ t.amounts, Amount.isFinite x = true := by
  simp only [ofJson?, Option.bind_eq_bind, Option.bind_eq_some_iff, Option.pure_def,
    Option.some.injEq] at h
  obtain ⟨r, -, symbol, -, bid, hbid, ask, hask, last, hlast, timestamp, htime, rfl⟩ := h
  simp only [amounts, List.forall_mem_cons]
  exact ⟨Record.isInt64_of_required htime, Record.isFinite_of_required hbid,
    Record.isFinite_of_required hask, Record.isFinite_of_required hlast, List.forall_mem_nil _⟩

end Ticker

namespace BookDepth

/-- The prices and quantities of levels. -/
def levelAmounts (levels : List (α × α)) : List α := levels.flatMap fun l => [l.1, l.2]

def amounts (b : BookDepth α) : List α := levelAmounts b.bids ++ levelAmounts b.asks

omit [JsonAmount α] in
/-- What holds of all amounts of some levels holds of their prices and of their quantities. -/
theorem forall_mem_levelAmounts {levels : List (α × α)} {p : α → Prop} :
    (∀ x ∈ levelAmounts levels, p x) ↔ ∀ l ∈ levels, p l.1 ∧ p l.2 := by
  rw [levelAmounts, List.forall_mem_flatMap]
  simp

/-- Levels are read back pair by pair. -/
theorem levels?_levelsToJson {levels : List (α × α)}
    (hamounts : ∀ x ∈ levelAmounts levels, ReadsBack x) :
    levels? (levelsToJson levels) = some levels := by
  rw [forall_mem_levelAmounts] at hamounts
  refine listOf?_map fun l hl => ?_
  obtain ⟨hprice, hquantity⟩ := hamounts l hl
  rw [pair?, amount?_ofAmount hprice, amount?_ofAmount hquantity]
  rfl

/-- Levels that were read have finite prices and quantities. -/
theorem isFinite_of_levels? [Amount α] [LawfulJsonAmount α] {levels : List (α × α)} {j : Json}
    (h : levels? j = some levels) : ∀ x ∈ levelAmounts levels, Amount.isFinite x = true := by
  rw [forall_mem_levelAmounts]
  refine forall_of_listOf? (fun _ l hl => ?_) h
  obtain ⟨⟨_, hprice⟩, _, hquantity⟩ := exists_of_pair? hl
  exact ⟨isFinite_of_amount? hprice, isFinite_of_amount? hquantity⟩

/-- Any form of a book's record is read as that book, bids and asks alike. -/
theorem ofJson?_of_form {b : BookDepth α} {j : Json} (hform : RecordForm b.toJson.entries j)
    (htime : IsInt64 b.timestamp) (hamounts : ∀ x ∈ b.amounts, ReadsBack x) :
    ofJson? j = some b := by
  obtain ⟨r, hrecord, hr⟩ := hform.exists_record ["bids", "asks", "timestamp"] rfl (by decide)
  simp only [amounts, List.forall_mem_append] at hamounts
  obtain ⟨hbids, hasks⟩ := hamounts
  unfold ofJson?
  rw [hrecord, Option.bind_eq_bind, Option.bind_some,
    Record.required_eq hr rfl (levels?_levelsToJson hbids),
    Record.required_eq hr rfl (levels?_levelsToJson hasks),
    Record.required_eq hr rfl (int64?_ofInt htime)]
  rfl

/-- A book that was read has a time of 64 bits and finite levels on both sides. -/
theorem spec_of_ofJson? [Amount α] [LawfulJsonAmount α] {b : BookDepth α} {j : Json}
    (h : ofJson? j = some b) :
    IsInt64 b.timestamp ∧ ∀ x ∈ b.amounts, Amount.isFinite x = true := by
  simp only [ofJson?, Option.bind_eq_bind, Option.bind_eq_some_iff, Option.pure_def,
    Option.some.injEq] at h
  obtain ⟨r, -, bids, hbids, asks, hasks, timestamp, htime, rfl⟩ := h
  obtain ⟨_, hbids⟩ := Record.exists_of_required hbids
  obtain ⟨_, hasks⟩ := Record.exists_of_required hasks
  rw [amounts, List.forall_mem_append]
  exact ⟨Record.isInt64_of_required htime, isFinite_of_levels? hbids, isFinite_of_levels? hasks⟩

end BookDepth

/-! ## Balances and orders on the exchange -/

namespace AssetBalance

variable [Amount α]

def amounts (b : AssetBalance α) : List α := [b.free, b.locked]

/-- Any form of a balance's record is read as that balance. Its amounts may be missing, and are then
nothing. -/
theorem ofJson?_of_form {b : AssetBalance α} {j : Json} (hform : RecordForm b.toJson.entries j)
    (hamounts : ∀ x ∈ b.amounts, ReadsBack x) : ofJson? j = some b := by
  obtain ⟨r, hrecord, hr⟩ := hform.exists_record ["asset", "free", "locked"] rfl (by decide)
  simp only [amounts, List.forall_mem_cons] at hamounts
  obtain ⟨hfree, hlocked, -⟩ := hamounts
  unfold ofJson?
  rw [hrecord, Option.bind_eq_bind, Option.bind_some,
    Record.required_eq hr rfl (string?_ofString b.asset),
    Record.withDefault_eq hr _ rfl (amount?_ofAmount hfree),
    Record.withDefault_eq hr _ rfl (amount?_ofAmount hlocked)]
  rfl

/-- A balance that was read is finite, also where an amount was missing. -/
theorem spec_of_ofJson? [LawfulJsonAmount α] {b : AssetBalance α} {j : Json}
    (h : ofJson? j = some b) : ∀ x ∈ b.amounts, Amount.isFinite x = true := by
  simp only [ofJson?, Option.bind_eq_bind, Option.bind_eq_some_iff, Option.pure_def,
    Option.some.injEq] at h
  obtain ⟨r, -, asset, -, free, hfree, locked, hlocked, rfl⟩ := h
  have hzero : Amount.isFinite (Amount.zero : α) = true := LawfulJsonAmount.isFinite_zero
  simp only [amounts, List.forall_mem_cons]
  exact ⟨Record.isFinite_of_withDefault hzero hfree, Record.isFinite_of_withDefault hzero hlocked,
    List.forall_mem_nil _⟩

end AssetBalance

namespace ExchangeOrder

def amounts (o : ExchangeOrder α) : List α := [o.price, o.quantity, o.filled]

/-- Any form of the record of an order on the exchange is read as that order. -/
theorem ofJson?_of_form {o : ExchangeOrder α} {j : Json} (hform : RecordForm o.toJson.entries j)
    (htime : IsInt64 o.timestamp) (hamounts : ∀ x ∈ o.amounts, ReadsBack x) :
    ofJson? j = some o := by
  obtain ⟨r, hrecord, hr⟩ := hform.exists_record
    ["id", "symbol", "side", "price", "quantity", "filled", "timestamp"] rfl (by decide)
  simp only [amounts, List.forall_mem_cons] at hamounts
  obtain ⟨hprice, hquantity, hfilled, -⟩ := hamounts
  unfold ofJson?
  rw [hrecord, Option.bind_eq_bind, Option.bind_some,
    Record.required_eq hr rfl (string?_ofString o.id),
    Record.required_eq hr rfl (string?_ofString o.symbol),
    Record.required_eq hr rfl (Side.ofJson?_toJson o.side),
    Record.required_eq hr rfl (amount?_ofAmount hprice),
    Record.required_eq hr rfl (amount?_ofAmount hquantity),
    Record.required_eq hr rfl (amount?_ofAmount hfilled),
    Record.required_eq hr rfl (int64?_ofInt htime)]
  rfl

/-- An order on the exchange that was read has a time of 64 bits and finite amounts. -/
theorem spec_of_ofJson? [Amount α] [LawfulJsonAmount α] {o : ExchangeOrder α} {j : Json}
    (h : ofJson? j = some o) :
    IsInt64 o.timestamp ∧ ∀ x ∈ o.amounts, Amount.isFinite x = true := by
  simp only [ofJson?, Option.bind_eq_bind, Option.bind_eq_some_iff, Option.pure_def,
    Option.some.injEq] at h
  obtain ⟨r, -, id, -, symbol, -, side, -, price, hprice, quantity, hquantity, filled, hfilled,
    timestamp, htime, rfl⟩ := h
  simp only [amounts, List.forall_mem_cons]
  exact ⟨Record.isInt64_of_required htime, Record.isFinite_of_required hprice,
    Record.isFinite_of_required hquantity, Record.isFinite_of_required hfilled,
    List.forall_mem_nil _⟩

end ExchangeOrder

/-! ## Orders -/

namespace Fee

/-- Any form of a fee's record is read as that fee. -/
theorem ofJson?_of_form {f : Fee α} {j : Json} (hform : RecordForm f.toJson.entries j)
    (hcost : ReadsBack f.cost) : ofJson? j = some f := by
  obtain ⟨r, hrecord, hr⟩ := hform.exists_record ["cost", "currency"] rfl (by decide)
  unfold ofJson?
  rw [hrecord, Option.bind_eq_bind, Option.bind_some,
    Record.required_eq hr rfl (amount?_ofAmount hcost),
    Record.required_eq hr rfl (string?_ofString f.currency)]
  rfl

/-- A fee that was read is finite. -/
theorem spec_of_ofJson? [Amount α] [LawfulJsonAmount α] {f : Fee α} {j : Json}
    (h : ofJson? j = some f) : Amount.isFinite f.cost = true := by
  simp only [ofJson?, Option.bind_eq_bind, Option.bind_eq_some_iff, Option.pure_def,
    Option.some.injEq] at h
  obtain ⟨r, -, cost, hcost, currency, -, rfl⟩ := h
  exact Record.isFinite_of_required hcost

end Fee

namespace Order

def amounts (o : Order α) : List α :=
  [o.price, o.quantity, o.filledQuantity] ++ o.stop.toList ++ o.filledPrice.toList
    ++ (o.fee.map Fee.cost).toList

omit [JsonAmount α] in
/-- The amounts of an order are its own, those it may have, and its fee if it paid one. -/
theorem forall_mem_amounts {o : Order α} {p : α → Prop} : (∀ x ∈ o.amounts, p x) ↔
    p o.price ∧ p o.quantity ∧ p o.filledQuantity ∧ (∀ x ∈ o.stop, p x) ∧
      (∀ x ∈ o.filledPrice, p x) ∧ ∀ f ∈ o.fee, p f.cost := by
  simp [amounts, or_imp, forall_and]

/-- What stands for an order: a form of the record with its fields, in which the fee, if there is
one, is in turn a form of the fee. -/
def Form (o : Order α) (j : Json) : Prop :=
  ∃ fee, OptionForm (fun f => RecordForm f.toJson.entries) o.fee fee ∧
    RecordForm (Table.put o.toJson.entries "fee" fee) j

/-- An order is written in one of its forms. -/
theorem form_toJson (o : Order α) : o.Form o.toJson := by
  refine ⟨ofOption Fee.toJson o.fee, ?_, .self o.toJson.entries⟩
  cases o.fee with
  | none => rfl
  | some f => exact .self f.toJson.entries

/-- Any form of an order's record, with any form of its fee's, is read as that order. -/
theorem ofJson?_of_form {o : Order α} {j : Json} (hform : o.Form j) (htime : IsInt64 o.created)
    (hamounts : ∀ x ∈ o.amounts, ReadsBack x) : ofJson? j = some o := by
  obtain ⟨fee, hfee, hform⟩ := hform
  obtain ⟨r, hrecord, hr⟩ := hform.exists_record fieldNames rfl (by decide)
  obtain ⟨hprice, hquantity, hfilledQuantity, hstop, hfilledPrice, hcost⟩ :=
    forall_mem_amounts.1 hamounts
  have hlinked : listOf? string? (array (o.linked.map ofString)) = some o.linked :=
    listOf?_map fun id _ => string?_ofString id
  have hfee : OptionForm (fun f j => Fee.ofJson? j = some f) o.fee fee := by
    cases hsome : o.fee with
    | none => rwa [hsome] at hfee
    | some f =>
      rw [hsome] at hfee
      exact Fee.ofJson?_of_form hfee (hcost f hsome)
  unfold ofJson?
  rw [hrecord, Option.bind_eq_bind, Option.bind_some,
    Record.required_eq hr rfl (string?_ofString o.id),
    Record.optional_eq hr rfl (fun id _ => string?_ofString id) rfl,
    Record.withDefault_eq hr _ rfl hlinked,
    Record.required_eq hr rfl (string?_ofString o.symbol),
    Record.required_eq hr rfl (OrderKind.ofJson?_toJson o.kind),
    Record.required_eq hr rfl (amount?_ofAmount hprice),
    Record.optional_eq hr rfl (fun x hx => amount?_ofAmount (hstop x hx)) rfl,
    Record.required_eq hr rfl (amount?_ofAmount hquantity),
    Record.required_eq hr rfl (OrderStatus.ofJson?_toJson o.status),
    Record.optional_eq hr rfl (fun x hx => amount?_ofAmount (hfilledPrice x hx)) rfl,
    Record.required_eq hr rfl (amount?_ofAmount hfilledQuantity),
    Record.optional_of_form hr rfl hfee rfl,
    Record.required_eq hr rfl (int64?_ofInt htime),
    Record.required_eq hr rfl (string?_ofString o.trader)]
  rfl

/-- An order that was read has a time of 64 bits and finite amounts, those it may lack included. -/
theorem spec_of_ofJson? [Amount α] [LawfulJsonAmount α] {o : Order α} {j : Json}
    (h : ofJson? j = some o) :
    IsInt64 o.created ∧ ∀ x ∈ o.amounts, Amount.isFinite x = true := by
  unfold ofJson? at h
  iterate 6 obtain ⟨_, -, h⟩ := Option.bind_eq_some_iff.1 h
  obtain ⟨price, hprice, h⟩ := Option.bind_eq_some_iff.1 h
  obtain ⟨stop, hstop, h⟩ := Option.bind_eq_some_iff.1 h
  obtain ⟨quantity, hquantity, h⟩ := Option.bind_eq_some_iff.1 h
  obtain ⟨status, -, h⟩ := Option.bind_eq_some_iff.1 h
  obtain ⟨filledPrice, hfilledPrice, h⟩ := Option.bind_eq_some_iff.1 h
  obtain ⟨filledQuantity, hfilledQuantity, h⟩ := Option.bind_eq_some_iff.1 h
  obtain ⟨fee, hfee, h⟩ := Option.bind_eq_some_iff.1 h
  obtain ⟨created, htime, h⟩ := Option.bind_eq_some_iff.1 h
  obtain ⟨trader, -, h⟩ := Option.bind_eq_some_iff.1 h
  obtain rfl := Option.some.inj h
  have hcost (f : Fee α) (hf : f ∈ fee) : Amount.isFinite f.cost = true := by
    obtain ⟨_, hread⟩ := Record.exists_of_optional hfee f hf
    exact Fee.spec_of_ofJson? hread
  exact ⟨Record.isInt64_of_required htime, forall_mem_amounts.2
    ⟨Record.isFinite_of_required hprice, Record.isFinite_of_required hquantity,
      Record.isFinite_of_required hfilledQuantity, Record.isFinite_of_optional hstop,
      Record.isFinite_of_optional hfilledPrice, hcost⟩⟩

end Order

/-! ## Evaluation -/

namespace Note

def amounts : Note α → List α
  | value x => [x]
  | pending => []

/-- A note is read back, whether it has a value or is pending. -/
theorem ofJson?_toJson {n : Note α} (hamounts : ∀ x ∈ n.amounts, ReadsBack x) :
    ofJson? n.toJson = some n := by
  cases n with
  | pending => rfl
  | value x =>
    have hx := amount?_ofAmount (hamounts x (List.mem_singleton_self x))
    exact congrArg (Option.map value) hx

/-- A note that was read has no value or a finite one. -/
theorem spec_of_ofJson? [Amount α] [LawfulJsonAmount α] {n : Note α} {j : Json}
    (h : ofJson? j = some n) : ∀ x ∈ n.amounts, Amount.isFinite x = true := by
  unfold ofJson? at h
  split at h
  · cases h
    exact List.forall_mem_nil _
  · cases h
    exact List.forall_mem_nil _
  · obtain ⟨x, hx, rfl⟩ := Option.map_eq_some_iff.1 h
    exact List.forall_mem_singleton.2 (isFinite_of_amount? hx)
  · cases h

end Note

/-- Any form of a trigger's record is read as that trigger. -/
theorem Trigger.ofJson?_of_form {t : Trigger} {j : Json} (hform : RecordForm t.toJson.entries j) :
    ofJson? j = some t := by
  obtain ⟨r, hrecord, hr⟩ := hform.exists_record
    ["source", "force_refresh", "finalize", "interruption"] rfl (by decide)
  unfold ofJson?
  rw [hrecord, Option.bind_eq_bind, Option.bind_some,
    Record.required_eq hr rfl (string?_ofString t.source),
    Record.required_eq hr rfl (bool?_bool t.forceRefresh),
    Record.required_eq hr rfl (bool?_bool t.finalize),
    Record.required_eq hr rfl (bool?_bool t.interruption)]
  rfl

namespace CandleUpdate

/-- What stands for an update: a form of the record with its fields, in which the candle is in turn
a form of the candle. -/
def Form (u : CandleUpdate α) (j : Json) : Prop :=
  ∃ candle, RecordForm u.candle.toJson.entries candle ∧
    RecordForm (Table.put u.toJson.entries "candle" candle) j

/-- An update is written in one of its forms. -/
theorem form_toJson (u : CandleUpdate α) : u.Form u.toJson :=
  ⟨u.candle.toJson, .self u.candle.toJson.entries, .self u.toJson.entries⟩

/-- Any form of an update's record, with any form of its candle's, is read as that update. -/
theorem ofJson?_of_form {u : CandleUpdate α} {j : Json} (hform : u.Form j)
    (htime : IsInt64 u.candle.time) (hamounts : ∀ x ∈ u.candle.amounts, ReadsBack x) :
    ofJson? j = some u := by
  obtain ⟨candle, hcandle, hform⟩ := hform
  obtain ⟨r, hrecord, hr⟩ := hform.exists_record ["time_frame", "candle"] rfl (by decide)
  unfold ofJson?
  rw [hrecord, Option.bind_eq_bind, Option.bind_some,
    Record.required_eq hr rfl (TimeFrame.ofJson?_toJson u.timeFrame),
    Record.required_eq hr rfl (Candle.ofJson?_of_form hcandle htime hamounts)]
  rfl

/-- An update that was read has a candle with a time of 64 bits and finite amounts. -/
theorem spec_of_ofJson? [Amount α] [LawfulJsonAmount α] {u : CandleUpdate α} {j : Json}
    (h : ofJson? j = some u) :
    IsInt64 u.candle.time ∧ ∀ x ∈ u.candle.amounts, Amount.isFinite x = true := by
  simp only [ofJson?, Option.bind_eq_bind, Option.bind_eq_some_iff, Option.pure_def,
    Option.some.injEq] at h
  obtain ⟨r, -, timeFrame, -, candle, hcandle, rfl⟩ := h
  obtain ⟨_, hcandle⟩ := Record.exists_of_required hcandle
  exact Candle.spec_of_ofJson? hcandle

end CandleUpdate

/-! ## All types -/

/-- The types of the data model that have a JSON form. -/
inductive DataType where
  | candle
  | trade
  | ticker
  | book
  | balance
  | exchangeOrder
  | order
  | fee
  | note
  | trigger
  | candleUpdate
  deriving Repr, DecidableEq

namespace DataType

/-- The values of a type. -/
def Value (α : Type) : DataType → Type
  | candle => Candle α
  | trade => Trade α
  | ticker => Ticker α
  | book => BookDepth α
  | balance => AssetBalance α
  | exchangeOrder => ExchangeOrder α
  | order => Order α
  | fee => Fee α
  | note => Note α
  | trigger => Trigger
  | candleUpdate => CandleUpdate α

def toJson : (t : DataType) → t.Value α → Json
  | candle => Candle.toJson
  | trade => Trade.toJson
  | ticker => Ticker.toJson
  | book => BookDepth.toJson
  | balance => AssetBalance.toJson
  | exchangeOrder => ExchangeOrder.toJson
  | order => Order.toJson
  | fee => Fee.toJson
  | note => Note.toJson
  | trigger => Trigger.toJson
  | candleUpdate => CandleUpdate.toJson

def ofJson? [Amount α] : (t : DataType) → Json → Option (t.Value α)
  | candle => Candle.ofJson?
  | trade => Trade.ofJson?
  | ticker => Ticker.ofJson?
  | book => BookDepth.ofJson?
  | balance => AssetBalance.ofJson?
  | exchangeOrder => ExchangeOrder.ofJson?
  | order => Order.ofJson?
  | fee => Fee.ofJson?
  | note => Note.ofJson?
  | trigger => Trigger.ofJson?
  | candleUpdate => CandleUpdate.ofJson?

/-- The points in time in a value, which are whole numbers. -/
def times : (t : DataType) → t.Value α → List Int
  | candle, c => [Candle.time c]
  | trade, t => [Trade.timestamp t]
  | ticker, t => [Ticker.timestamp t]
  | book, b => [BookDepth.timestamp b]
  | exchangeOrder, o => [ExchangeOrder.timestamp o]
  | order, o => [Order.created o]
  | candleUpdate, u => [(CandleUpdate.candle u).time]
  | balance, _ | fee, _ | note, _ | trigger, _ => []

def amounts : (t : DataType) → t.Value α → List α
  | candle => Candle.amounts
  | trade => Trade.amounts
  | ticker => Ticker.amounts
  | book => BookDepth.amounts
  | balance => AssetBalance.amounts
  | exchangeOrder => ExchangeOrder.amounts
  | order => Order.amounts
  | fee => fun f => [Fee.cost f]
  | note => Note.amounts
  | trigger => fun _ => []
  | candleUpdate => fun u => (CandleUpdate.candle u).amounts

/-- What stands for a value: any form of the records that it consists of. A note is no record and
stands as it is written. -/
def Form : (t : DataType) → t.Value α → Json → Prop
  | order => Order.Form
  | candleUpdate => CandleUpdate.Form
  | note => fun n j => j = Note.toJson n
  | t => fun v => RecordForm (t.toJson v).entries

/-- Every type writes its values in one of their forms. -/
theorem form_toJson (t : DataType) (v : t.Value α) : t.Form v (t.toJson v) := by
  cases t with
  | order => exact Order.form_toJson v
  | candleUpdate => exact CandleUpdate.form_toJson v
  | note => rfl
  | _ => exact .self _

variable [Amount α]

/-- Whatever the type, any form of a value is read as that value, if its times have 64 bits and its
amounts read back. -/
theorem ofJson?_of_form {t : DataType} {v : t.Value α} {j : Json} (hform : t.Form v j)
    (htimes : ∀ n ∈ t.times v, IsInt64 n) (hamounts : ∀ x ∈ t.amounts v, ReadsBack x) :
    t.ofJson? j = some v := by
  cases t with
  | candle => exact Candle.ofJson?_of_form hform (htimes _ (List.mem_singleton_self _)) hamounts
  | trade => exact Trade.ofJson?_of_form hform (htimes _ (List.mem_singleton_self _)) hamounts
  | ticker => exact Ticker.ofJson?_of_form hform (htimes _ (List.mem_singleton_self _)) hamounts
  | book => exact BookDepth.ofJson?_of_form hform (htimes _ (List.mem_singleton_self _)) hamounts
  | balance => exact AssetBalance.ofJson?_of_form hform hamounts
  | exchangeOrder =>
    exact ExchangeOrder.ofJson?_of_form hform (htimes _ (List.mem_singleton_self _)) hamounts
  | order => exact Order.ofJson?_of_form hform (htimes _ (List.mem_singleton_self _)) hamounts
  | fee => exact Fee.ofJson?_of_form hform (hamounts _ (List.mem_singleton_self _))
  | note =>
    cases hform
    exact Note.ofJson?_toJson hamounts
  | trigger => exact Trigger.ofJson?_of_form hform
  | candleUpdate =>
    exact CandleUpdate.ofJson?_of_form hform (htimes _ (List.mem_singleton_self _)) hamounts

/-- What was read can be held. -/
theorem spec_of_ofJson? [LawfulJsonAmount α] {t : DataType} {v : t.Value α} {j : Json}
    (h : t.ofJson? j = some v) :
    (∀ n ∈ t.times v, IsInt64 n) ∧ ∀ x ∈ t.amounts v, Amount.isFinite x = true := by
  cases t with
  | candle => exact (Candle.spec_of_ofJson? h).imp_left List.forall_mem_singleton.2
  | trade => exact (Trade.spec_of_ofJson? h).imp_left List.forall_mem_singleton.2
  | ticker => exact (Ticker.spec_of_ofJson? h).imp_left List.forall_mem_singleton.2
  | book => exact (BookDepth.spec_of_ofJson? h).imp_left List.forall_mem_singleton.2
  | balance => exact ⟨List.forall_mem_nil _, AssetBalance.spec_of_ofJson? h⟩
  | exchangeOrder => exact (ExchangeOrder.spec_of_ofJson? h).imp_left List.forall_mem_singleton.2
  | order => exact (Order.spec_of_ofJson? h).imp_left List.forall_mem_singleton.2
  | fee => exact ⟨List.forall_mem_nil _, List.forall_mem_singleton.2 (Fee.spec_of_ofJson? h)⟩
  | note => exact ⟨List.forall_mem_nil _, Note.spec_of_ofJson? h⟩
  | trigger => exact ⟨List.forall_mem_nil _, List.forall_mem_nil _⟩
  | candleUpdate => exact (CandleUpdate.spec_of_ofJson? h).imp_left List.forall_mem_singleton.2

/-- The text of a value. -/
def encode (t : DataType) (style : Style) (v : t.Value α) : String := (t.toJson v).render style

/-- The value that a text says. -/
def decode? (t : DataType) (text : String) : Option (t.Value α) :=
  (Json.parse? text).bind t.ofJson?

/-- A value whose whole numbers fit into 64 bits and whose amounts are finite is read from every
form of it, in any text that says that form; and what was read from any text at all is read again
from its own text. The one thing asked of the amounts is that the numeral of a finite one reads as
it. -/
theorem round_trip [LawfulJsonAmount α] (t : DataType) :
    (∀ v : t.Value α, (∀ n ∈ t.times v, IsInt64 n) →
      (∀ x ∈ t.amounts v, Amount.isFinite x = true) →
      (∀ x ∈ t.amounts v, Amount.isFinite x = true → ReadsBack x) →
        t.Form v (t.toJson v) ∧
        ∀ j, t.Form v j → (∀ style, t.decode? (j.render style) = some v) ∧
          ∀ text, Json.parse? text = some j → t.decode? text = some v) ∧
    ∀ (text : String) (v : t.Value α), t.decode? text = some v →
      (∀ x ∈ t.amounts v, Amount.isFinite x = true → ReadsBack x) →
        ∀ style, t.decode? (t.encode style v) = some v := by
  have hdecode {text : String} {j : Json} {v : t.Value α} (hparse : Json.parse? text = some j)
      (hread : t.ofJson? j = some v) : t.decode? text = some v := by
    rw [decode?, hparse, Option.bind_some, hread]
  constructor
  · intro v htimes hfinite hreads
    refine ⟨t.form_toJson v, fun j hform => ?_⟩
    have hread := ofJson?_of_form hform htimes fun x hx => hreads x hx (hfinite x hx)
    exact ⟨fun style => hdecode (parse?_render style j) hread, fun text hparse =>
      hdecode hparse hread⟩
  · intro text v hdecoded hreads style
    obtain ⟨j, -, hread⟩ := Option.bind_eq_some_iff.1 hdecoded
    obtain ⟨htimes, hfinite⟩ := spec_of_ofJson? hread
    exact hdecode (parse?_render style _) (ofJson?_of_form (t.form_toJson v) htimes fun x hx =>
      hreads x hx (hfinite x hx))

/-- An order with its fields from the last to the first, one of them unknown, and with its fee as an
array. -/
theorem round_trip_order :
    let o : Order Float := {
      id := "a", exchangeId := none, linked := ["b"], symbol := "BTC/USDT", kind := .stopLossLimit,
      price := 100.5, stop := some 99.0, quantity := 2.0, status := .filled,
      filledPrice := some 98.75, filledQuantity := 2.0, fee := some ⟨0.1975, "USDT"⟩,
      created := -1, trader := "sim" }
    let fee := array [ofAmount (0.1975 : Float), ofString "USDT"]
    let fields := (Table.put o.toJson.entries "fee" fee ++ [("venue", null)]).reverse
    order.decode? ((Json.record fields).render .compact) = some o ∧
      order.decode? (order.encode .indented o) = some o := by
  intro o fee fields
  have htimes : ∀ n ∈ order.times o, IsInt64 n := by decide
  have hfinite : ∀ x ∈ order.amounts o, Amount.isFinite x = true := by decide +kernel
  have hreads : ∀ x ∈ order.amounts o, Amount.isFinite x = true → ReadsBack x := by decide +kernel
  have hform : order.Form o (Json.record fields) :=
    ⟨fee, .array, .object (by decide) (List.reverse_perm _)⟩
  obtain ⟨hread, hagain⟩ := round_trip (α := Float) order
  have htext := ((hread o htimes hfinite hreads).2 _ hform).1 .compact
  exact ⟨htext, hagain _ o htext hreads .indented⟩

end DataType

end MarketEngine
