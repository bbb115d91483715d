import MarketEngine.Proofs.Trading.BoundedStore
import MarketEngine.Proofs.Trading.Closings
import MarketEngine.Proofs.Trading.Floor
/-!
# Reports

The report of a matching pass says exactly what the pass did (`Desk.matchSymbol_reports`).

A pass changes of the orders only whether they are closed and how, and of the traders only what they
were told (`MatchingPass.Frame`). Beside the orders that it closed, kept by their handles, stands
what it wrote into its report, turn by turn (`MatchingPass.Tally`); the ids are read off at the end,
where they are known to be distinct.
-/

namespace MarketEngine

variable {α : Type}

/-! ## What a pass leaves alone -/

namespace Order

/-- The order as if it had never been closed. -/
def unsettled (o : Order α) : Order α :=
  { o with
    status := .opened, filledPrice := none, filledQuantity := o.quantity, fee := none }

/-- A fill only changes what an order was closed with. -/
theorem unsettled_fill (o : Order α) (price : α) (fee : Fee α) :
    (o.fill price fee).1.unsettled = o.unsettled := by
  unfold fill
  split <;> rfl

/-- A cancellation only changes whether an order is closed. -/
theorem unsettled_cancel (o : Order α) : o.cancel.1.unsettled = o.unsettled := by
  unfold cancel
  split <;> rfl

variable {o o' : Order α}

/-- The id has nothing to do with how an order was closed. -/
theorem id_eq_of_unsettled (h : o'.unsettled = o.unsettled) : o'.id = o.id :=
  congrArg (·.id) h

end Order

namespace OrderStore

/-- What there is of every slot apart from whether its order is closed and how. -/
def fixtures (s : OrderStore α) : List (Bool × Bool × Order α) :=
  s.slots.map fun slot => (slot.stored, slot.held, slot.order.unsettled)

/-- A change that closes at most an order leaves the rest of the store alone. -/
theorem fixtures_modify (s : OrderStore α) (handle : Nat) {f : Order α → Order α}
    (hf : ∀ o : Order α, (f o).unsettled = o.unsettled) :
    (s.modify handle f).fixtures = s.fixtures :=
  map_modify (fun slot => by simp [hf]) s.slots handle

/-- Stores that differ only in what is closed have the same slots. -/
theorem length_eq_of_fixtures {s s' : OrderStore α} (h : s'.fixtures = s.fixtures) :
    s'.slots.length = s.slots.length := by
  simpa [fixtures] using congrArg List.length h

/-- Slot by slot, stores that differ only in what is closed agree on everything else. -/
theorem exists_slot_of_fixtures {s s' : OrderStore α} (h : s'.fixtures = s.fixtures) {handle : Nat}
    {slot : Slot α} (hslot : s.slots[handle]? = some slot) :
    ∃ slot', s'.slots[handle]? = some slot' ∧ slot'.stored = slot.stored ∧
      slot'.held = slot.held ∧ slot'.order.unsettled = slot.order.unsettled := by
  have hget := congrArg (·[handle]?) h
  simp only [fixtures, List.getElem?_map, hslot, Option.map_some] at hget
  obtain ⟨slot', hslot', heq⟩ := Option.map_eq_some_iff.1 hget
  simp only [Prod.mk.injEq] at heq
  exact ⟨slot', hslot', heq⟩

/-- Whether an order is stored does not depend on what is closed. -/
theorem isStored_of_fixtures {s s' : OrderStore α} (h : s'.fixtures = s.fixtures) (handle : Nat) :
    s'.slots[handle]?.any (·.stored) = s.slots[handle]?.any (·.stored) := by
  have hget := congrArg (fun fixtures => fixtures[handle]?.any (·.1)) h
  simpa only [fixtures, List.getElem?_map, Option.any_map] using hget

end OrderStore

/-- Who a trader is and what it knows of the exchange's orders. -/
def Trader.knowledge (t : Trader α) : String × List Symbol × Table Symbol (List String) :=
  (t.name, t.symbols, t.known)

/-- What the traders know is all that counts for whether an order is missing. -/
theorem Desk.isMissing_congr {d d' : Desk α}
    (h : d'.traders.map Trader.knowledge = d.traders.map Trader.knowledge) (o : Order α) :
    d'.isMissing o = d.isMissing o := by
  have hknows : ∀ (d : Desk α) (name id : String), (d.trader? name).any (·.knows id)
      = ((latest? (·.1 == name) (d.traders.map Trader.knowledge)).bind fun i =>
          (d.traders.map Trader.knowledge)[i]?).any
        fun knowledge => knowledge.2.2.any fun entry => entry.2.contains id := by
    intro d name id
    rw [trader?, latest?_map]
    simp only [List.getElem?_map, Trader.knowledge]
    cases latest? (·.name == name) d.traders with
    | none => rfl
    | some i =>
      simp only [Option.bind_some, Option.any_map]
      rfl
  unfold isMissing
  cases o.exchangeId with
  | none => rfl
  | some id => simp only [hknows, h]

/-- The traders have no say in how many trades are kept. -/
theorem Desk.windowSize_modifyTrader (d : Desk α) (name : String) (f : Trader α → Trader α) :
    (d.modifyTrader name f).windowSize = d.windowSize := by
  unfold modifyTrader
  split <;> rfl

namespace MatchingPass

/-- A pass may go on in this way: of the orders it changes only whether they are closed and how, and
of the traders only what they were told. -/
structure Frame (p p' : MatchingPass α) : Prop where
  ages : p.desk.orders.Ages p'.desk.orders
  fixtures_eq : p'.desk.orders.fixtures = p.desk.orders.fixtures
  knowledge_eq : p'.desk.traders.map Trader.knowledge = p.desk.traders.map Trader.knowledge
  windowSize_eq : p'.desk.windowSize = p.desk.windowSize

/-- A pass in which nothing happens changes nothing. -/
theorem Frame.refl (p : MatchingPass α) : p.Frame p := ⟨.refl _, rfl, rfl, rfl⟩

/-- What two parts of a pass leave alone, the whole of them leaves alone. -/
theorem Frame.trans {p p' p'' : MatchingPass α} (h : p.Frame p') (h' : p'.Frame p'') :
    p.Frame p'' where
  ages := h.ages.trans h'.ages
  fixtures_eq := h'.fixtures_eq.trans h.fixtures_eq
  knowledge_eq := h'.knowledge_eq.trans h.knowledge_eq
  windowSize_eq := h'.windowSize_eq.trans h.windowSize_eq

/-- An order may be closed, its trader told, and money moved. -/
theorem frame_settle (p : MatchingPass α) (handle : Nat) {f : Order α → Order α}
    (hages : ∀ o : Order α, o.Ages (f o)) (hf : ∀ o : Order α, (f o).unsettled = o.unsettled)
    (portfolio : Portfolio α) (name : String) {note : Trader α → Trader α}
    (hnote : ∀ t, (note t).knowledge = t.knowledge) (report : MatchReport)
    (toRefresh : List String) :
    p.Frame
      { desk := { p.desk with portfolio, orders := p.desk.orders.modify handle f }.modifyTrader
          name note
        report, toRefresh } := by
  refine ⟨?_, ?_, ?_, ?_⟩
  · rw [Desk.orders_modifyTrader]
    exact OrderStore.ages_modify _ _ hages
  · rw [Desk.orders_modifyTrader]
    exact OrderStore.fixtures_modify _ _ hf
  · unfold Desk.modifyTrader
    split
    · rfl
    · exact map_modify hnote _ _
  · exact Desk.windowSize_modifyTrader _ name note

/-- A cancellation changes the status of one order and what its trader was told. -/
theorem frame_canceling (p : MatchingPass α) (handle : Nat) (o : Order α) :
    p.Frame (p.canceling handle o) := by
  have hnote : ∀ t : Trader α, (t.noteCancel o.cancel.1).knowledge = t.knowledge := fun _ => rfl
  exact p.frame_settle handle Order.ages_cancel Order.unsettled_cancel p.desk.portfolio o.trader
    hnote _ _

/-- Canceling a linked order is a cancellation, or nothing at all. -/
theorem frame_cancelLinked (p : MatchingPass α) (id : String) : p.Frame (p.cancelLinked id) := by
  rcases cancelLinked_cases p id with ⟨hsame, -⟩ | ⟨handle, o, -, -, -, hcancel⟩
  · rw [hsame]
    exact .refl p
  · rw [hcancel]
    exact p.frame_canceling handle o

/-- The linked orders are canceled one by one. -/
theorem frame_foldl_cancelLinked (p : MatchingPass α) (ids : List String) :
    p.Frame (ids.foldl cancelLinked p) := by
  induction ids generalizing p with
  | nil => exact .refl p
  | cons id rest ih => exact (p.frame_cancelLinked id).trans (ih _)

variable [Amount α]

/-- A fill closes one order, tells its trader, and books the amounts. -/
theorem frame_filling (p : MatchingPass α) (handle : Nat) (o : Order α) (price : α)
    (portfolio : Portfolio α) : p.Frame (p.filling handle o price portfolio) := by
  let fee := o.feeAt p.desk.fees price
  have hnote : ∀ t : Trader α, (t.noteFill (o.fill price fee).1).knowledge = t.knowledge :=
    fun _ => rfl
  exact p.frame_settle handle (fun o' => o'.ages_fill price fee)
    (fun o' => o'.unsettled_fill price fee) portfolio _ hnote _ _

/-- A turn is a refused or a successful fill, or it only notes that the order is missing. -/
theorem frame_turn (replayed : Bool) (window : List (Trade α)) (p : MatchingPass α)
    (handle : Nat) : p.Frame (p.turn replayed window handle).1 := by
  have hturn := turn_spec replayed window p handle
  generalize p.turn replayed window handle = r at hturn ⊢
  cases hturn with
  | filled => exact p.frame_filling ..
  | missing => exact ⟨.refl _, rfl, rfl, rfl⟩
  | _ => exact .refl p

/-- After its turn, the orders linked to a filled order are canceled. -/
theorem frame_visit (replayed : Bool) (window : List (Trade α)) (p : MatchingPass α)
    (handle : Nat) : p.Frame (p.visit replayed window handle) :=
  (frame_turn replayed window p handle).trans (frame_foldl_cancelLinked _ _)

/-- The visits of a pass, one after the other. -/
theorem frame_foldl_visit (replayed : Bool) (window : List (Trade α)) (p : MatchingPass α)
    (handles : List Nat) : p.Frame (handles.foldl (visit replayed window) p) := by
  induction handles generalizing p with
  | nil => exact .refl p
  | cons handle rest ih => exact (frame_visit replayed window p handle).trans (ih _)

end MatchingPass

/-! ## What the report says -/

/-- Those of some closed orders that have this status. -/
def entries (status : OrderStatus) (closed : List (Nat × Order α)) : List (Nat × Order α) :=
  closed.filter (·.2.status == status)

/-- What was closed with a status, first and then. -/
theorem entries_append (status : OrderStatus) (closed closed' : List (Nat × Order α)) :
    entries status (closed ++ closed') = entries status closed ++ entries status closed' :=
  List.filter_append ..

/-- An entry belongs to those of its own status only. -/
theorem mem_entries {status : OrderStatus} {closed : List (Nat × Order α)} {entry : Nat × Order α} :
    entry ∈ entries status closed ↔ entry ∈ closed ∧ entry.2.status = status := by
  simp [entries]

namespace MatchingPass

variable [Amount α]

/-- While some orders had their turns, those of `closed` were closed and those of `missed` were
missing, and the report says so. Apart from the orders that `loose` names, an order is canceled only
when an order that it is linked to is filled. -/
structure Tally (p : MatchingPass α) (visited : List Nat) (loose : List String)
    (closed missed : List (Nat × Order α)) (p' : MatchingPass α) : Prop where
  frame : p.Frame p'
  closes : p.desk.Closes closed p'.desk
  filled_eq : p'.report.filled = p.report.filled ++ (entries .filled closed).map (·.2.id)
  canceled_eq : p'.report.canceled = p.report.canceled ++ (entries .canceled closed).map (·.2.id)
  missing_eq : p'.report.missing = p.report.missing ++ missed.map (·.2.id)
  filled_sublist : ((entries .filled closed).map (·.1)).Sublist visited
  missed_sublist : (missed.map (·.1)).Sublist visited
  missed_spec : ∀ entry ∈ missed, p.desk.orders.at? entry.1 = some entry.2 ∧
    entry.2.isOpen = true ∧ p.desk.isMissing entry.2 = true
  apart : visited.Nodup → ∀ entry ∈ missed, entry.1 ∉ (entries .filled closed).map (·.1)
  canceled_stored : ∀ entry ∈ entries .canceled closed,
    p.desk.orders.slots[entry.1]?.any (·.stored) = true
  linked : ∀ entry ∈ entries .canceled closed,
    entry.2.id ∈ loose ∨ ∃ filled ∈ entries .filled closed, entry.2.id ∈ filled.2.linked

variable {p p' p'' : MatchingPass α} {visited visited' : List Nat} {loose : List String}
  {closed closed' missed missed' : List (Nat × Order α)}

/-- Where no order has a turn, nothing is closed and the report stays as it is. -/
theorem Tally.refl (p : MatchingPass α) (visited : List Nat) (loose : List String) :
    p.Tally visited loose [] [] p where
  frame := .refl p
  closes := .refl _
  filled_eq := (List.append_nil _).symm
  canceled_eq := (List.append_nil _).symm
  missing_eq := (List.append_nil _).symm
  filled_sublist := List.nil_sublist _
  missed_sublist := List.nil_sublist _
  missed_spec := List.forall_mem_nil _
  apart _ := List.forall_mem_nil _
  canceled_stored := List.forall_mem_nil _
  linked := List.forall_mem_nil _

/-- What is open later was the same before. -/
theorem Tally.at?_of_isOpen (h : p.Tally visited loose closed missed p') {handle : Nat}
    {o : Order α} (ho : p'.desk.orders.at? handle = some o) (hopen : o.isOpen = true) :
    p.desk.orders.at? handle = some o := by
  rw [← h.closes.others handle fun hmem => ?_, ho]
  obtain ⟨⟨_, o'⟩, hentry, rfl⟩ := List.mem_map.1 hmem
  obtain ⟨-, ho', hclosed⟩ := (h.closes.mem_iff _ o').1 hentry
  obtain rfl := Option.some.inj (ho'.symm.trans ho)
  rw [hopen] at hclosed
  simp at hclosed

/-- The tallies of two stretches of a pass are put together: first those that were visited and
closed in the first one, then those of the second. -/
theorem Tally.trans (h : p.Tally visited loose closed missed p')
    (h' : p'.Tally visited' loose closed' missed' p'') :
    p.Tally (visited ++ visited') loose (closed ++ closed') (missed ++ missed') p'' where
  frame := h.frame.trans h'.frame
  closes := h.closes.trans h'.closes
  filled_eq := by
    rw [h'.filled_eq, h.filled_eq, entries_append, List.map_append, List.append_assoc]
  canceled_eq := by
    rw [h'.canceled_eq, h.canceled_eq, entries_append, List.map_append, List.append_assoc]
  missing_eq := by rw [h'.missing_eq, h.missing_eq, List.map_append, List.append_assoc]
  filled_sublist := by
    rw [entries_append, List.map_append]
    exact h.filled_sublist.append h'.filled_sublist
  missed_sublist := by
    rw [List.map_append]
    exact h.missed_sublist.append h'.missed_sublist
  missed_spec entry hentry := by
    rcases List.mem_append.1 hentry with hfirst | hsecond
    · exact h.missed_spec entry hfirst
    · obtain ⟨ho, hopen, hmissing⟩ := h'.missed_spec entry hsecond
      rw [Desk.isMissing_congr h.frame.knowledge_eq] at hmissing
      exact ⟨h.at?_of_isOpen ho hopen, hopen, hmissing⟩
  apart hnodup entry hentry := by
    -- no order is visited in both stretches
    obtain ⟨hfirst, hsecond, hdisjoint⟩ := List.nodup_append.1 hnodup
    rw [entries_append, List.map_append, List.mem_append, not_or]
    rcases List.mem_append.1 hentry with hmem | hmem
    · refine ⟨h.apart hfirst entry hmem, fun hfilled => ?_⟩
      exact hdisjoint _ (h.missed_sublist.subset (List.mem_map_of_mem hmem)) _
        (h'.filled_sublist.subset hfilled) rfl
    · refine ⟨fun hfilled => ?_, h'.apart hsecond entry hmem⟩
      exact hdisjoint _ (h.filled_sublist.subset hfilled) _
        (h'.missed_sublist.subset (List.mem_map_of_mem hmem)) rfl
  canceled_stored entry hentry := by
    rw [entries_append] at hentry
    rcases List.mem_append.1 hentry with hmem | hmem
    · exact h.canceled_stored entry hmem
    · rw [← OrderStore.isStored_of_fixtures h.frame.fixtures_eq]
      exact h'.canceled_stored entry hmem
  linked entry hentry := by
    rw [entries_append] at hentry ⊢
    rcases List.mem_append.1 hentry with hmem | hmem
    · rcases h.linked entry hmem with hloose | ⟨filled, hfilled, hlinked⟩
      · exact .inl hloose
      · exact .inr ⟨filled, List.mem_append_left _ hfilled, hlinked⟩
    · rcases h'.linked entry hmem with hloose | ⟨filled, hfilled, hlinked⟩
      · exact .inl hloose
      · exact .inr ⟨filled, List.mem_append_right _ hfilled, hlinked⟩

/-- The orders that `loose` names may be those that a filled order is linked to. -/
theorem Tally.settle (h : p.Tally visited loose closed missed p')
    {filled : Nat × Order α} (hfilled : filled ∈ entries .filled closed)
    (hloose : filled.2.linked = loose) : p.Tally visited [] closed missed p' where
  __ := h
  linked entry hentry := by
    rcases h.linked entry hentry with hmem | hlinked
    · exact .inr ⟨filled, hfilled, hloose ▸ hmem⟩
    · exact .inr hlinked

/-- Canceling a linked order closes that order, if it is open and stored, and the report says so. -/
theorem tally_cancelLinked (p : MatchingPass α) {id : String} (hid : id ∈ loose) :
    ∃ closed, p.Tally [] loose closed [] (p.cancelLinked id) := by
  rcases cancelLinked_cases p id with ⟨hsame, -⟩ | ⟨handle, o, hhandle, ho, hopen, hcancel⟩
  · rw [hsame]
    exact ⟨[], .refl p [] loose⟩
  · have hstatus : o.cancel.1.status = .canceled := by rw [Order.status_cancel, if_pos hopen]
    have hcanceled : o.cancel.1.id = o.id := o.ages_cancel.id_eq
    obtain ⟨slot, hslot, hstored, hslotid⟩ := OrderStore.handle?_eq_some hhandle
    have hoid : o.id = id := by
      have hsame : slot.order = o := by simpa [OrderStore.at?, hslot] using ho
      rw [← hsame, hslotid]
    rw [hcancel]
    refine ⟨[(handle, o.cancel.1)], ?_⟩
    exact
      { frame := p.frame_canceling handle o
        closes := closes_canceling ho hopen
        filled_eq := by simp [entries, hstatus, canceling]
        canceled_eq := by simp [entries, hstatus, canceling, hcanceled]
        missing_eq := by simp [canceling]
        filled_sublist := by simp [entries, hstatus]
        missed_sublist := .refl _
        missed_spec := List.forall_mem_nil _
        apart := fun _ => List.forall_mem_nil _
        canceled_stored := by simp [entries, hstatus, hslot, hstored]
        linked := by simp [entries, hstatus, hcanceled, hoid, hid] }

/-- Canceling linked orders one by one closes some of those that are named. -/
theorem tally_foldl_cancelLinked (p : MatchingPass α) {ids : List String} (hids : ids ⊆ loose) :
    ∃ closed, p.Tally [] loose closed [] (ids.foldl cancelLinked p) := by
  induction ids generalizing p with
  | nil => exact ⟨[], .refl p [] loose⟩
  | cons id rest ih =>
    obtain ⟨closed, htally⟩ := p.tally_cancelLinked (hids List.mem_cons_self)
    obtain ⟨closed', htally'⟩ := ih (p.cancelLinked id) fun _ h => hids (List.mem_cons_of_mem _ h)
    exact ⟨_, htally.trans htally'⟩

/-- A fill closes the order at hand as filled, and nothing else. -/
theorem tally_filling {p : MatchingPass α} {handle : Nat} {o : Order α}
    (ho : p.desk.orders.at? handle = some o) (hopen : o.isOpen = true) (price : α)
    (portfolio : Portfolio α) (loose : List String) :
    p.Tally [handle] loose [(handle, (o.fill price (o.feeAt p.desk.fees price)).1)] []
      (p.filling handle o price portfolio) := by
  have hstatus := Order.status_fill hopen price (o.feeAt p.desk.fees price)
  exact
    { frame := p.frame_filling handle o price portfolio
      closes := closes_filling ho hopen price portfolio
      filled_eq := by simp [entries, hstatus, filling, noteFill]
      canceled_eq := by simp [entries, hstatus, filling, noteFill]
      missing_eq := by simp [filling, noteFill]
      filled_sublist := by simp [entries, hstatus]
      missed_sublist := List.nil_sublist _
      missed_spec := List.forall_mem_nil _
      apart := fun _ => List.forall_mem_nil _
      canceled_stored := by simp [entries, hstatus]
      linked := by simp [entries, hstatus] }

/-- An order that has its turn is filled, with its linked orders canceled then, or is missing, or
nothing happens. -/
theorem tally_visit (replayed : Bool) (window : List (Trade α)) (p : MatchingPass α)
    (handle : Nat) :
    ∃ closed missed, p.Tally [handle] [] closed missed (p.visit replayed window handle) := by
  have hturn := turn_spec replayed window p handle
  rw [visit]
  generalize p.turn replayed window handle = r at hturn ⊢
  cases hturn with
  | @missing o ho hopen hmissing =>
    refine ⟨[], [(handle, o)], ?_⟩
    exact
      { Tally.refl p [handle] [] with
        frame := ⟨.refl _, rfl, rfl, rfl⟩
        missing_eq := rfl
        missed_sublist := .refl _
        missed_spec := by simp [ho, hopen, hmissing]
        apart := fun _ => by simp [entries] }
  | @filled o price portfolio ho hopen _ _ _ =>
    obtain ⟨closed, hcancels⟩ := (p.filling handle o price portfolio).tally_foldl_cancelLinked
      (List.Subset.refl o.linked)
    have hfilled := (tally_filling ho hopen price portfolio o.linked).trans hcancels
    have hmem : (handle, (o.fill price (o.feeAt p.desk.fees price)).1) ∈ entries .filled
        ([(handle, (o.fill price (o.feeAt p.desk.fees price)).1)] ++ closed) := by
      simp [entries, Order.status_fill hopen]
    exact ⟨_, _, hfilled.settle hmem (o.linked_fill price _)⟩
  | _ => exact ⟨[], [], .refl p [handle] []⟩

/-- A pass over some handles is the sum of the visits, and no order is canceled without a filled one
that it is linked to. -/
theorem tally_foldl_visit (replayed : Bool) (window : List (Trade α)) (p : MatchingPass α)
    (handles : List Nat) :
    ∃ closed missed,
      p.Tally handles [] closed missed (handles.foldl (visit replayed window) p) := by
  induction handles generalizing p with
  | nil => exact ⟨[], [], .refl p [] []⟩
  | cons handle rest ih =>
    obtain ⟨closed, missed, htally⟩ := tally_visit replayed window p handle
    obtain ⟨closed', missed', htally'⟩ := ih (p.visit replayed window handle)
    exact ⟨_, _, htally.trans htally'⟩

end MatchingPass

/-! ## The report of a pass -/

namespace OrderStore

/-- Where the stored ids are distinct, an id belongs to one slot. -/
theorem eq_of_nodup_ids {s : OrderStore α} (h : (s.stored.map (·.order.id)).Nodup) {i j : Nat}
    {a b : Slot α} (ha : s.slots[i]? = some a) (hb : s.slots[j]? = some b)
    (hsa : a.stored = true) (hsb : b.stored = true) (hid : a.order.id = b.order.id) : i = j := by
  rw [List.Nodup, List.pairwise_map, stored, List.pairwise_filter,
    List.pairwise_iff_getElem] at h
  obtain ⟨hi, rfl⟩ := List.getElem?_eq_some_iff.1 ha
  obtain ⟨hj, rfl⟩ := List.getElem?_eq_some_iff.1 hb
  rcases Nat.lt_trichotomy i j with hlt | heq | hlt
  · exact absurd hid (h i j hi hj hlt hsa hsb)
  · exact heq
  · exact absurd hid.symm (h j i hj hi hlt hsb hsa)

/-- The stored open orders of a symbol, in the order of addition. -/
def opened (s : OrderStore α) (symbol : Symbol) : List (Order α) :=
  (s.stored.map (·.order)).filter fun o => o.symbol == symbol && o.isOpen

/-- A pass goes through the open orders of its symbol in the order in which they were added. -/
theorem filterMap_openOrders (s : OrderStore α) (symbol : Symbol) :
    (s.openOrders symbol).filterMap s.at? = s.opened symbol := by
  have hlisted := filterMap_filter_range
    (fun slot : Slot α => slot.stored && slot.order.symbol == symbol && slot.order.isOpen)
    (·.order) s.slots
  have hfilter : s.slots.filter
        (fun slot => slot.stored && slot.order.symbol == symbol && slot.order.isOpen)
      = s.stored.filter fun slot => slot.order.symbol == symbol && slot.order.isOpen := by
    rw [stored, List.filter_filter]
    exact List.filter_congr fun slot _ => by rw [Bool.and_comm _ slot.stored, Bool.and_assoc]
  rw [hfilter] at hlisted
  rw [opened, List.filter_map]
  exact hlisted

/-- A handle that the pass goes through is that of an open order of the symbol. -/
theorem mem_opened {s : OrderStore α} {symbol : Symbol} {handle : Nat} {slot : Slot α}
    (hslot : s.slots[handle]? = some slot) (hhandle : handle ∈ s.openOrders symbol) :
    slot.order ∈ s.opened symbol := by
  rw [← filterMap_openOrders]
  exact List.mem_filterMap.2 ⟨handle, hhandle, at?_eq_some.2 ⟨slot, hslot, rfl⟩⟩

/-- As all ids of a store are distinct, so are those of the open orders of a symbol. -/
theorem nodup_opened {s : OrderStore α} (h : (s.stored.map (·.order.id)).Nodup) (symbol : Symbol) :
    ((s.opened symbol).map (·.id)).Nodup := by
  refine List.Nodup.sublist (List.Sublist.map _ List.filter_sublist) ?_
  rwa [List.map_map]

end OrderStore

/-- The report says of an order what became of it: whether it was filled or canceled, and otherwise
nothing did. In any case its terms and its links are what they were. -/
structure MatchReport.Tells (report : MatchReport) (o o' : Order α) : Prop where
  filled_iff : o.id ∈ report.filled ↔ o.status ≠ .filled ∧ o'.status = .filled
  canceled_iff : o.id ∈ report.canceled ↔ o.status ≠ .canceled ∧ o'.status = .canceled
  eq_of_not_mem : o.id ∉ report.filled → o.id ∉ report.canceled → o' = o
  unsettled_eq : o'.unsettled = o.unsettled

namespace MatchingPass

variable [Amount α] {d : Desk α} {p : MatchingPass α} {symbol : Symbol}
  {closed missed : List (Nat × Order α)}
  (h : ({ desk := d } : MatchingPass α).Tally (d.orders.openOrders symbol) [] closed missed p)
include h

/-- What was closed was stored and open, and had the id that it has. -/
theorem Tally.exists_slot {entry : Nat × Order α} (hentry : entry ∈ closed) :
    ∃ slot, d.orders.slots[entry.1]? = some slot ∧ slot.stored = true ∧
      slot.order.isOpen = true ∧ entry.2.unsettled = slot.order.unsettled := by
  obtain ⟨handle, o⟩ := entry
  obtain ⟨hopen, ho, hclosed⟩ := (h.closes.mem_iff handle o).1 hentry
  obtain ⟨old, hold, hstatus⟩ := OrderStore.status?_eq_some.1 hopen
  obtain ⟨slot, hslot, rfl⟩ := OrderStore.at?_eq_some.1 hold
  refine ⟨slot, hslot, ?_, Order.isOpen_iff.2 hstatus, ?_⟩
  · by_cases hfilled : o.status = .filled
    · have hmem := h.filled_sublist.subset
        (List.mem_map_of_mem (mem_entries.2 ⟨hentry, hfilled⟩))
      obtain ⟨slot', hslot', hstored, -⟩ := OrderStore.mem_openOrders.1 hmem
      obtain rfl := Option.some.inj (hslot'.symm.trans hslot)
      exact hstored
    · have hcanceled : o.status = .canceled := by
        cases hstatus' : o.status with
        | opened => exact absurd hstatus' (Order.isOpen_eq_false.1 hclosed)
        | filled => exact absurd hstatus' hfilled
        | canceled => rfl
      have hstored := h.canceled_stored _ (mem_entries.2 ⟨hentry, hcanceled⟩)
      rw [hslot] at hstored
      exact hstored
  · obtain ⟨slot', hslot', -, -, heq⟩ :=
      OrderStore.exists_slot_of_fixtures h.frame.fixtures_eq hslot
    rw [OrderStore.at?, hslot', Option.map_some, Option.some.injEq] at ho
    rw [← ho, heq]

/-- A stored order got a status in the course of the pass exactly if it was closed with it. -/
theorem Tally.status_iff {handle : Nat} {slot slot' : Slot α}
    (hslot : d.orders.slots[handle]? = some slot)
    (hslot' : p.desk.orders.slots[handle]? = some slot')
    {status : OrderStatus} (hstatus : status ≠ .opened) :
    (∃ o, (handle, o) ∈ entries status closed) ↔
      slot.order.status ≠ status ∧ slot'.order.status = status := by
  have ho : d.orders.at? handle = some slot.order := OrderStore.at?_eq_some.2 ⟨slot, hslot, rfl⟩
  have ho' : p.desk.orders.at? handle = some slot'.order :=
    OrderStore.at?_eq_some.2 ⟨slot', hslot', rfl⟩
  constructor
  · rintro ⟨o, hentry⟩
    obtain ⟨hmem, hstatus'⟩ := mem_entries.1 hentry
    obtain ⟨hopen, hfinal, -⟩ := (h.closes.mem_iff handle o).1 hmem
    obtain rfl := Option.some.inj (hfinal.symm.trans ho')
    rw [OrderStore.status?, ho, Option.map_some, Option.some.injEq] at hopen
    exact ⟨fun heq => hstatus (heq.symm.trans hopen), hstatus'⟩
  · rintro ⟨hne, hnew⟩
    by_cases hmem : handle ∈ closed.map (·.1)
    · obtain ⟨⟨_, o⟩, hentry, rfl⟩ := List.mem_map.1 hmem
      obtain ⟨-, hfinal, -⟩ := (h.closes.mem_iff _ o).1 hentry
      obtain rfl := Option.some.inj (hfinal.symm.trans ho')
      exact ⟨_, mem_entries.2 ⟨hentry, hnew⟩⟩
    · have hsame := h.closes.others handle hmem
      rw [ho, ho', Option.some.injEq] at hsame
      rw [hsame] at hnew
      exact absurd hnew hne

/-- Those that were filled were open orders of the symbol. -/
theorem Tally.exists_opened {entry : Nat × Order α} (hentry : entry ∈ entries .filled closed) :
    ∃ o ∈ d.orders.opened symbol, d.orders.at? entry.1 = some o ∧
      entry.2.unsettled = o.unsettled := by
  obtain ⟨slot, hslot, -, -, heq⟩ := h.exists_slot (mem_entries.1 hentry).1
  have hhandle := h.filled_sublist.subset (List.mem_map_of_mem hentry)
  exact ⟨slot.order, OrderStore.mem_opened hslot hhandle,
    OrderStore.at?_eq_some.2 ⟨slot, hslot, rfl⟩, heq⟩

/-- Filled orders are reported in the order of addition, each of them once. -/
theorem Tally.filled_sublist_ids :
    p.report.filled.Sublist ((d.orders.opened symbol).map (·.id)) := by
  have hids : (entries .filled closed).map (·.2.id)
      = (((entries .filled closed).map (·.1)).filterMap d.orders.at?).map (·.id) := by
    rw [List.filterMap_map, List.map_filterMap, ← List.filterMap_eq_map]
    refine List.filterMap_congr fun entry hentry => ?_
    obtain ⟨o, -, ho, heq⟩ := h.exists_opened hentry
    simp [ho, Order.id_eq_of_unsettled heq]
  rw [h.filled_eq, List.nil_append, hids, ← OrderStore.filterMap_openOrders]
  exact (h.filled_sublist.filterMap _).map _

/-- An order is canceled when an order that it is linked to is filled. -/
theorem Tally.exists_linked {id : String} (hid : id ∈ p.report.canceled) :
    ∃ slot ∈ d.orders.stored, slot.order.id = id ∧ slot.order.isOpen = true ∧
      ∃ o ∈ d.orders.opened symbol, o.id ∈ p.report.filled ∧ id ∈ o.linked := by
  rw [h.canceled_eq, List.nil_append] at hid
  obtain ⟨entry, hentry, rfl⟩ := List.mem_map.1 hid
  obtain ⟨slot, hslot, hstored, hopen, heq⟩ := h.exists_slot (mem_entries.1 hentry).1
  refine ⟨slot, List.mem_filter.2 ⟨List.mem_of_getElem? hslot, hstored⟩,
    (Order.id_eq_of_unsettled heq).symm, hopen, ?_⟩
  rcases h.linked entry hentry with hloose | ⟨filled, hfilled, hlinked⟩
  · simp at hloose
  · obtain ⟨o, ho, -, hsame⟩ := h.exists_opened hfilled
    refine ⟨o, ho, ?_, ?_⟩
    · rw [h.filled_eq, List.nil_append, ← Order.id_eq_of_unsettled hsame]
      exact List.mem_map_of_mem hfilled
    · rwa [show o.linked = filled.2.linked from (congrArg (·.linked) hsame).symm]

/-- An order is missing when the trader of its name does not know its counterpart. -/
theorem Tally.exists_counterpart {id : String} (hid : id ∈ p.report.missing) :
    ∃ o ∈ d.orders.opened symbol, o.id = id ∧ ∃ counterpart, o.exchangeId = some counterpart ∧
      ∀ t, d.trader? o.trader = some t → t.knows counterpart = false := by
  rw [h.missing_eq, List.nil_append] at hid
  obtain ⟨entry, hentry, rfl⟩ := List.mem_map.1 hid
  obtain ⟨ho, -, hmissing⟩ := h.missed_spec entry hentry
  obtain ⟨slot, hslot, horder⟩ := OrderStore.at?_eq_some.1 ho
  have hhandle := h.missed_sublist.subset (List.mem_map_of_mem hentry)
  refine ⟨entry.2, horder ▸ OrderStore.mem_opened hslot hhandle, rfl, ?_⟩
  unfold Desk.isMissing at hmissing
  cases hcounterpart : entry.2.exchangeId with
  | none => simp [hcounterpart] at hmissing
  | some counterpart =>
    refine ⟨counterpart, rfl, fun t ht => ?_⟩
    simpa [hcounterpart, ht] using hmissing

variable (hdistinct : (d.orders.stored.map (·.order.id)).Nodup)
include hdistinct

/-- The id of a stored order is among those of some entries exactly if the order is. -/
theorem Tally.mem_ids_iff {handle : Nat} {slot : Slot α}
    (hslot : d.orders.slots[handle]? = some slot) (hstored : slot.stored = true)
    (status : OrderStatus) :
    slot.order.id ∈ (entries status closed).map (·.2.id) ↔
      ∃ o, (handle, o) ∈ entries status closed := by
  constructor
  · intro hid
    obtain ⟨⟨handle', o⟩, hentry, hid⟩ := List.mem_map.1 hid
    obtain ⟨slot', hslot', hstored', -, heq⟩ := h.exists_slot (mem_entries.1 hentry).1
    have hsame : slot'.order.id = slot.order.id :=
      (Order.id_eq_of_unsettled heq).symm.trans hid
    obtain rfl := OrderStore.eq_of_nodup_ids hdistinct hslot' hslot hstored' hstored hsame
    exact ⟨o, hentry⟩
  · rintro ⟨o, hentry⟩
    obtain ⟨slot', hslot', -, -, heq⟩ := h.exists_slot (mem_entries.1 hentry).1
    obtain rfl := Option.some.inj (hslot'.symm.trans hslot)
    exact List.mem_map.2 ⟨_, hentry, Order.id_eq_of_unsettled heq⟩

/-- The report says of every stored order what became of it. -/
theorem Tally.tells {handle : Nat} {slot slot' : Slot α}
    (hslot : d.orders.slots[handle]? = some slot) (hstored : slot.stored = true)
    (hslot' : p.desk.orders.slots[handle]? = some slot') :
    p.report.Tells slot.order slot'.order := by
  have hfilled : slot.order.id ∈ p.report.filled ↔ ∃ o, (handle, o) ∈ entries .filled closed := by
    rw [h.filled_eq, List.nil_append, h.mem_ids_iff hdistinct hslot hstored]
  have hcanceled : slot.order.id ∈ p.report.canceled ↔
      ∃ o, (handle, o) ∈ entries .canceled closed := by
    rw [h.canceled_eq, List.nil_append, h.mem_ids_iff hdistinct hslot hstored]
  refine ⟨hfilled.trans (h.status_iff hslot hslot' (by decide)),
    hcanceled.trans (h.status_iff hslot hslot' (by decide)), fun hnot hnot' => ?_, ?_⟩
  · rw [hfilled] at hnot
    rw [hcanceled] at hnot'
    have hothers := h.closes.others handle fun hmem => by
      obtain ⟨⟨_, o⟩, hentry, rfl⟩ := List.mem_map.1 hmem
      have hclosed := ((h.closes.mem_iff _ o).1 hentry).2.2
      cases hstatus : o.status with
      | opened => exact Order.isOpen_eq_false.1 hclosed hstatus
      | filled => exact hnot ⟨o, mem_entries.2 ⟨hentry, hstatus⟩⟩
      | canceled => exact hnot' ⟨o, mem_entries.2 ⟨hentry, hstatus⟩⟩
    simpa [OrderStore.at?, hslot, hslot'] using hothers
  · obtain ⟨slot'', hslot'', -, -, heq⟩ :=
      OrderStore.exists_slot_of_fixtures h.frame.fixtures_eq hslot
    obtain rfl := Option.some.inj (hslot''.symm.trans hslot')
    exact heq

/-- What was filled was not canceled: an order is closed once. -/
theorem Tally.disjoint_canceled : p.report.filled.Disjoint p.report.canceled := by
  rw [h.filled_eq, h.canceled_eq, List.nil_append, List.nil_append]
  intro id hfilled hcanceled
  obtain ⟨⟨handle, o⟩, hentry, rfl⟩ := List.mem_map.1 hfilled
  obtain ⟨slot, hslot, hstored, -, heq⟩ := h.exists_slot (mem_entries.1 hentry).1
  rw [Order.id_eq_of_unsettled heq, h.mem_ids_iff hdistinct hslot hstored] at hcanceled
  obtain ⟨o', hentry'⟩ := hcanceled
  obtain ⟨hmem, hstatus⟩ := mem_entries.1 hentry
  obtain ⟨hmem', hstatus'⟩ := mem_entries.1 hentry'
  have ho := ((h.closes.mem_iff handle o).1 hmem).2.1
  have ho' := ((h.closes.mem_iff handle o').1 hmem').2.1
  obtain rfl := Option.some.inj (ho.symm.trans ho')
  exact OrderStatus.noConfusion (hstatus.symm.trans hstatus')

/-- What was filled was not missing: an order has one turn. -/
theorem Tally.disjoint_missing : p.report.filled.Disjoint p.report.missing := by
  rw [h.filled_eq, h.missing_eq, List.nil_append, List.nil_append]
  intro id hfilled hmissing
  obtain ⟨⟨handle, o⟩, hmissed, rfl⟩ := List.mem_map.1 hmissing
  obtain ⟨slot, hslot, horder⟩ := OrderStore.at?_eq_some.1 (h.missed_spec _ hmissed).1
  have hhandle := h.missed_sublist.subset (List.mem_map_of_mem hmissed)
  obtain ⟨slot', hslot', hstored, -⟩ := OrderStore.mem_openOrders.1 hhandle
  obtain rfl := Option.some.inj (hslot'.symm.trans hslot)
  rw [← horder, h.mem_ids_iff hdistinct hslot hstored] at hfilled
  obtain ⟨o', hentry⟩ := hfilled
  have hnodup : (d.orders.openOrders symbol).Nodup :=
    (OrderStore.pairwise_openOrders d.orders symbol).imp Nat.ne_of_lt
  exact h.apart hnodup _ hmissed (List.mem_map.2 ⟨_, hentry, rfl⟩)

end MatchingPass

namespace Desk

variable {σ : Type} [Exchange σ α] [Amount α]

/-- Whatever is matched, it is a pass over the open orders of the symbol, or nothing. -/
theorem exists_tally (d : Desk α) (m : Market α) (ex : σ) (symbol : Symbol) (replayed : Bool) :
    ∃ (p : MatchingPass α) (closed missed : List (Nat × Order α)),
      ({ desk := d } : MatchingPass α).Tally (d.orders.openOrders symbol) [] closed missed p ∧
      (d.matchSymbol m ex symbol replayed).1.1.orders = p.desk.orders ∧
      (d.matchSymbol m ex symbol replayed).1.2 = p.report := by
  unfold matchSymbol
  cases d.window? m symbol with
  | none => exact ⟨_, [], [], .refl _ _ _, rfl, rfl⟩
  | some window =>
    obtain ⟨closed, missed, htally⟩ := MatchingPass.tally_foldl_visit replayed window { desk := d }
      (d.orders.openOrders symbol)
    exact ⟨_, closed, missed, htally, orders_refreshTraders _ ex _, rfl⟩

/-- Where the stored ids are distinct, the report of a matching pass says exactly what it did. It
tells of every stored order whether it was filled or canceled; nothing else changes, and no order is
added or given up. It lists

* the filled orders in the order of addition, each once: orders of the symbol that were open, and
  that were neither canceled nor missing;
* canceled orders that were stored and open, each linked to an order that was filled;
* missing orders: open orders of the symbol with a counterpart on the exchange that the trader of
  their name does not know, if there is one.

Without recent trades, and for the wildcard, nothing happens and the report is empty. -/
theorem matchSymbol_reports (d : Desk α) (m : Market α) (ex : σ) (symbol : Symbol)
    (replayed : Bool) (hdistinct : (d.orders.stored.map (·.order.id)).Nodup) :
    let matched := d.matchSymbol m ex symbol replayed
    let slots := matched.1.1.orders.slots
    let report := matched.1.2
    slots.length = d.orders.slots.length ∧
    (∀ (handle : Nat) (slot slot' : Slot α), d.orders.slots[handle]? = some slot →
      slots[handle]? = some slot' → slot'.stored = slot.stored ∧ slot'.held = slot.held ∧
        (slot.stored = true → report.Tells slot.order slot'.order) ∧
        (slot.stored = false → slot'.order = slot.order)) ∧
    report.filled.Sublist ((d.orders.opened symbol).map (·.id)) ∧ report.filled.Nodup ∧
    report.filled.Disjoint report.canceled ∧ report.filled.Disjoint report.missing ∧
    (∀ id ∈ report.canceled, ∃ slot ∈ d.orders.stored, slot.order.id = id ∧
      slot.order.isOpen = true ∧
      ∃ o ∈ d.orders.opened symbol, o.id ∈ report.filled ∧ id ∈ o.linked) ∧
    (∀ id ∈ report.missing, ∃ o ∈ d.orders.opened symbol, o.id = id ∧ ∃ counterpart,
      o.exchangeId = some counterpart ∧
        ∀ t, d.trader? o.trader = some t → t.knows counterpart = false) ∧
    (m.recentTrades symbol d.windowSize = [] ∨ symbol = Symbol.wildcard →
      matched = ((d, {}), ex)) := by
  intro matched slots report
  obtain ⟨p, closed, missed, h, horders, hreport⟩ := d.exists_tally m ex symbol replayed
  have hslots : slots = p.desk.orders.slots := congrArg (·.slots) horders
  rw [show report = p.report from hreport, hslots]
  refine ⟨?_, fun handle slot slot' hslot hslot' => ?_, h.filled_sublist_ids,
    (OrderStore.nodup_opened hdistinct symbol).sublist h.filled_sublist_ids,
    h.disjoint_canceled hdistinct, h.disjoint_missing hdistinct, fun id => h.exists_linked,
    fun id => h.exists_counterpart, fun hnone => ?_⟩
  · exact OrderStore.length_eq_of_fixtures h.frame.fixtures_eq
  · obtain ⟨slot'', hslot'', hstored, hheld, -⟩ :=
      OrderStore.exists_slot_of_fixtures h.frame.fixtures_eq hslot
    obtain rfl := Option.some.inj (hslot''.symm.trans hslot')
    refine ⟨hstored, hheld, fun hstored => h.tells hdistinct hslot hstored hslot', fun hgone => ?_⟩
    -- only stored orders are closed
    have hothers := h.closes.others handle fun hmem => by
      obtain ⟨entry, hentry, rfl⟩ := List.mem_map.1 hmem
      obtain ⟨old, hold, hstored', -⟩ := h.exists_slot hentry
      obtain rfl := Option.some.inj (hold.symm.trans hslot)
      exact Bool.false_ne_true (hgone.symm.trans hstored')
    simpa [OrderStore.at?, hslot, hslot'] using hothers
  · show d.matchSymbol m ex symbol replayed = _
    rw [matchSymbol, window?_eq_none.2 hnone]

end Desk

/-! ## A bracket and a stray order -/

/-- A bracket, and an order whose counterpart on the exchange nobody knows. -/
def strayEvents : List (FloorEvent (ScriptedExchange ℚ) ℚ) :=
  [.add (.new "target" "BTC/USDT" .sellLimit 110 1 "sim" 0),
    .add (.new "stop" "BTC/USDT" .stopLoss 90 1 "sim" 0), .link "target" "stop",
    .add { (.new "stray" "BTC/USDT" .sellMarket 0 1 "sim" 0 : Order ℚ) with
      exchangeId := some "x" },
    .trades "BTC/USDT" [⟨115, 1, 5⟩]]

/-- The target is filled, the stop canceled, and the stray order missing. -/
theorem Desk.matchSymbol_reports_stray :
    let f := Floor.bracketFloor.run strayEvents
    let matched := f.desk.matchSymbol f.market f.exchange "BTC/USDT" false
    (f.desk.orders.stored.map (·.order.id)).Nodup ∧
      matched.1.2 = ⟨["target"], ["stop"], ["stray"]⟩ ∧
      ∀ (handle : Nat) (slot slot' : Slot ℚ), f.desk.orders.slots[handle]? = some slot →
        matched.1.1.orders.slots[handle]? = some slot' → slot.stored = true →
        MatchReport.Tells ⟨["target"], ["stop"], ["stray"]⟩ slot.order slot'.order := by
  intro f matched
  have hdistinct : (f.desk.orders.stored.map (·.order.id)).Nodup := by decide +kernel
  have hreport : matched.1.2 = ⟨["target"], ["stop"], ["stray"]⟩ := by decide +kernel
  -- the rest holds of any floor with this report
  clear_value f
  obtain ⟨-, htells, -⟩ :=
    Desk.matchSymbol_reports f.desk f.market f.exchange "BTC/USDT" false hdistinct
  refine ⟨hdistinct, hreport, fun handle slot slot' hslot hslot' hstored => ?_⟩
  rw [← hreport]
  exact (htells handle slot slot' hslot hslot').2.2.1 hstored

end MarketEngine
