import MarketEngine.Trading.SuspendedPass
import MarketEngine.Proofs.Trading.OrderHistory
/-!
# A bounded store

A store answers a new order in one of four ways (`OrderStore.add_spec`): the id is taken, it is full
of open orders, it has room, or it gives up its oldest closed order. Whatever is added, linked,
filled and canceled, it stays within its capacity and keeps every open order
(`OrderStore.run_bounded`).
-/

namespace MarketEngine

variable {α : Type}

/-- What can be done with a store and with the handles it gave out. -/
inductive StoreEvent (α : Type) where
  | add (o : Order α)
  | link (first second : String)
  | fill (handle : Nat) (price : α) (fee : Fee α)
  | cancel (handle : Nat)

namespace OrderStore

/-- An order that is refused, or a link to an order that is not stored, changes nothing. -/
def step (s : OrderStore α) : StoreEvent α → OrderStore α
  | .add o =>
    match s.add o with
    | .ok s' => s'
    | .error _ => s
  | .link first second =>
    match s.link first second with
    | .ok s' => s'
    | .error _ => s
  | .fill handle price fee => s.modify handle fun o => (o.fill price fee).1
  | .cancel handle => s.modify handle (·.cancel.1)

def run (s : OrderStore α) (events : List (StoreEvent α)) : OrderStore α := events.foldl step s

/-- The order that a store accepts in an event, if it does. -/
def accepts (s : OrderStore α) : StoreEvent α → Option (Order α)
  | .add o =>
    match s.add o with
    | .ok _ => some o
    | .error _ => none
  | _ => none

/-- The orders that are accepted in the course of a run, the earliest first. -/
def accepted (s : OrderStore α) : List (StoreEvent α) → List (Order α)
  | [] => []
  | e :: events => (s.accepts e).toList ++ (s.step e).accepted events

/-! ## The answer to a new order -/

/-- The stored orders are those whose slots are marked so. -/
theorem mem_stored {s : OrderStore α} {slot : Slot α} :
    slot ∈ s.stored ↔ slot ∈ s.slots ∧ slot.stored = true :=
  List.mem_filter

/-- The size of a store counts its marked slots. -/
theorem size_eq (s : OrderStore α) : s.size = s.slots.countP (·.stored) :=
  List.countP_eq_length_filter.symm

/-- An id leads to a handle if a stored order has it. -/
theorem isSome_handle? {s : OrderStore α} {id : String} :
    (s.handle? id).isSome ↔ ∃ slot ∈ s.stored, slot.order.id = id := by
  simp [handle?, List.findIdx?_isSome, mem_stored, and_assoc]

/-- What a store may answer to an order. -/
inductive Answer (s : OrderStore α) (o : Order α) : Except (EngineError α) (OrderStore α) → Prop
  | duplicate (htaken : ∃ slot ∈ s.stored, slot.order.id = o.id) :
    Answer s o (.error (.orderStored o.id))
  | full (hfree : ∀ slot ∈ s.stored, slot.order.id ≠ o.id) (hfull : s.capacity ≤ s.size)
      (hopen : ∀ slot ∈ s.stored, slot.isClosed = false) :
    Answer s o (.error (.ordersFull s.capacity))
  | room (hfree : ∀ slot ∈ s.stored, slot.order.id ≠ o.id) (hroom : s.size < s.capacity) :
    Answer s o (.ok { s with slots := s.slots ++ [{ order := o }] })
  | evicting (hfree : ∀ slot ∈ s.stored, slot.order.id ≠ o.id) (hfull : s.capacity ≤ s.size)
      {before after : List (Slot α)} {oldest : Slot α}
      (hslots : s.slots = before ++ oldest :: after)
      (hbefore : ∀ slot ∈ before, slot.stored = true → slot.isClosed = false)
      (hstored : oldest.stored = true) (hclosed : oldest.isClosed = true) :
    Answer s o
      (.ok { s with
        slots := before ++ { oldest with stored := false } :: after ++ [{ order := o }] })

/-- The id is looked at first, then the room, and then the oldest closed order. -/
theorem add_spec (s : OrderStore α) (o : Order α) : s.Answer o (s.add o) := by
  unfold add
  by_cases htaken : (s.handle? o.id).isSome
  · rw [if_pos htaken]
    exact .duplicate (isSome_handle?.1 htaken)
  rw [if_neg htaken]
  have hfree : ∀ slot ∈ s.stored, slot.order.id ≠ o.id :=
    fun slot hslot hid => htaken (isSome_handle?.2 ⟨slot, hslot, hid⟩)
  by_cases hroom : s.size < s.capacity
  · rw [if_pos hroom]
    exact .room hfree hroom
  rw [if_neg hroom]
  have hfull : s.capacity ≤ s.size := Nat.le_of_not_lt hroom
  cases hfound : s.slots.findIdx? fun slot => slot.stored && slot.isClosed with
  | none =>
    simp only [evict?, hfound, Option.map_none]
    refine .full hfree hfull fun slot hslot => ?_
    obtain ⟨hmem, hstored⟩ := mem_stored.1 hslot
    simpa [hstored] using List.findIdx?_eq_none_iff.1 hfound slot hmem
  | some i =>
    obtain ⟨before, oldest, after, hslots, hmodify, hbefore, holdest⟩ :=
      modify_findIdx? hfound fun slot : Slot α => { slot with stored := false }
    rw [Bool.and_eq_true] at holdest
    simp only [evict?, hfound, Option.map_some, hmodify]
    refine .evicting hfree hfull hslots ?_ holdest.1 holdest.2
    intro slot hslot hstored
    simpa [hstored] using hbefore slot hslot

/-! ## What an event does -/

/-- What an event may come to: the order it adds, if it adds one, and the store after it. -/
inductive Stepped (s : OrderStore α) : Option (Order α) → OrderStore α → Prop
  | refused : Stepped s none s
  | added {o : Order α} {s' : OrderStore α} (hadd : s.add o = .ok s') : Stepped s (some o) s'
  | linked {first second : String} {s' : OrderStore α} (hlink : s.link first second = .ok s') :
    Stepped s none s'
  | aged (handle : Nat) {f : Order α → Order α} (hf : ∀ o : Order α, o.Ages (f o)) :
    Stepped s none (s.modify handle f)

/-- Every event adds an order, links two, lets one age, or is refused. -/
theorem step_spec (s : OrderStore α) (e : StoreEvent α) : s.Stepped (s.accepts e) (s.step e) := by
  cases e with
  | add o =>
    simp only [accepts, step]
    cases hadd : s.add o with
    | error _ => exact .refused
    | ok s' => exact .added hadd
  | link first second =>
    simp only [accepts, step]
    cases hlink : s.link first second with
    | error _ => exact .refused
    | ok s' => exact .linked hlink
  | fill handle price fee => exact .aged handle (Order.ages_fill · price fee)
  | cancel handle => exact .aged handle Order.ages_cancel

/-! ## The invariant -/

/-- The store is within its capacity, and nobody holds an order of it. -/
structure Bounded (s : OrderStore α) : Prop where
  sound : s.Sound
  free : s.isFree = true
  size_le : s.size ≤ s.capacity

/-- An empty store is within its capacity. -/
theorem bounded_empty (most : Nat) : (empty most : OrderStore α).Bounded :=
  ⟨sound_empty most, rfl, Nat.zero_le _⟩

/-- While nobody holds an order, those that are not open may be given up. -/
theorem Bounded.isClosed_eq {s : OrderStore α} (hs : s.Bounded) {slot : Slot α}
    (hslot : slot ∈ s.slots) : slot.isClosed = !slot.order.isOpen := by
  have hheld : slot.held = false := by simpa using List.all_eq_true.1 hs.free slot hslot
  simp [Slot.isClosed, hheld]

/-- Orders that age take no more room. -/
theorem Bounded.modify {s : OrderStore α} (hs : s.Bounded) (handle : Nat) {f : Order α → Order α}
    (hf : ∀ o : Order α, o.Ages (f o)) : (s.modify handle f).Bounded where
  sound := hs.sound.modify handle hf
  free := isFree_modify hs.free handle f
  size_le := by
    have hsize : (s.modify handle f).size = s.size := by
      rw [size_eq, size_eq]
      exact countP_modify (p := (·.stored)) (f := fun slot => { slot with order := f slot.order })
        (fun _ => rfl) s.slots handle
    rw [hsize]
    exact hs.size_le

/-- Links take no room. -/
theorem Bounded.link {s s' : OrderStore α} (hs : s.Bounded) {first second : String}
    (h : s.link first second = .ok s') : s'.Bounded := by
  obtain ⟨a, b, -, -, rfl⟩ := link_eq_ok h
  exact (hs.modify a (Order.ages_link · second)).modify b (Order.ages_link · first)

/-- A new order takes the room that there is, or that of a closed order. -/
theorem Bounded.add {s s' : OrderStore α} (hs : s.Bounded) {o : Order α} (h : s.add o = .ok s') :
    s'.Bounded := by
  have hle := hs.size_le
  have hfree := List.all_eq_true.1 hs.free
  have hanswer := s.add_spec o
  rw [h] at hanswer
  refine ⟨hs.sound.add h, List.all_eq_true.2 ?_, ?_⟩
  · intro slot hslot
    cases hanswer with
    | room =>
      rcases List.mem_append.1 hslot with hslot | hslot
      · exact hfree slot hslot
      · rw [List.mem_singleton.1 hslot]
        rfl
    | @evicting _ _ before after oldest hslots =>
      rw [hslots] at hfree
      simp only [List.append_assoc, List.cons_append, List.mem_append, List.mem_cons,
        List.not_mem_nil, or_false] at hslot
      rcases hslot with hslot | rfl | hslot | rfl
      · exact hfree slot (by simp [hslot])
      · exact hfree oldest (by simp)
      · exact hfree slot (by simp [hslot])
      · rfl
  · rw [size_eq] at hle ⊢
    cases hanswer with
    | room _ hroom =>
      rw [size_eq] at hroom
      simp only [List.countP_append, List.countP_singleton, if_true]
      omega
    | evicting _ _ hslots _ hstored _ =>
      -- one order less and one more
      rw [hslots] at hle
      simp only [List.countP_append, List.countP_cons, List.countP_nil, hstored, if_true,
        Bool.false_eq_true, if_false] at hle ⊢
      omega

/-- Whatever an event comes to, the store stays within its capacity. -/
theorem Bounded.stepped {s s' : OrderStore α} (hs : s.Bounded) {new : Option (Order α)}
    (h : s.Stepped new s') : s'.Bounded := by
  cases h with
  | refused => exact hs
  | added hadd => exact hs.add hadd
  | linked hlink => exact hs.link hlink
  | aged handle hf => exact hs.modify handle hf

/-- In every state of every run the store is within its capacity. -/
theorem Bounded.run {s : OrderStore α} (hs : s.Bounded) (events : List (StoreEvent α)) :
    (s.run events).Bounded := by
  induction events generalizing s with
  | nil => exact hs
  | cons e events ih => exact ih (hs.stepped (s.step_spec e))

/-! ## The accepted orders -/

/-- No event changes the capacity. -/
theorem Stepped.capacity_eq {s s' : OrderStore α} {new : Option (Order α)} (h : s.Stepped new s') :
    s'.capacity = s.capacity := by
  cases h with
  | refused | aged => rfl
  | @added o _ hadd =>
    have hanswer := s.add_spec o
    rw [hadd] at hanswer
    cases hanswer <;> rfl
  | linked hlink =>
    obtain ⟨a, b, -, -, rfl⟩ := link_eq_ok hlink
    rfl

/-- No run changes the capacity. -/
theorem capacity_run (s : OrderStore α) (events : List (StoreEvent α)) :
    (s.run events).capacity = s.capacity := by
  induction events generalizing s with
  | nil => rfl
  | cons e events ih => exact (ih (s.step e)).trans (s.step_spec e).capacity_eq

/-- What the accepted orders were placed with, the earliest first. -/
def placed (s : OrderStore α) : List (Order α) := s.slots.map (·.order.terms)

/-- Orders that age keep the terms they were placed with. -/
theorem placed_modify (s : OrderStore α) (handle : Nat) {f : Order α → Order α}
    (hf : ∀ o : Order α, o.Ages (f o)) : (s.modify handle f).placed = s.placed :=
  map_modify (g := fun slot : Slot α => slot.order.terms) (fun slot => (hf slot.order).terms_eq)
    s.slots handle

/-- A new order comes last. -/
theorem placed_add {s s' : OrderStore α} {o : Order α} (h : s.add o = .ok s') :
    s'.placed = s.placed ++ [o.terms] := by
  have hanswer := s.add_spec o
  rw [h] at hanswer
  cases hanswer with
  | room => simp [placed]
  | evicting _ _ hslots => simp [placed, hslots]

/-- An event adds the order that it has accepted. -/
theorem Stepped.placed_eq {s s' : OrderStore α} {new : Option (Order α)} (h : s.Stepped new s') :
    s'.placed = s.placed ++ new.toList.map Order.terms := by
  cases h with
  | refused => simp
  | added hadd => simpa using placed_add hadd
  | linked hlink =>
    obtain ⟨a, b, -, -, rfl⟩ := link_eq_ok hlink
    rw [placed_modify _ b (Order.ages_link · _), placed_modify _ a (Order.ages_link · _)]
    simp
  | aged handle hf => simpa using s.placed_modify handle hf

/-- The orders of a store are those it held and those it has accepted since, in this order. -/
theorem placed_run (s : OrderStore α) (events : List (StoreEvent α)) :
    (s.run events).placed = s.placed ++ (s.accepted events).map Order.terms := by
  induction events generalizing s with
  | nil => simp [run, accepted]
  | cons e events ih =>
    calc ((s.step e).run events).placed
        = (s.step e).placed ++ ((s.step e).accepted events).map Order.terms := ih (s.step e)
      _ = s.placed ++ (s.accepted (e :: events)).map Order.terms := by
        rw [(s.step_spec e).placed_eq, accepted, List.map_append, List.append_assoc]

/-! ## What is stored -/

/-- No two stored orders have the same id. -/
theorem Sound.nodup_ids {s : OrderStore α} (hs : s.Sound) :
    (s.stored.map (·.order.id)).Nodup := by
  rw [List.Nodup, List.pairwise_map, stored, List.pairwise_filter, List.pairwise_iff_getElem]
  intro i j hi hj hlt hstored hstored' hid
  have heq := hs.distinct (List.getElem?_eq_getElem hi) (List.getElem?_eq_getElem hj)
    hstored hstored' hid
  omega

/-- The stored open orders of a symbol are listed. -/
theorem mem_openOrders {s : OrderStore α} {symbol : Symbol} {handle : Nat} :
    handle ∈ s.openOrders symbol ↔ ∃ slot, s.slots[handle]? = some slot ∧ slot.stored = true ∧
      slot.order.symbol = symbol ∧ slot.order.isOpen = true := by
  rw [openOrders, handlesOf, List.mem_filter, List.mem_range]
  constructor
  · rintro ⟨-, hlisted⟩
    obtain ⟨slot, hslot, hp⟩ := (Option.any_eq_true _ _).1 hlisted
    simp only [Bool.and_eq_true, beq_iff_eq] at hp
    exact ⟨slot, hslot, hp.1.1, hp.1.2, hp.2⟩
  · rintro ⟨slot, hslot, hstored, hsymbol, hopen⟩
    refine ⟨(List.getElem?_eq_some_iff.1 hslot).1, (Option.any_eq_true _ _).2 ⟨slot, hslot, ?_⟩⟩
    simp [hstored, hsymbol, hopen]

/-- In a sound store every open order of a symbol is listed: all of them are stored. -/
theorem Sound.mem_openOrders {s : OrderStore α} (hs : s.Sound) {symbol : Symbol} {handle : Nat} :
    handle ∈ s.openOrders symbol ↔
      ∃ o, s.at? handle = some o ∧ o.isOpen = true ∧ o.symbol = symbol := by
  rw [OrderStore.mem_openOrders]
  constructor
  · rintro ⟨slot, hslot, -, hsymbol, hopen⟩
    exact ⟨slot.order, at?_eq_some.2 ⟨slot, hslot, rfl⟩, hopen, hsymbol⟩
  · rintro ⟨o, ho, hopen, hsymbol⟩
    obtain ⟨slot, hslot, rfl⟩ := at?_eq_some.1 ho
    exact ⟨slot, hslot, hs.stored_of_isOpen hslot hopen, hsymbol, hopen⟩

/-- Open orders are listed in the order in which they were added. -/
theorem pairwise_openOrders (s : OrderStore α) (symbol : Symbol) :
    (s.openOrders symbol).Pairwise (· < ·) :=
  List.pairwise_lt_range.filter _

/-- A store accepts an order behind the others, and gives one up only when it is full. -/
theorem Bounded.stored_add {s s' : OrderStore α} (hs : s.Bounded) {o : Order α}
    (h : s.add o = .ok s') :
    s.size < s.capacity ∧ s'.stored = s.stored ++ [{ order := o }] ∨
    s.size = s.capacity ∧ ∃ before oldest after,
      s.stored = before ++ oldest :: after ∧ s'.stored = before ++ after ++ [{ order := o }] ∧
      (∀ slot ∈ before, slot.order.isOpen = true) ∧ oldest.order.isOpen = false := by
  have hanswer := s.add_spec o
  rw [h] at hanswer
  cases hanswer with
  | room _ hroom => exact .inl ⟨hroom, by simp [stored]⟩
  | @evicting _ hfull before after oldest hslots hbefore hstored hclosed =>
    refine .inr ⟨Nat.le_antisymm hs.size_le hfull, before.filter (·.stored), oldest,
      after.filter (·.stored), ?_, ?_, ?_, ?_⟩
    · simp [stored, hslots, hstored]
    · simp [stored]
    · intro slot hslot
      obtain ⟨hmem, hstored⟩ := List.mem_filter.1 hslot
      have hopen := hbefore slot hmem hstored
      rw [hs.isClosed_eq (by simp [hslots, hmem])] at hopen
      simpa using hopen
    · rw [hs.isClosed_eq (by simp [hslots])] at hclosed
      simpa using hclosed

/-- An order is refused as stored if and only if a stored order has its id. -/
theorem add_eq_orderStored {s : OrderStore α} {o : Order α} :
    s.add o = .error (.orderStored o.id) ↔ ∃ slot ∈ s.stored, slot.order.id = o.id := by
  constructor
  · intro h
    have hanswer := s.add_spec o
    rw [h] at hanswer
    cases hanswer with
    | duplicate htaken => exact htaken
  · rintro ⟨slot, hslot, hid⟩
    have hanswer := s.add_spec o
    generalize s.add o = answer at hanswer ⊢
    cases hanswer with
    | duplicate => rfl
    | full hfree | room hfree | evicting hfree => exact absurd hid (hfree slot hslot)

/-- An order is refused for lack of room if and only if its id is free, the store is full and all of
it is open. -/
theorem Bounded.add_eq_ordersFull {s : OrderStore α} (hs : s.Bounded) {o : Order α} :
    s.add o = .error (.ordersFull s.capacity) ↔
      (∀ slot ∈ s.stored, slot.order.id ≠ o.id) ∧ s.size = s.capacity ∧
      ∀ slot ∈ s.stored, slot.order.isOpen = true := by
  constructor
  · intro h
    have hanswer := s.add_spec o
    rw [h] at hanswer
    cases hanswer with
    | full hfree hfull hopen =>
      refine ⟨hfree, Nat.le_antisymm hs.size_le hfull, fun slot hslot => ?_⟩
      simpa [hs.isClosed_eq (mem_stored.1 hslot).1] using hopen slot hslot
  · rintro ⟨hfree, hfull, hopen⟩
    have hanswer := s.add_spec o
    generalize s.add o = answer at hanswer ⊢
    cases hanswer with
    | duplicate htaken =>
      obtain ⟨slot, hslot, hid⟩ := htaken
      exact absurd hid (hfree slot hslot)
    | full => rfl
    | room _ hroom => omega
    | @evicting _ _ before after oldest hslots _ hstored hclosed =>
      have hmem : oldest ∈ s.slots := by simp [hslots]
      rw [hs.isClosed_eq hmem, hopen oldest (mem_stored.2 ⟨hmem, hstored⟩)] at hclosed
      simp at hclosed

/-- A store that was filled from the start: in all that is added to it, linked in it and done with
the handles it gave out, it stores at most as many orders as it may, under distinct ids and in the
order in which they were accepted, and lists every order that is still open once. It refuses an
order whose id is stored, and one for which there is no room as all stored orders are open; in
either case it stays as it is. Any other order it accepts, and when it is full it gives up the
earliest order that is not open. -/
theorem run_bounded (most : Nat) (events : List (StoreEvent α)) :
    let s := (empty most).run events
    s.placed = ((empty most).accepted events).map Order.terms ∧
    s.size ≤ max most 1 ∧
    (s.stored.map (·.order.id)).Nodup ∧
    (∀ slot ∈ s.slots, slot.order.isOpen = true → slot ∈ s.stored) ∧
    (∀ symbol, (s.openOrders symbol).Pairwise (· < ·) ∧ ∀ handle,
      handle ∈ s.openOrders symbol ↔
        ∃ o, s.at? handle = some o ∧ o.isOpen = true ∧ o.symbol = symbol) ∧
    ∀ o : Order α,
      (s.add o = .error (.orderStored o.id) ↔ ∃ slot ∈ s.stored, slot.order.id = o.id) ∧
      (s.add o = .error (.ordersFull (max most 1)) ↔
        (∀ slot ∈ s.stored, slot.order.id ≠ o.id) ∧ s.size = max most 1 ∧
        ∀ slot ∈ s.stored, slot.order.isOpen = true) ∧
      (∀ e, s.add o = .error e → (e = .orderStored o.id ∨ e = .ordersFull (max most 1)) ∧
        s.step (.add o) = s) ∧
      ∀ s', s.add o = .ok s' → s.step (.add o) = s' ∧
        (s.size < max most 1 ∧ s'.stored = s.stored ++ [{ order := o }] ∨
         s.size = max most 1 ∧ ∃ before oldest after,
           s.stored = before ++ oldest :: after ∧
           s'.stored = before ++ after ++ [{ order := o }] ∧
           (∀ slot ∈ before, slot.order.isOpen = true) ∧ oldest.order.isOpen = false) := by
  intro s
  -- all but the order of addition is said by the invariant
  have hs : s.Bounded := (bounded_empty most).run events
  have hcapacity : s.capacity = max most 1 := (empty most).capacity_run events
  rw [← hcapacity]
  refine ⟨?_, hs.size_le, hs.sound.nodup_ids, ?_, ?_, fun o => ⟨add_eq_orderStored,
    hs.add_eq_ordersFull, ?_, ?_⟩⟩
  · exact (empty most).placed_run events
  · intro slot hslot hopen
    obtain ⟨i, hi⟩ := List.mem_iff_getElem?.1 hslot
    exact mem_stored.2 ⟨hslot, hs.sound.stored_of_isOpen hi hopen⟩
  · exact fun symbol => ⟨s.pairwise_openOrders symbol, fun _ => hs.sound.mem_openOrders⟩
  · intro e he
    refine ⟨?_, by simp [step, he]⟩
    have hanswer := s.add_spec o
    rw [he] at hanswer
    cases hanswer with
    | duplicate => exact .inl rfl
    | full => exact .inr rfl
  · exact fun s' hadd => ⟨by simp [step, hadd], hs.stored_add hadd⟩

end OrderStore

end MarketEngine
