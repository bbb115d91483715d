import MarketEngine.Trading.OrderStore
import MarketEngine.Proofs.Lists
import Mathlib.Data.List.Basic
/-!
# Orders in the course of time

An order keeps the terms it was placed with, and once it is closed nothing of it changes but its
links (`Order.Ages`). A store keeps distinct ids and every open order (`OrderStore.Sound`); so the
id of a stored order leads to its handle (`OrderStore.Sound.handle?_eq`). Every operation on a store
keeps both facts, and lets the orders that were there only age.
-/

namespace MarketEngine

variable {α : Type}

/-! ## One order -/

namespace Order

/-- What the order was placed with. -/
def terms (o : Order α) : Order α :=
  { o with
    linked := [], status := .opened, filledPrice := none, filledQuantity := o.quantity
    fee := none }

/-- The order without its links. -/
def record (o : Order α) : Order α := { o with linked := [] }

/-- An order may become another: the terms and the links stay, and once it is closed only links are
added. -/
structure Ages (o o' : Order α) : Prop where
  terms_eq : o'.terms = o.terms
  record_eq : o.isOpen = false → o'.record = o.record
  linked_subset : o.linked ⊆ o'.linked

/-- An order is open as long as its status says so. -/
theorem isOpen_iff {o : Order α} : o.isOpen = true ↔ o.status = .opened := by
  simp [isOpen]

/-- A closed order has any other status. -/
theorem isOpen_eq_false {o : Order α} : o.isOpen = false ↔ o.status ≠ .opened := by
  simp [isOpen]

theorem Ages.refl (o : Order α) : o.Ages o := ⟨rfl, fun _ => rfl, fun _ h => h⟩

/-- The id is one of the terms. -/
theorem Ages.id_eq {o o' : Order α} (h : o.Ages o') : o'.id = o.id := congrArg (·.id) h.terms_eq

/-- A closed order keeps its status. -/
theorem Ages.status_eq {o o' : Order α} (h : o.Ages o') (hclosed : o.isOpen = false) :
    o'.status = o.status :=
  congrArg (·.status) (h.record_eq hclosed)

/-- An order that is open was open all the time. -/
theorem Ages.isOpen_of_isOpen {o o' : Order α} (h : o.Ages o') (hopen : o'.isOpen = true) :
    o.isOpen = true := by
  by_contra hclosed
  rw [Bool.not_eq_true] at hclosed
  rw [isOpen_iff, h.status_eq hclosed] at hopen
  exact isOpen_eq_false.1 hclosed hopen

/-- An order goes on from what it became: closed in the middle, it is closed at the end. -/
theorem Ages.trans {o o' o'' : Order α} (h : o.Ages o') (h' : o'.Ages o'') : o.Ages o'' where
  terms_eq := h'.terms_eq.trans h.terms_eq
  record_eq hclosed := by
    have hclosed' : o'.isOpen = false := by
      rw [isOpen_eq_false, h.status_eq hclosed]
      exact isOpen_eq_false.1 hclosed
    exact (h'.record_eq hclosed').trans (h.record_eq hclosed)
  linked_subset _ hid := h'.linked_subset (h.linked_subset hid)

/-- Linking an order adds a link, unless it is to itself or is there already. -/
theorem ages_link (o : Order α) (id : String) : o.Ages (o.link id) := by
  unfold link
  split
  · exact .refl o
  · exact ⟨rfl, fun _ => rfl, fun _ hid => List.mem_append_left _ hid⟩

/-- A fill changes an open order only, and none of its terms. -/
theorem ages_fill (o : Order α) (price : α) (fee : Fee α) : o.Ages (o.fill price fee).1 := by
  unfold fill
  split
  · next hopen => exact ⟨rfl, fun hclosed => by simp [hopen] at hclosed, fun _ h => h⟩
  · exact .refl o

/-- A cancellation changes an open order only, and none of its terms. -/
theorem ages_cancel (o : Order α) : o.Ages o.cancel.1 := by
  unfold cancel
  split
  · next hopen => exact ⟨rfl, fun hclosed => by simp [hopen] at hclosed, fun _ h => h⟩
  · exact .refl o

/-- A fill leaves the links as they are. -/
theorem linked_fill (o : Order α) (price : α) (fee : Fee α) :
    (o.fill price fee).1.linked = o.linked := by
  unfold fill
  split <;> rfl

/-- A fill closes an open order as filled. -/
theorem status_fill {o : Order α} (hopen : o.isOpen = true) (price : α) (fee : Fee α) :
    (o.fill price fee).1.status = .filled := by
  simp [fill, hopen]

/-- A link does not open or close an order. -/
theorem status_link (o : Order α) (id : String) : (o.link id).status = o.status := by
  unfold link
  split <;> rfl

/-- An order is linked to any other one it is told of. -/
theorem mem_linked_link {o : Order α} {id : String} (h : id ≠ o.id) : id ∈ (o.link id).linked := by
  unfold link
  split
  · next hskip => simpa [h] using hskip
  · simp

/-- A cancellation counts for an open order, and an order that was closed before stays what it was.
-/
theorem status_cancel (o : Order α) :
    o.cancel.1.status = if o.isOpen then .canceled else o.status := by
  unfold cancel
  split <;> rfl

/-- After a cancellation no order is open. -/
theorem isOpen_cancel (o : Order α) : o.cancel.1.isOpen = false := by
  rw [isOpen_eq_false, status_cancel]
  split
  · simp
  · next hclosed => simpa [isOpen] using hclosed

end Order

/-! ## The orders of a store -/

namespace OrderStore

/-- The status of the order that a handle leads to. -/
def status? (s : OrderStore α) (handle : Nat) : Option OrderStatus := (s.at? handle).map (·.status)

/-- No two stored orders have the same id, and every open order is stored. -/
structure Sound (s : OrderStore α) : Prop where
  distinct : ∀ {i j : Nat} {a b : Slot α}, s.slots[i]? = some a → s.slots[j]? = some b →
    a.stored = true → b.stored = true → a.order.id = b.order.id → i = j
  stored_of_isOpen : ∀ {i : Nat} {a : Slot α}, s.slots[i]? = some a → a.order.isOpen = true →
    a.stored = true

/-- The orders that were accepted before are still there, and only aged. -/
def Ages (s s' : OrderStore α) : Prop :=
  ∀ ⦃handle : Nat⦄ ⦃o : Order α⦄, s.at? handle = some o →
    ∃ o', s'.at? handle = some o' ∧ o.Ages o'

/-- A store where nothing happened is as it was. -/
theorem Ages.refl (s : OrderStore α) : s.Ages s := fun _ o h => ⟨o, h, .refl o⟩

/-- Handle by handle, an order that aged twice has aged. -/
theorem Ages.trans {s s' s'' : OrderStore α} (h : s.Ages s') (h' : s'.Ages s'') : s.Ages s'' := by
  intro handle o ho
  obtain ⟨o', ho', hages⟩ := h ho
  obtain ⟨o'', ho'', hages'⟩ := h' ho'
  exact ⟨o'', ho'', hages.trans hages'⟩

/-- An accepted order stands in the slot of its handle, stored or not. -/
theorem at?_eq_some {s : OrderStore α} {handle : Nat} {o : Order α} :
    s.at? handle = some o ↔ ∃ slot, s.slots[handle]? = some slot ∧ slot.order = o := by
  simp [at?]

/-- The status at a handle is that of the order there. -/
theorem status?_eq_some {s : OrderStore α} {handle : Nat} {status : OrderStatus} :
    s.status? handle = some status ↔ ∃ o, s.at? handle = some o ∧ o.status = status := by
  simp [status?]

/-- A closed order has the status it will have. -/
theorem Ages.status?_eq {s s' : OrderStore α} (h : s.Ages s') {handle : Nat} {status : OrderStatus}
    (hs : s.status? handle = some status) (hclosed : status ≠ .opened) :
    s'.status? handle = some status := by
  obtain ⟨o, ho, rfl⟩ := status?_eq_some.1 hs
  obtain ⟨o', ho', hages⟩ := h ho
  exact status?_eq_some.2 ⟨o', ho', hages.status_eq (Order.isOpen_eq_false.2 hclosed)⟩

/-! ### Handles and ids -/

/-- An id leads to a slot that is still stored and holds an order of this id. -/
theorem handle?_eq_some {s : OrderStore α} {id : String} {handle : Nat}
    (h : s.handle? id = some handle) :
    ∃ slot, s.slots[handle]? = some slot ∧ slot.stored = true ∧ slot.order.id = id := by
  obtain ⟨hlt, hp, -⟩ := List.findIdx?_eq_some_iff_getElem.1 h
  simp only [Bool.and_eq_true, beq_iff_eq] at hp
  exact ⟨_, List.getElem?_eq_getElem hlt, hp⟩

/-- An id that leads nowhere belongs to no stored order. -/
theorem handle?_eq_none {s : OrderStore α} {id : String} (h : s.handle? id = none) {i : Nat}
    {slot : Slot α} (hslot : s.slots[i]? = some slot) (hstored : slot.stored = true) :
    slot.order.id ≠ id := by
  have hp := List.findIdx?_eq_none_iff.1 h slot (List.mem_of_getElem? hslot)
  simpa [hstored] using hp

/-- The id of a stored order leads to its handle. -/
theorem Sound.handle?_eq {s : OrderStore α} (hs : s.Sound) {handle : Nat} {slot : Slot α}
    (hslot : s.slots[handle]? = some slot) (hstored : slot.stored = true) :
    s.handle? slot.order.id = some handle := by
  cases hfound : s.handle? slot.order.id with
  | none => exact absurd rfl (handle?_eq_none hfound hslot hstored)
  | some handle' =>
    obtain ⟨slot', hslot', hstored', hid⟩ := handle?_eq_some hfound
    rw [hs.distinct hslot' hslot hstored' hstored hid]

/-- The id of an open order leads to its handle. -/
theorem Sound.handle?_of_isOpen {s : OrderStore α} (hs : s.Sound) {handle : Nat} {o : Order α}
    (ho : s.at? handle = some o) (hopen : o.isOpen = true) : s.handle? o.id = some handle := by
  obtain ⟨slot, hslot, rfl⟩ := at?_eq_some.1 ho
  exact hs.handle?_eq hslot (hs.stored_of_isOpen hslot hopen)

/-- An empty store has no ids to confuse and no open order to lose. -/
theorem sound_empty (most : Nat) : (empty most : OrderStore α).Sound :=
  ⟨fun h => by simp [empty] at h, fun h => by simp [empty] at h⟩

/-! ### Changing one order -/

/-- A change at one handle is seen there and nowhere else. -/
theorem at?_modify (s : OrderStore α) (handle k : Nat) (f : Order α → Order α) :
    (s.modify handle f).at? k = if handle = k then (s.at? k).map f else s.at? k := by
  simp only [at?, modify, List.getElem?_modify]
  split <;> cases s.slots[k]? <;> rfl

/-- What a change makes of the order at its handle. -/
theorem at?_modify_self {s : OrderStore α} {handle : Nat} {o : Order α}
    (h : s.at? handle = some o) (f : Order α → Order α) :
    (s.modify handle f).at? handle = some (f o) := by
  simp [at?_modify, h]

/-- Changes that keep the ids keep the handles they lead to. -/
theorem handle?_modify (s : OrderStore α) (handle : Nat) {f : Order α → Order α}
    (hf : ∀ o, (f o).id = o.id) (id : String) : (s.modify handle f).handle? id = s.handle? id :=
  findIdx?_modify (fun slot => by simp [hf]) s.slots handle

/-- If a change lets an order age, it lets the whole store age. -/
theorem ages_modify (s : OrderStore α) (handle : Nat) {f : Order α → Order α}
    (hf : ∀ o : Order α, o.Ages (f o)) : s.Ages (s.modify handle f) := by
  intro k o ho
  rw [at?_modify]
  split
  · exact ⟨f o, by rw [ho]; rfl, hf o⟩
  · exact ⟨o, ho, .refl o⟩

/-- A store stays sound when one of its orders ages: ids stay, and no closed order opens again. -/
theorem Sound.modify {s : OrderStore α} (hs : s.Sound) (handle : Nat) {f : Order α → Order α}
    (hf : ∀ o : Order α, o.Ages (f o)) : (s.modify handle f).Sound := by
  -- a changed slot is stored as before, under the same id
  have hold : ∀ {i : Nat} {slot : Slot α}, (s.modify handle f).slots[i]? = some slot →
      ∃ old, s.slots[i]? = some old ∧ slot.stored = old.stored ∧ old.order.Ages slot.order := by
    intro i slot hslot
    simp only [OrderStore.modify, List.getElem?_modify] at hslot
    obtain ⟨old, hslot', rfl⟩ := Option.map_eq_some_iff.1 hslot
    refine ⟨old, hslot', ?_⟩
    split
    · exact ⟨rfl, hf _⟩
    · exact ⟨rfl, .refl _⟩
  constructor
  · intro i j a b ha hb hsa hsb hid
    obtain ⟨a', ha', hsa', hagea⟩ := hold ha
    obtain ⟨b', hb', hsb', hageb⟩ := hold hb
    refine hs.distinct ha' hb' (hsa' ▸ hsa) (hsb' ▸ hsb) ?_
    rw [← hagea.id_eq, ← hageb.id_eq, hid]
  · intro i a ha hopen
    obtain ⟨a', ha', hsa', hagea⟩ := hold ha
    rw [hsa']
    exact hs.stored_of_isOpen ha' (hagea.isOpen_of_isOpen hopen)

/-- A change that keeps the status of an order keeps that of every order. -/
theorem status?_modify (s : OrderStore α) (handle k : Nat) {f : Order α → Order α}
    (hf : ∀ o, (f o).status = o.status) : (s.modify handle f).status? k = s.status? k := by
  simp only [status?, at?_modify]
  split
  · simp [Function.comp_def, hf]
  · rfl

/-! ### Adding an order -/

/-- An eviction drops a closed order from the store, and only marks its slot. -/
theorem evict?_eq_some {s s' : OrderStore α} (h : s.evict? = some s') :
    ∃ i slot, s.slots[i]? = some slot ∧ slot.order.isOpen = false ∧
      s' = { s with slots := s.slots.modify i ({ · with stored := false }) } := by
  obtain ⟨i, hi, rfl⟩ := Option.map_eq_some_iff.1 h
  obtain ⟨hlt, hp, -⟩ := List.findIdx?_eq_some_iff_getElem.1 hi
  simp only [Slot.isClosed, Bool.and_eq_true, Bool.not_eq_true'] at hp
  exact ⟨i, _, List.getElem?_eq_getElem hlt, hp.2.2, rfl⟩

/-- An order that was evicted is still known by its handle. -/
theorem at?_evict? {s s' : OrderStore α} (h : s.evict? = some s') (k : Nat) :
    s'.at? k = s.at? k := by
  obtain ⟨i, -, -, -, rfl⟩ := evict?_eq_some h
  simp only [at?, List.getElem?_modify]
  cases s.slots[k]? with
  | none => rfl
  | some slot => simp only [Option.map_eq_map, Option.map_some]; split <;> rfl

/-- No slot disappears in an eviction. -/
theorem length_evict? {s s' : OrderStore α} (h : s.evict? = some s') :
    s'.slots.length = s.slots.length := by
  obtain ⟨i, -, -, -, rfl⟩ := evict?_eq_some h
  simp

/-- Giving up a closed order leaves at most as many orders stored, and every open one. -/
theorem Sound.evict? {s s' : OrderStore α} (hs : s.Sound) (h : s.evict? = some s') :
    s'.Sound ∧ ∀ {i : Nat} {slot : Slot α}, s'.slots[i]? = some slot → slot.stored = true →
      s.slots[i]? = some slot := by
  obtain ⟨k, closed, hk, hclosed, rfl⟩ := evict?_eq_some h
  -- a slot that is stored or whose order is open is not the one that was given up
  have hold : ∀ {i : Nat} {slot : Slot α},
      (s.slots.modify k ({ · with stored := false }))[i]? = some slot →
      ∃ old, s.slots[i]? = some old ∧ slot.order = old.order ∧
        (slot.stored = true ∨ old.order.isOpen = true → slot = old) := by
    intro i slot hslot
    rw [List.getElem?_modify] at hslot
    obtain ⟨old, hold, rfl⟩ := Option.map_eq_some_iff.1 hslot
    refine ⟨old, hold, by split <;> rfl, ?_⟩
    split
    · next hik =>
      subst hik
      rw [hk, Option.some.injEq] at hold
      subst hold
      simp [hclosed]
    · exact fun _ => rfl
  refine ⟨⟨?_, ?_⟩, ?_⟩
  · intro i j a b ha hb hsa hsb hid
    obtain ⟨a', ha', -, hkeep⟩ := hold ha
    obtain ⟨b', hb', -, hkeep'⟩ := hold hb
    obtain rfl := hkeep (.inl hsa)
    obtain rfl := hkeep' (.inl hsb)
    exact hs.distinct ha' hb' hsa hsb hid
  · intro i a ha hopen
    obtain ⟨a', ha', horder, hkeep⟩ := hold ha
    rw [horder] at hopen
    obtain rfl := hkeep (.inr hopen)
    exact hs.stored_of_isOpen ha' hopen
  · intro i slot hslot hstored
    obtain ⟨old, hold, -, hkeep⟩ := hold hslot
    obtain rfl := hkeep (.inl hstored)
    exact hold

/-- An order is accepted under an id that is not stored, and its slot is the last one, behind the
slots of a store with room. -/
theorem add_eq_ok {s s' : OrderStore α} {o : Order α} (h : s.add o = .ok s') :
    s.handle? o.id = none ∧ ∃ room : OrderStore α,
      (s.size < s.capacity ∧ room = s ∨ s.capacity ≤ s.size ∧ s.evict? = some room) ∧
      s' = { room with slots := room.slots ++ [{ order := o }] } := by
  simp only [add] at h
  split at h
  · simp at h
  · next hfree =>
    refine ⟨by simpa using hfree, ?_⟩
    split at h
    · next hroom => exact ⟨s, .inl ⟨hroom, rfl⟩, by simpa using h.symm⟩
    · next hfull =>
      split at h
      · next room hroom => exact ⟨room, .inr ⟨by omega, hroom⟩, by simpa using h.symm⟩
      · simp at h

/-- A new order gets the next handle, and all others keep theirs. -/
theorem at?_add {s s' : OrderStore α} {o : Order α} (h : s.add o = .ok s') (k : Nat) :
    s'.at? k = if k = s.slots.length then some o else s.at? k := by
  obtain ⟨-, room, hroom, rfl⟩ := add_eq_ok h
  -- handles outlive the orders that are given up
  have hsame : room.slots.length = s.slots.length ∧ room.at? k = s.at? k := by
    rcases hroom with ⟨-, rfl⟩ | ⟨-, hroom⟩
    · exact ⟨rfl, rfl⟩
    · exact ⟨length_evict? hroom, at?_evict? hroom k⟩
  rw [← hsame.1, ← hsame.2]
  simp only [at?, List.getElem?_append]
  split
  · next hlt => rw [if_neg (by omega)]
  · next hge =>
    by_cases hk : k = room.slots.length
    · simp [hk]
    · rw [if_neg hk, List.getElem?_eq_none (by simp; omega), List.getElem?_eq_none (by omega)]

/-- Handles are positions among the slots. -/
theorem at?_lt_length {s : OrderStore α} {handle : Nat} {o : Order α} (h : s.at? handle = some o) :
    handle < s.slots.length := by
  obtain ⟨slot, hslot, -⟩ := at?_eq_some.1 h
  exact (List.getElem?_eq_some_iff.1 hslot).1

/-- A new order changes none of those before it. -/
theorem ages_add {s s' : OrderStore α} {o : Order α} (h : s.add o = .ok s') : s.Ages s' := by
  intro k old hold
  have hk := at?_lt_length hold
  exact ⟨old, by rw [at?_add h, if_neg (by omega), hold], .refl old⟩

/-- An order that is open when it is added is not filled. -/
theorem status?_add {s s' : OrderStore α} {o : Order α} (h : s.add o = .ok s')
    (hopen : o.isOpen = true) {handle : Nat} (hnone : s.at? handle = none) :
    s'.status? handle ≠ some .filled := by
  rw [status?, at?_add h]
  split
  · simp [Order.isOpen_iff.1 hopen]
  · simp [hnone]

/-- An added order is new to the store by its id, and what makes room for it was closed. -/
theorem Sound.add {s s' : OrderStore α} (hs : s.Sound) {o : Order α} (h : s.add o = .ok s') :
    s'.Sound := by
  obtain ⟨hfree, room, hroom, rfl⟩ := add_eq_ok h
  have hsame : room.Sound ∧ ∀ {i : Nat} {slot : Slot α}, room.slots[i]? = some slot →
      slot.stored = true → s.slots[i]? = some slot := by
    rcases hroom with ⟨-, rfl⟩ | ⟨-, hroom⟩
    · exact ⟨hs, fun h _ => h⟩
    · exact hs.evict? hroom
  obtain ⟨hsound, hold⟩ := hsame
  -- a slot was there before, or it is the new one
  have hlast : ∀ {i : Nat} {slot : Slot α},
      (room.slots ++ [{ order := o }])[i]? = some slot →
      room.slots[i]? = some slot ∨ i = room.slots.length ∧ slot = { order := o } := by
    intro i slot hslot
    rw [List.getElem?_append] at hslot
    split at hslot
    · exact .inl hslot
    · rw [List.getElem?_singleton] at hslot
      split at hslot
      · exact .inr ⟨by omega, by simpa using hslot.symm⟩
      · simp at hslot
  have hnew : ∀ {i : Nat} {slot : Slot α}, room.slots[i]? = some slot → slot.stored = true →
      slot.order.id ≠ o.id := fun h hstored => handle?_eq_none hfree (hold h hstored) hstored
  constructor
  · intro i j a b ha hb hsa hsb hid
    rcases hlast ha with ha | ⟨rfl, rfl⟩ <;> rcases hlast hb with hb | ⟨rfl, rfl⟩
    · exact hsound.distinct ha hb hsa hsb hid
    · exact absurd hid (hnew ha hsa)
    · exact absurd hid.symm (hnew hb hsb)
    · rfl
  · intro i a ha hopen
    rcases hlast ha with ha | ⟨-, rfl⟩
    · exact hsound.stored_of_isOpen ha hopen
    · rfl

/-! ### Linking two orders -/

/-- Two orders are linked if both are stored, and then each of them to the other. -/
theorem link_eq_ok {s s' : OrderStore α} {first second : String}
    (h : s.link first second = .ok s') :
    ∃ a b, s.handle? first = some a ∧ s.handle? second = some b ∧
      s' = (s.modify a (·.link second)).modify b (·.link first) := by
  unfold link at h
  split at h
  · simp at h
  · simp at h
  · next a b ha hb => exact ⟨a, b, ha, hb, by simpa using h.symm⟩

/-- Linking two orders lets both age. -/
theorem ages_link {s s' : OrderStore α} {first second : String}
    (h : s.link first second = .ok s') : s.Ages s' := by
  obtain ⟨a, b, -, -, rfl⟩ := link_eq_ok h
  exact (ages_modify s a (Order.ages_link · second)).trans
    (ages_modify _ b (Order.ages_link · first))

/-- Links touch neither ids nor statuses. -/
theorem Sound.link {s s' : OrderStore α} (hs : s.Sound) {first second : String}
    (h : s.link first second = .ok s') : s'.Sound := by
  obtain ⟨a, b, -, -, rfl⟩ := link_eq_ok h
  exact (hs.modify a (Order.ages_link · second)).modify b (Order.ages_link · first)

/-- Links leave every status as it is. -/
theorem status?_link {s s' : OrderStore α} {first second : String}
    (h : s.link first second = .ok s') (k : Nat) : s'.status? k = s.status? k := by
  obtain ⟨a, b, -, -, rfl⟩ := link_eq_ok h
  rw [status?_modify _ b _ (Order.status_link · first),
    status?_modify _ a _ (Order.status_link · second)]

/-! ## Changes that fill no order -/

/-- The orders aged, and none of them got filled. -/
structure Unfilled (s s' : OrderStore α) : Prop where
  ages : s.Ages s'
  sound : s.Sound → s'.Sound
  status_eq : ∀ ⦃handle : Nat⦄ ⦃o : Order α⦄, s.at? handle = some o →
    s'.status? handle = some .filled → o.status = .filled

/-- Where nothing happens no order is filled. -/
theorem Unfilled.refl (s : OrderStore α) : s.Unfilled s where
  ages := .refl s
  sound hs := hs
  status_eq handle o ho hstatus := by
    obtain ⟨o', ho', hfilled⟩ := status?_eq_some.1 hstatus
    rw [ho, Option.some.injEq] at ho'
    rw [ho', hfilled]

/-- What is filled after two changes was filled before the second, and so before the first. -/
theorem Unfilled.trans {s s' s'' : OrderStore α} (h : s.Unfilled s') (h' : s'.Unfilled s'') :
    s.Unfilled s'' where
  ages := h.ages.trans h'.ages
  sound hs := h'.sound (h.sound hs)
  status_eq handle o ho hstatus := by
    obtain ⟨o', ho', -⟩ := h.ages ho
    exact h.status_eq ho (status?_eq_some.2 ⟨o', ho', h'.status_eq ho' hstatus⟩)

/-- A new order comes in open, and fills no other. -/
theorem unfilled_add {s s' : OrderStore α} {o : Order α} (h : s.add o = .ok s') :
    s.Unfilled s' where
  ages := ages_add h
  sound hs := hs.add h
  status_eq handle old hold hstatus := by
    have hlt := at?_lt_length hold
    obtain ⟨o', ho', hfilled⟩ := status?_eq_some.1 hstatus
    rw [at?_add h, if_neg (by omega), hold, Option.some.injEq] at ho'
    rw [ho', hfilled]

/-- Linking fills no order. -/
theorem unfilled_link {s s' : OrderStore α} {first second : String}
    (h : s.link first second = .ok s') : s.Unfilled s' where
  ages := ages_link h
  sound hs := hs.link h
  status_eq handle o ho hstatus := by
    rw [status?_link h] at hstatus
    exact (Unfilled.refl s).status_eq ho hstatus

/-- A cancellation fills no order. -/
theorem unfilled_cancel (s : OrderStore α) (handle : Nat) :
    s.Unfilled (s.modify handle (·.cancel.1)) where
  ages := ages_modify s handle Order.ages_cancel
  sound hs := hs.modify handle Order.ages_cancel
  status_eq k o ho hstatus := by
    obtain ⟨o', ho', hfilled⟩ := status?_eq_some.1 hstatus
    rw [at?_modify, ho] at ho'
    split at ho'
    · rw [Option.map_some, Option.some.injEq] at ho'
      rw [← ho', Order.status_cancel] at hfilled
      split at hfilled
      · simp at hfilled
      · exact hfilled
    · rw [Option.some.injEq] at ho'
      rw [ho', hfilled]

end OrderStore

end MarketEngine
