import MarketEngine.Error
import MarketEngine.Latest
import MarketEngine.Trading.Order
/-!
# Order store

The store keeps the orders of an exchange in the order in which they were added, at most
`capacity` of them under distinct ids. A full store makes room for a new order by giving up its
oldest closed order; while all of its orders are open it refuses new ones.

Every order that was ever accepted keeps a slot, and the number of that slot is its handle. An order
that was given up is no longer stored, but its handle still leads to it.
-/

namespace MarketEngine

/-- An accepted order. -/
structure Slot (α : Type) where
  order : Order α
  /-- Whether the store still holds the order. -/
  stored : Bool := true
  /-- Whether somebody holds the order at the moment; it counts as open as long as that lasts. -/
  held : Bool := false
  deriving Repr

/-- Whether the order may be given up. -/
def Slot.isClosed {α : Type} (s : Slot α) : Bool := !s.held && !s.order.isOpen

structure OrderStore (α : Type) where
  capacity : Nat
  slots : List (Slot α) := []
  deriving Repr

namespace OrderStore

variable {α : Type}

/-- A store of at most `most` orders, and of one if that is zero. -/
def empty (most : Nat) : OrderStore α := { capacity := max most 1 }

/-- The stored orders, in the order of addition. -/
def stored (s : OrderStore α) : List (Slot α) := s.slots.filter (·.stored)

def size (s : OrderStore α) : Nat := s.stored.length

/-- The order that a handle leads to. -/
def at? (s : OrderStore α) (handle : Nat) : Option (Order α) := s.slots[handle]?.map (·.order)

/-- The handle of the stored order with this id. -/
def handle? (s : OrderStore α) (id : String) : Option Nat :=
  s.slots.findIdx? fun slot => slot.stored && slot.order.id == id

/-- The stored order with this id. -/
def get? (s : OrderStore α) (id : String) : Option (Order α) := (s.handle? id).bind s.at?

/-- The handle of the order with this id, stored or not; of several, the latest. -/
def latest? (s : OrderStore α) (id : String) : Option Nat :=
  MarketEngine.latest? (·.order.id == id) s.slots

/-- Changes the order that a handle leads to. -/
def modify (s : OrderStore α) (handle : Nat) (f : Order α → Order α) : OrderStore α :=
  { s with slots := s.slots.modify handle fun slot => { slot with order := f slot.order } }

/-- Gives up the oldest stored order that is closed, if there is one. -/
def evict? (s : OrderStore α) : Option (OrderStore α) :=
  (s.slots.findIdx? fun slot => slot.stored && slot.isClosed).map fun handle =>
    { s with slots := s.slots.modify handle ({ · with stored := false }) }

/-- Adds an order; its handle is the number of orders accepted before. -/
def add (s : OrderStore α) (o : Order α) : Except (EngineError α) (OrderStore α) :=
  let push (s : OrderStore α) : OrderStore α := { s with slots := s.slots ++ [{ order := o }] }
  if (s.handle? o.id).isSome then .error (.orderStored o.id)
  else if s.size < s.capacity then .ok (push s)
  else match s.evict? with
    | some s => .ok (push s)
    | none => .error (.ordersFull s.capacity)

/-- Links two stored orders, so that filling either cancels the other. -/
def link (s : OrderStore α) (first second : String) : Except (EngineError α) (OrderStore α) :=
  match s.handle? first, s.handle? second with
  | none, _ => .error (.orderMissing first)
  | _, none => .error (.orderMissing second)
  | some a, some b => .ok ((s.modify a (·.link second)).modify b (·.link first))

/-- The handles of the stored orders of a symbol that `p` holds for. -/
def handlesOf (s : OrderStore α) (symbol : Symbol) (p : Order α → Bool) : List Nat :=
  (List.range s.slots.length).filter fun handle =>
    s.slots[handle]?.any fun slot =>
      slot.stored && slot.order.symbol == symbol && p slot.order

/-- The handles of the stored orders of a symbol, in the order of addition. -/
def ordersFor (s : OrderStore α) (symbol : Symbol) : List Nat := s.handlesOf symbol fun _ => true

/-- The handles of the stored open orders of a symbol, in the order of addition. -/
def openOrders (s : OrderStore α) (symbol : Symbol) : List Nat := s.handlesOf symbol (·.isOpen)

/-- The symbols of the stored orders, in the order in which they first appear. -/
def symbols (s : OrderStore α) : List Symbol := (s.stored.map (·.order.symbol)).eraseDups

/-- Whether somebody holds the order that a handle leads to. -/
def isHeld (s : OrderStore α) (handle : Nat) : Bool := s.slots[handle]?.any (·.held)

/-- Whether nobody holds any order. -/
def isFree (s : OrderStore α) : Bool := s.slots.all (!·.held)

/-- Marks an order as held, or as no longer held. -/
def setHeld (s : OrderStore α) (handle : Nat) (held : Bool) : OrderStore α :=
  { s with slots := s.slots.modify handle ({ · with held }) }

/-- Holds the order with this id, stored or not; of several, the latest. -/
def hold (s : OrderStore α) (id : String) : OrderStore α :=
  (s.latest? id).elim s (s.setHeld · true)

/-- Lets go of the held order with this id; of several, the latest. -/
def release? (s : OrderStore α) (id : String) : Option (OrderStore α) :=
  (MarketEngine.latest? (fun slot => slot.held && slot.order.id == id) s.slots).map
    (s.setHeld · false)

end OrderStore

end MarketEngine
