import MarketEngine.Channel.Routing
import MarketEngine.Channel.SendFilter
import MarketEngine.Error
import MarketEngine.Gaps
/-!
# Channels

A channel hands messages to the consumers that subscribed to them. Every consumer has a queue of
bounded length and handles one message at a time. A send selects its consumers when it starts and
goes to them in turn; at a full queue it waits, and whoever waits first is served first. A consumer
that is canceled handles nothing further, and sends go past it.

Each operation below is one atomic step of a run. Who can go on because of a step is noted in
`woken`, for the one who decides whose step is next.
-/

namespace MarketEngine

/-- The receiving end of a subscription. Consumers and sends are known by their numbers in the order
in which they came about. -/
structure Consumer (ℓ π : Type) where
  /-- What the consumer is for. -/
  label : ℓ
  subscription : Subscription
  /-- How many times the channel had been started again when the consumer subscribed. -/
  since : Nat := 0
  /-- Whether it was told to stop, alone or with its channel. -/
  canceled : Bool
  /-- Whether it shows as running. -/
  running : Bool := true
  /-- Whether it stopped for good. -/
  ended : Bool := false
  queue : List (Message π) := []
  /-- The message that is being handled. -/
  held : Option (Message π) := none
  /-- The messages whose handling has ended. -/
  handled : List (Message π) := []
  /-- The sends that wait for a place in the queue, the first to be served first. -/
  waiting : List Nat := []
  /-- The sends for which a place in the queue is kept. -/
  granted : List Nat := []
  deriving Repr

namespace Consumer

variable {ℓ π : Type}

/-- How many places of the queue are taken. -/
def taken (k : Consumer ℓ π) : Nat := k.queue.length + k.granted.length

/-- Whether the consumer waits for a message. -/
def isIdle (k : Consumer ℓ π) : Bool := k.held.isNone && !k.ended

end Consumer

/-- A send from its start on. -/
structure Delivery (π : Type) where
  message : Message π
  /-- The consumers that were selected at the start. -/
  selected : List Nat
  /-- Those of them that it has not yet gone past. -/
  remaining : List Nat
  deriving Repr

/-- Somebody who can go on. -/
inductive Wake where
  | consumer (i : Nat)
  | delivery (d : Nat)
  deriving Repr, DecidableEq

structure Channel (ℓ π : Type) where
  /-- The greatest length of a queue. -/
  capacity : Nat
  filter : SendFilter
  producerIssued : Bool := false
  running : Bool := true
  /-- How many times the channel was started again. -/
  restarts : Nat := 0
  /-- Every consumer that ever subscribed. -/
  consumers : List (Consumer ℓ π) := []
  /-- The consumers that messages are selected for, in the order of registration. -/
  registered : List Nat := []
  /-- Every send that was ever started. -/
  deliveries : List (Delivery π) := []
  /-- The completed sends, in the order of completion. -/
  sent : List Nat := []
  woken : List Wake := []
  deriving Repr

/-- A sign by which a sender sees whether the channel was stopped since a moment. -/
structure StopToken where
  restarts : Nat
  deriving Repr, DecidableEq

/-- How far a send got in one step. -/
inductive Progress where
  /-- It went past a consumer. -/
  | moved
  | blocked
  | completed
  deriving Repr, DecidableEq

namespace Channel

variable {ℓ π : Type}

/-- A running channel; queues hold at least one message. -/
def empty (queueSize filterSize : Nat) : Channel ℓ π where
  capacity := max queueSize 1
  filter := .every filterSize

/-- The channel once its producer is issued. -/
def withProducer (c : Channel ℓ π) : Channel ℓ π := { c with producerIssued := true }

def modifyConsumer (c : Channel ℓ π) (i : Nat) (f : Consumer ℓ π → Consumer ℓ π) : Channel ℓ π :=
  { c with consumers := c.consumers.modify i f }

def modifyDelivery (c : Channel ℓ π) (d : Nat) (f : Delivery π → Delivery π) : Channel ℓ π :=
  { c with deliveries := c.deliveries.modify d f }

def wake (c : Channel ℓ π) (who : List Wake) : Channel ℓ π := { c with woken := c.woken ++ who }

/-! ## Consumers -/

/-- Adds a consumer. On a stopped channel it is canceled from the start. -/
def subscribe (c : Channel ℓ π) (label : ℓ) (subscription : Subscription) : Channel ℓ π × Nat :=
  let i := c.consumers.length
  ({ c with
      consumers :=
        c.consumers ++ [{ label, subscription, since := c.restarts, canceled := !c.running }]
      registered := c.registered ++ [i]
      woken := c.woken ++ [.consumer i] }, i)

/-- Starts the loop of a consumer. It starts once, and the subscription has started it. -/
def runConsumer (c : Channel ℓ π) (_i : Nat) : Channel ℓ π := c

/-- Tells a consumer to stop; the sends that wait at its queue can go on. -/
def cancel (c : Channel ℓ π) (i : Nat) : Channel ℓ π :=
  match c.consumers[i]? with
  | none => c
  | some k =>
    if k.canceled then c
    else
      let c := c.modifyConsumer i ({ · with canceled := true, waiting := [], granted := [] })
      c.wake ((if k.isIdle then [.consumer i] else []) ++ k.waiting.map .delivery)

/-- Stops a consumer. It stays registered. -/
def stopConsumer (c : Channel ℓ π) (i : Nat) : Channel ℓ π :=
  (c.cancel i).modifyConsumer i ({ · with running := false })

/-- Stops a consumer and takes it off the register. -/
def remove (c : Channel ℓ π) (i : Nat) : Channel ℓ π :=
  let c := c.stopConsumer i
  { c with registered := c.registered.filter (· ≠ i) }

def consumerCount (c : Channel ℓ π) : Nat := c.registered.length

/-! ## Selection -/

/-- The symbols whose subscribers a message reaches, in order: its own, and the wildcard. -/
def audiences (key : RoutingKey) : List Symbol :=
  if key.symbol == Symbol.wildcard then [Symbol.wildcard] else [key.symbol, Symbol.wildcard]

/-- Whether a consumer of this audience takes a message; `flagged` says whether the rate-limited
ones are included. -/
def wants (c : Channel ℓ π) (key : RoutingKey) (flagged : Bool) (audience : Symbol) (i : Nat) :
    Bool :=
  match c.consumers[i]? with
  | none => false
  | some k =>
    k.subscription.symbol == audience && k.subscription.acceptsTimeFrame key.timeFrame
      && (flagged || !k.subscription.rateLimited)

/-- The registered consumers that a message reaches: those of its symbol, then those of all. -/
def select (c : Channel ℓ π) (key : RoutingKey) (flagged : Bool) : List Nat :=
  (audiences key).flatMap fun audience => c.registered.filter (c.wants key flagged audience)

/-- Selects the consumers that a message sent now would reach. The filter remembers whether the
rate-limited ones were included. -/
def lookup (c : Channel ℓ π) (key : RoutingKey) : Channel ℓ π × List Nat :=
  let filter := c.filter.evaluate
  ({ c with filter }, c.select key filter.flagged)

/-! ## Sends -/

/-- Issues the producer, which is the right to send. A channel has one. -/
def issueProducer (c : Channel ℓ π) : Option (Channel ℓ π) :=
  if c.producerIssued then none else some c.withProducer

/-- Starts a send: counts it and selects its consumers. On a stopped channel it completes at once
and does not count.

Counting, the flag and the selection are one step, because whoever sends gives way to others only
where it waits for a place in a queue. The step does not ask for an issued producer: holding one is
what lets a caller send, so the callers look for it. -/
def send (c : Channel ℓ π) (m : Message π) : Channel ℓ π × Nat :=
  let d := c.deliveries.length
  let add (c : Channel ℓ π) (delivery : Delivery π) : Channel ℓ π :=
    { c with deliveries := c.deliveries ++ [delivery] }
  if c.running then
    let (c, selected) := { c with filter := c.filter.willSend }.lookup m.key
    (add c { message := m, selected, remaining := selected }, d)
  else (add { c with sent := c.sent ++ [d] } { message := m, selected := [], remaining := [] }, d)

/-- Whether a send is completed. -/
def isSent (c : Channel ℓ π) (d : Nat) : Bool := c.sent.contains d

/-- Lets a send go past its next consumer. -/
def pass (c : Channel ℓ π) (d : Nat) : Channel ℓ π :=
  c.modifyDelivery d fun delivery => { delivery with remaining := delivery.remaining.tail }

/-- Puts the message of a send into a queue. -/
def enqueue (c : Channel ℓ π) (d i : Nat) (m : Message π) (k : Consumer ℓ π) : Channel ℓ π :=
  let c := c.modifyConsumer i fun k =>
    { k with queue := k.queue ++ [m], granted := k.granted.erase d }
  (c.pass d).wake (if k.isIdle then [.consumer i] else [])

/-- One step of a send: it goes past a canceled consumer, queues its message where there is a place
for it, and lines up where there is none. After its last consumer it completes. -/
def advance (c : Channel ℓ π) (d : Nat) : Channel ℓ π × Progress :=
  match c.deliveries[d]? with
  | none => (c, .completed)
  | some delivery =>
    if c.isSent d then (c, .completed)
    else match delivery.remaining with
    | [] => ({ c with filter := c.filter.hasSend, sent := c.sent ++ [d] }, .completed)
    | i :: _ =>
      match c.consumers[i]? with
      | none => (c.pass d, .moved)
      | some k =>
        if k.canceled then (c.pass d, .moved)
        else if k.granted.contains d || (k.waiting.isEmpty && k.taken < c.capacity) then
          (c.enqueue d i delivery.message k, .moved)
        else if k.waiting.contains d then (c, .blocked)
        else (c.modifyConsumer i fun k => { k with waiting := k.waiting ++ [d] }, .blocked)

/-- The sends that are not completed. -/
def underWay (c : Channel ℓ π) : List (Delivery π) :=
  (c.deliveries.zipIdx.filter fun (_, d) => !c.isSent d).map (·.1)

/-! ## Handling -/

/-- The turn of a consumer that is not handling a message: one that is canceled ends, and drops its
queue; another takes its next message, if there is one, and the place goes to the first send that
waits for it. -/
def take (c : Channel ℓ π) (i : Nat) : Channel ℓ π × Option (Message π) :=
  match c.consumers[i]? with
  | none => (c, none)
  | some k =>
    if !k.isIdle then (c, none)
    else if k.canceled then
      (c.modifyConsumer i ({ · with ended := true, running := false, queue := [] }), none)
    else match k.queue, k.waiting with
    | [], _ => (c, none)
    | m :: queue, [] => (c.modifyConsumer i ({ · with queue, held := some m }), some m)
    | m :: queue, d :: waiting =>
      let c := c.modifyConsumer i fun k =>
        { k with queue, held := some m, waiting, granted := k.granted ++ [d] }
      (c.wake [.delivery d], some m)

/-- Ends the handling of a message. -/
def finish (c : Channel ℓ π) (i : Nat) : Channel ℓ π :=
  c.modifyConsumer i fun k => { k with held := none, handled := k.handled ++ k.held.toList }

/-! ## Lifetime -/

/-- The consumers to be canceled when the channel stops, in order. Behind a vacant place stand those
that subscribed since the channel last started, and the places of those that were canceled
meanwhile are vacant too; a vacant place goes to the last of all. So the latest comes first, and
the others follow as they subscribed. -/
def stopOrder (c : Channel ℓ π) : List Nat :=
  let members := c.consumers.zipIdx.filter fun (k, _) => k.since == c.restarts
  closeGaps (none :: members.map fun (k, i) => if k.canceled then none else some i)

/-- Stops the channel: it cancels the consumers and forgets the registered ones. -/
def stop (c : Channel ℓ π) : Channel ℓ π :=
  if c.running then c.stopOrder.foldl cancel { c with running := false, registered := [] } else c

/-- Starts a stopped channel again. Consumers that were canceled stay so. -/
def start (c : Channel ℓ π) : Channel ℓ π :=
  if c.running then c else { c with running := true, restarts := c.restarts + 1 }

def stopToken (c : Channel ℓ π) : StopToken := ⟨c.restarts⟩

/-- Whether the channel was stopped since the token was taken, or already then. -/
def isStoppedSince (c : Channel ℓ π) (t : StopToken) : Bool :=
  !c.running || c.restarts != t.restarts

end Channel

end MarketEngine
