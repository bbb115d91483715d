import MarketEngine.Channel.Basic
import MarketEngine.Channel.Topic
import MarketEngine.Table
/-!
# Networks

The channels of an exchange at work. A consumer handles a message by changing the shared state; on
the way it may send messages on other channels, and it goes on only after each of them was sent.

One activity runs at a time. Activities that can go on stand in `ready`; the first one runs, step by
step, until it has to wait, and those it wakes line up behind it. `settle` runs the network until
nobody can go on. The number of steps this may take is bounded by `work`.
-/

namespace MarketEngine

/-- The address of a consumer. -/
structure Address where
  topic : Topic
  consumer : Nat
  deriving Repr, DecidableEq

/-- The address of a send. -/
structure Ticket where
  topic : Topic
  delivery : Nat
  deriving Repr, DecidableEq

/-- An activity: a consumer, or a send in the background. -/
inductive Actor where
  | consumer (a : Address)
  | sender (t : Ticket)
  deriving Repr, DecidableEq

/-- How the handling of a message goes on; `κ` says what is left to do. -/
inductive Next (π κ : Type) where
  /-- The message is handled, or its handling failed for a reason. -/
  | done (failure : Option String := none)
  /-- A message has to be sent first. -/
  | send (topic : Topic) (message : Message π) (rest : κ)
  /-- Nothing can be done until somebody wakes the consumer. -/
  | wait (rest : κ)

/-- What a consumer waits for in the midst of a message. -/
inductive Pending (κ : Type) where
  | sending (t : Ticket) (rest : κ)
  | waiting (rest : κ)

/-- What consumers with labels `ℓ` do with messages `π`, where they share a state `σ`. -/
structure Handlers (ℓ π σ κ : Type) where
  start : ℓ → Message π → σ → Next π κ × σ
  resume : κ → σ → Next π κ × σ
  /-- How many steps a queued message of a topic may lead to, where the channels have so many
  consumers. -/
  cost : (Topic → Nat) → Topic → Nat
  /-- How many steps the rest of a message may lead to. -/
  restCost : (Topic → Nat) → κ → Nat

structure Network (ℓ π σ κ : Type) where
  shared : σ
  channels : Table Topic (Channel ℓ π) := []
  pending : List (Address × Pending κ) := []
  ready : List Actor := []
  /-- The sends that somebody outside the network carries on. -/
  awaited : List Ticket := []

namespace Network

variable {ℓ π σ κ : Type}

def channel? (n : Network ℓ π σ κ) (topic : Topic) : Option (Channel ℓ π) := n.channels.get? topic

/-- Lines an activity up, unless it already stands in line. -/
def enqueue (n : Network ℓ π σ κ) (a : Actor) : Network ℓ π σ κ :=
  if n.ready.contains a then n else { n with ready := n.ready ++ [a] }

/-- The consumer that a send belongs to, if one waits for it. -/
def senderOf? (n : Network ℓ π σ κ) (t : Ticket) : Option Address :=
  (n.pending.find? fun
    | (_, .sending t' _) => t' == t
    | (_, .waiting _) => false).map (·.1)

/-- The activity that goes on when a channel wakes somebody; nobody, if that is outside. -/
def actor? (n : Network ℓ π σ κ) (topic : Topic) : Wake → Option Actor
  | .consumer i => some (.consumer ⟨topic, i⟩)
  | .delivery d =>
    match n.senderOf? ⟨topic, d⟩ with
    | some a => some (.consumer a)
    | none => if n.awaited.contains ⟨topic, d⟩ then none else some (.sender ⟨topic, d⟩)

/-- Takes a channel in and lines up those whom it woke. -/
def put (n : Network ℓ π σ κ) (topic : Topic) (c : Channel ℓ π) : Network ℓ π σ κ :=
  (c.woken.filterMap (n.actor? topic)).foldl enqueue
    { n with channels := n.channels.put topic { c with woken := [] } }

/-- Changes a channel, if there is one. -/
def modify (n : Network ℓ π σ κ) (topic : Topic) (f : Channel ℓ π → Channel ℓ π) :
    Network ℓ π σ κ :=
  match n.channel? topic with
  | some c => n.put topic (f c)
  | none => n

/-- Subscribes a consumer to a channel. -/
def subscribe (n : Network ℓ π σ κ) (topic : Topic) (label : ℓ) (s : Subscription) :
    Network ℓ π σ κ :=
  n.modify topic fun c => (c.subscribe label s).1

/-- Lines up the consumers that wait for somebody to wake them. -/
def rouse (n : Network ℓ π σ κ) : Network ℓ π σ κ :=
  n.pending.foldr (fun (a, p) n =>
    match p with
    | .sending .. => n
    | .waiting _ => n.enqueue (.consumer a)) n

/-! ## Sends -/

/-- Starts a send. -/
def send (n : Network ℓ π σ κ) (topic : Topic) (m : Message π) : Network ℓ π σ κ × Ticket :=
  match n.channel? topic with
  | some c => let (c, d) := c.send m; (n.put topic c, ⟨topic, d⟩)
  | none => (n, ⟨topic, 0⟩)

/-- One step of a send. -/
def advance (n : Network ℓ π σ κ) (t : Ticket) : Network ℓ π σ κ × Progress :=
  match n.channel? t.topic with
  | some c => let (c, progress) := c.advance t.delivery; (n.put t.topic c, progress)
  | none => (n, .completed)

/-- How many consumers a send has not yet gone past. -/
def remaining (n : Network ℓ π σ κ) (t : Ticket) : Nat :=
  ((n.channel? t.topic).bind (·.deliveries[t.delivery]?)).elim 0 (·.remaining.length)

def isCompleted (n : Network ℓ π σ κ) (t : Ticket) : Bool :=
  (n.channel? t.topic).all (·.isSent t.delivery)

/-- Carries a send on by at most so many steps. -/
def driveFor (n : Network ℓ π σ κ) (t : Ticket) : (steps : Nat) → Network ℓ π σ κ
  | 0 => n
  | steps + 1 =>
    match n.advance t with
    | (n, .moved) => n.driveFor t steps
    | (n, _) => n

/-- Carries a send on as far as it can go at once. -/
def drive (n : Network ℓ π σ κ) (t : Ticket) : Network ℓ π σ κ := n.driveFor t (n.remaining t + 1)

/-! ## Steps -/

/-- Takes the first activity out of the line. -/
def rest (n : Network ℓ π σ κ) : Network ℓ π σ κ := { n with ready := n.ready.tail }

def setPending (n : Network ℓ π σ κ) (a : Address) (p : Option (Pending κ)) : Network ℓ π σ κ :=
  let others := n.pending.filter (·.1 ≠ a)
  { n with pending := match p with
    | some p => (a, p) :: others
    | none => others }

/-- Goes on with the message of the first consumer in line. -/
def proceed (n : Network ℓ π σ κ) (a : Address) (next : Next π κ × σ) : Network ℓ π σ κ :=
  let n := { n with shared := next.2 }
  match next.1 with
  | .done _ => (n.setPending a none).modify a.topic (·.finish a.consumer)
  | .send topic message rest =>
    let (n, t) := n.send topic message
    n.setPending a (some (.sending t rest))
  | .wait rest => (n.setPending a (some (.waiting rest))).rest

/-- The turn of a consumer that may take its next message. -/
def takeNext (h : Handlers ℓ π σ κ) (n : Network ℓ π σ κ) (a : Address) : Network ℓ π σ κ :=
  match n.channel? a.topic with
  | none => n.rest
  | some c =>
    match c.take a.consumer, c.consumers[a.consumer]? with
    | (c, some m), some k => (n.put a.topic c).proceed a (h.start k.label m n.shared)
    | (c, _), _ => (n.put a.topic c).rest

/-- One step of the first activity in line. -/
def step (h : Handlers ℓ π σ κ) (n : Network ℓ π σ κ) : Network ℓ π σ κ :=
  match n.ready with
  | [] => n
  | .sender t :: _ =>
    match n.advance t with
    | (n, .moved) => n
    | (n, _) => n.rest
  | .consumer a :: _ =>
    match n.pending.lookup a with
    | none => n.takeNext h a
    | some (.waiting rest) => n.proceed a (h.resume rest n.shared)
    | some (.sending t rest) =>
      match n.advance t with
      | (n, .moved) => n
      | (n, .blocked) => n.rest
      | (n, .completed) => n.proceed a (h.resume rest n.shared)

/-! ## Running until nobody can go on -/

/-- How many consumers a channel has. -/
def population (n : Network ℓ π σ κ) (topic : Topic) : Nat :=
  (n.channel? topic).elim 0 (·.consumers.length)

/-- The steps that a channel's queues and sends may lead to, where each queued message may lead to
`cost` steps. -/
def channelWork (cost : Nat) (c : Channel ℓ π) : Nat :=
  (c.consumers.map (·.queue.length * cost)).foldr (· + ·) 0
    + (c.underWay.map fun delivery =>
        delivery.remaining.length * (cost + 2) + 2).foldr (· + ·) 0

/-- A bound on the steps until nobody can go on. -/
def work (h : Handlers ℓ π σ κ) (n : Network ℓ π σ κ) : Nat :=
  n.ready.length
    + (n.channels.map fun (topic, c) =>
        channelWork (h.cost n.population topic) c).foldr (· + ·) 0
    + (n.pending.map fun
        | (_, .sending _ rest) => h.restCost n.population rest
        | (_, .waiting rest) => h.restCost n.population rest).foldr (· + ·) 0

/-- Runs at most so many steps. -/
def run (h : Handlers ℓ π σ κ) : (steps : Nat) → Network ℓ π σ κ → Network ℓ π σ κ
  | 0, n => n
  | steps + 1, n => if n.ready.isEmpty then n else run h steps (n.step h)

/-- Runs the network until nobody can go on. -/
def settle (h : Handlers ℓ π σ κ) (n : Network ℓ π σ κ) : Network ℓ π σ κ := run h (n.work h) n

/-- Carries sends on until they are completed. Where all of them have to wait, the network runs
until nobody in it can go on. -/
def carryOn (h : Handlers ℓ π σ κ) (tickets : List Ticket) :
    (rounds : Nat) → Network ℓ π σ κ → Network ℓ π σ κ
  | 0, n => n
  | rounds + 1, n =>
    let n := tickets.foldl drive n
    if tickets.all n.isCompleted then n else carryOn h tickets rounds (n.settle h)

/-- Waits from outside until sends are completed. -/
def await (h : Handlers ℓ π σ κ) (n : Network ℓ π σ κ) (tickets : List Ticket) : Network ℓ π σ κ :=
  let rounds := (tickets.map n.remaining).foldr (· + ·) 0 + 1
  { carryOn h tickets rounds { n with awaited := tickets } with awaited := [] }

/-- Sends a message from outside and waits until it is sent. -/
def sendAndAwait (h : Handlers ℓ π σ κ) (n : Network ℓ π σ κ) (topic : Topic) (m : Message π) :
    Network ℓ π σ κ :=
  let (n, t) := n.send topic m
  n.await h [t]

/-- Handles something from outside as a consumer would handle a message; `sends` bounds the number
of sends on the way. Also says why it failed, if it did. -/
def handle (h : Handlers ℓ π σ κ) :
    (sends : Nat) → Network ℓ π σ κ → Next π κ × σ → Network ℓ π σ κ × Option String
  | _, n, (.done failure, shared) => ({ n with shared }, failure)
  | _, n, (.wait _, shared) => ({ n with shared }, none)
  | 0, n, (.send .., shared) => ({ n with shared }, none)
  | sends + 1, n, (.send topic message rest, shared) =>
    let n := { n with shared }.sendAndAwait h topic message
    handle h sends n (h.resume rest n.shared)

end Network

end MarketEngine
