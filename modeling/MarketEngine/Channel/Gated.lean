import MarketEngine.Channel.Network
import MarketEngine.Latest
/-!
# Gated consumers

A single channel of numbers whose consumers record what they get. A consumer may have a gate, which
takes a permit for every message; while there is none, the consumer stays with its message.
-/

namespace MarketEngine

/-- A recording consumer. -/
structure Recorder where
  id : String
  gated : Bool
  deriving Repr, DecidableEq

/-- The permits of each gate. -/
abbrev Permits := Table String Nat

namespace Recorder

/-- Passes a gate, if there is a permit. -/
def passGate (id : String) (permits : Permits) : Next Nat String × Permits :=
  match permits.get? id with
  | some (n + 1) => (.done, permits.put id n)
  | _ => (.wait id, permits)

def handlers : Handlers Recorder Nat Permits String where
  start r _ permits := if r.gated then passGate r.id permits else (.done, permits)
  resume := passGate
  cost _ _ := 3
  restCost _ _ := 1

end Recorder

/-- What is to be seen of a channel after a step. -/
structure ChannelView where
  /-- What each consumer recorded in the step, for those that recorded something. -/
  recorded : List (String × List (Message Nat))
  /-- The numbers whose sends were completed in the step, in that order. -/
  sent : List Nat
  blocked : Nat
  running : List String
  count : Nat
  isUp : Bool

/-- A channel with gated consumers. -/
abbrev GatedChannel := Network Recorder Nat Permits String

namespace GatedChannel

/-- The topic of the only channel. -/
def topic : Topic := .ticker

def empty (queueSize filterSize : Nat) : GatedChannel where
  shared := []
  channels := [(topic, .empty queueSize filterSize)]

def channel (g : GatedChannel) : Channel Recorder Nat := (g.channel? topic).getD (.empty 1 1)

/-- The number of the consumer with this id; of several, the latest. -/
def number? (g : GatedChannel) (id : String) : Option Nat :=
  latest? (·.label.id == id) g.channel.consumers

def subscribe (g : GatedChannel) (r : Recorder) (s : Subscription) : GatedChannel :=
  { Network.subscribe g topic r s with shared := Table.put g.shared r.id 0 }

/-- Whether a consumer shows as running, and whether it is rate-limited. -/
def status? (g : GatedChannel) (id : String) : Option (Bool × Bool) := do
  let k ← g.channel.consumers[← g.number? id]?
  return (k.running, k.subscription.rateLimited)

/-- Issues the producer, unless somebody has it. -/
def issueProducer? (g : GatedChannel) : Option GatedChannel :=
  g.channel.issueProducer.map (g.put topic)

/-- Starts a send in the background, if there is somebody who has the producer. -/
def send? (g : GatedChannel) (key : RoutingKey) (n : Nat) : Option GatedChannel :=
  if g.channel.producerIssued then
    let (g, t) := Network.send g topic ⟨key, n⟩
    some (g.enqueue (.sender t))
  else none

/-- Adds permits to a gate, where its consumer may be waiting. -/
def addPermits (g : GatedChannel) (id : String) (permits : Nat) : GatedChannel :=
  let g : GatedChannel := { g with shared := Table.modify g.shared id 0 (· + permits) }
  match g.number? id with
  | some i => if (g.pending.lookup ⟨topic, i⟩).isSome then g.enqueue (.consumer ⟨topic, i⟩) else g
  | none => g

def modifyConsumer (g : GatedChannel) (id : String)
    (f : Channel Recorder Nat → Nat → Channel Recorder Nat) : GatedChannel :=
  match g.number? id with
  | some i => g.modify topic (f · i)
  | none => g

/-- The ids of the consumers that a message sent now would reach. -/
def lookup (g : GatedChannel) (key : RoutingKey) : GatedChannel × List String :=
  let (c, selected) := g.channel.lookup key
  (g.put topic c, selected.filterMap fun i => (c.consumers[i]?).map (·.label.id))

def settle (g : GatedChannel) : GatedChannel := Network.settle Recorder.handlers g

/-- What is to be seen after a step that began with `before`. -/
def view (before g : GatedChannel) : ChannelView :=
  let c := g.channel
  let recordedBefore (i : Nat) : Nat := (before.channel.consumers[i]?).elim 0 (·.handled.length)
  { recorded :=
      (c.consumers.zipIdx.map fun (k, i) => (k.label.id, k.handled.drop (recordedBefore i))).filter
        fun entry => !entry.2.isEmpty
    sent :=
      (c.sent.drop before.channel.sent.length).filterMap fun d =>
        (c.deliveries[d]?).map (·.message.payload)
    blocked := c.underWay.length
    running := (c.consumers.filter (·.running)).map (·.label.id)
    count := c.consumerCount
    isUp := c.running }

end GatedChannel

end MarketEngine
