import MarketEngine.Channel.Basic
import MarketEngine.Channel.Topic
import MarketEngine.Table
/-!
# Channel registry

The channels of several exchanges, at most one for each exchange and topic.
-/

namespace MarketEngine

structure Registry (ℓ π : Type) where
  channels : Table (String × Topic) (Channel ℓ π) := []

namespace Registry

variable {ℓ π α : Type}

/-- Adds a channel, unless the exchange has one for the topic. -/
def register (r : Registry ℓ π) (exchange : String) (topic : Topic) (c : Channel ℓ π) :
    Except (EngineError α) (Registry ℓ π) :=
  match r.channels.get? (exchange, topic) with
  | some _ => .error (.channelExists topic.name exchange)
  | none => .ok { r with channels := r.channels.put (exchange, topic) c }

def get (r : Registry ℓ π) (exchange : String) (topic : Topic) :
    Except (EngineError α) (Channel ℓ π) :=
  match r.channels.get? (exchange, topic) with
  | some c => .ok c
  | none => .error (.channelNotFound topic.name exchange)

/-- Changes a channel that is there. -/
def modify (r : Registry ℓ π) (exchange : String) (topic : Topic)
    (f : Channel ℓ π → Channel ℓ π) : Registry ℓ π :=
  match r.channels.get? (exchange, topic) with
  | some c => { r with channels := r.channels.put (exchange, topic) (f c) }
  | none => r

/-- Issues the right to send on a channel. -/
def issueProducer (r : Registry ℓ π) (exchange : String) (topic : Topic) :
    Except (EngineError α) (Registry ℓ π) := do
  let c ← r.get exchange topic
  match c.issueProducer with
  | some c => return r.modify exchange topic fun _ => c
  | none => throw (.producerTaken topic.name exchange)

/-- The channels of an exchange. -/
def ofExchange (r : Registry ℓ π) (exchange : String) : Table Topic (Channel ℓ π) :=
  r.channels.filterMap fun ((owner, topic), c) =>
    if owner == exchange then some (topic, c) else none

/-- The names of an exchange's channels, in the order of their characters. -/
def names (r : Registry ℓ π) (exchange : String) : List String :=
  ((r.channels.keys.filter (·.1 == exchange)).map (·.2.name)).mergeSort (· ≤ ·)

def size (r : Registry ℓ π) : Nat := r.channels.length

def startAll (r : Registry ℓ π) : Registry ℓ π :=
  { r with channels := r.channels.map fun (k, c) => (k, c.start) }

def stopAll (r : Registry ℓ π) : Registry ℓ π :=
  { r with channels := r.channels.map fun (k, c) => (k, c.stop) }

end Registry

end MarketEngine
