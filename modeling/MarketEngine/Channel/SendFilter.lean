/-!
# Send filters

A send filter counts the messages of a channel and lets every `size`-th one through to the
rate-limited consumers: the count is raised when a message is sent, a lookup of consumers is flagged
once the count has reached the size, and the count starts anew when a flagged message has been sent.
-/

namespace MarketEngine

structure SendFilter where
  size : Nat
  counter : Nat := 0
  /-- Whether the latest lookup included the rate-limited consumers. -/
  flagged : Bool := false
  deriving Repr, DecidableEq

namespace SendFilter

/-- A filter that lets every `n`-th message through, and every one if `n` is zero. -/
def every (n : Nat) : SendFilter := { size := max n 1 }

/-- The greatest count, at which the counter stays. -/
def counterLimit : Nat := Nat.pow 2 32 - 1

/-- Counts a message that is about to be sent. -/
def willSend (f : SendFilter) : SendFilter := { f with counter := min (f.counter + 1) counterLimit }

/-- Decides whether a lookup includes the rate-limited consumers, and remembers it. -/
def evaluate (f : SendFilter) : SendFilter := { f with flagged := f.size ≤ f.counter }

/-- Starts anew after a flagged message. -/
def hasSend (f : SendFilter) : SendFilter :=
  if f.flagged then { f with counter := 0, flagged := false } else f

end SendFilter

end MarketEngine
