import MarketEngine.Evaluation.Note
/-!
# Momentum

The relative strength index of a series of closes, with Wilder's smoothing: the mean gain and loss
of the first `period` changes, into which every later change enters with the weight `1 / period`. It
lies between 0, where nothing was gained, and 100, where nothing was lost; far from its middle it
gives a note.
-/

namespace MarketEngine.Momentum

variable {α : Type} [Amount α]

/-- The smoothed gain and loss. -/
structure Swing (α : Type) where
  gain : α
  loss : α

/-- The changes from each close to the next. -/
def changes (closes : List α) : List α := List.zipWith (fun x y => y - x) closes closes.tail

/-- One change of the first period. -/
def seed (n : α) (s : Swing α) (change : α) : Swing α :=
  ⟨s.gain + Amount.positivePart change / n, s.loss + Amount.positivePart (-change) / n⟩

/-- One later change. -/
def smooth (n : α) (s : Swing α) (change : α) : Swing α :=
  ⟨(s.gain * (n - Amount.one) + Amount.positivePart change) / n,
    (s.loss * (n - Amount.one) + Amount.positivePart (-change)) / n⟩

/-- The smoothed gain and loss of all changes. -/
def swing (closes : List α) (period : Nat) : Swing α :=
  let n : α := Amount.ofNat period
  let seeded := ((changes closes).take period).foldl (seed n) ⟨Amount.zero, Amount.zero⟩
  ((changes closes).drop period).foldl (smooth n) seeded

/-- The index of a gain and a loss. -/
def Swing.index (s : Swing α) : α :=
  if s.loss == Amount.zero then
    if s.gain == Amount.zero then Amount.ofNat 50 else Amount.ofNat 100
  else Amount.ofNat 100 - Amount.ofNat 100 / (Amount.one + s.gain / s.loss)

/-- The relative strength index. It needs one close more than the period, and a period. -/
def index? (closes : List α) (period : Nat) : Option α :=
  if period = 0 ∨ closes.length ≤ period then none
  else
    let i := (swing closes period).index
    if Amount.isFinite i then some i else none

/-- The note of an index: from 70 on, and down from 30, its distance from the middle as a share of
50, and otherwise zero. -/
def noteOf (i : α) : α :=
  if Amount.ofNat 70 ≤ i ∨ i ≤ Amount.ofNat 30 then (i - Amount.ofNat 50) / Amount.ofNat 50
  else Amount.zero

def note (closes : List α) (period : Nat) : Note α :=
  Note.ofOption ((index? closes period).map noteOf)

end MarketEngine.Momentum
