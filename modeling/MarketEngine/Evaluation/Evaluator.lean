import MarketEngine.Evaluation.Matrix
import MarketEngine.Evaluation.Momentum
import MarketEngine.Market.CandleSeries
/-!
# Evaluators

An evaluator holds a note. A technical evaluator finds its note from candles, anew in every cycle;
the others see to their notes themselves, and only have them read. Before a note is read it may
expire, and the note of an inactive evaluator is not read.
-/

namespace MarketEngine

/-- How an evaluation finds the note: from the number of evaluations so far, the candles, and the
note before. -/
abbrev NoteRule (α : Type) := Nat → CandleColumns α → Note α → Note α

structure Evaluator (α : Type) where
  name : String
  kind : EvaluatorKind
  /-- The type of the note. -/
  type : String := "float"
  isActive : Bool := true
  note : Note α := .pending
  rule : NoteRule α
  /-- Whether evaluations fail, and leave the note as it is. -/
  fails : Bool := false
  /-- How many evaluations there were, with those that failed. -/
  runs : Nat := 0
  /-- How many readings a note survives, if it expires at all. -/
  lifetime : Option Nat := none
  /-- How many readings there were. -/
  readings : Nat := 0
  /-- Whether the note is set from outside. -/
  isScripted : Bool := false

namespace NoteRule

variable {α : Type}

/-- The note stays as it is. -/
def fixed : NoteRule α := fun _ _ note => note

/-- The note is the number of evaluations. -/
def runCount [Amount α] : NoteRule α := fun runs _ _ => .value (Amount.ofNat runs)

/-- The note is the close of the last candle. -/
def lastClose : NoteRule α := fun _ candles _ => Note.ofOption candles.close.getLast?

/-- The note is the number of candles. -/
def candleCount [Amount α] : NoteRule α := fun _ candles _ => .value (Amount.ofNat candles.size)

/-- The note of the relative strength index. -/
def momentum [Amount α] (period : Nat) : NoteRule α :=
  fun _ candles _ => Momentum.note candles.close period

end NoteRule

namespace Evaluator

variable {α : Type}

/-- The technical evaluator that goes by the relative strength index. -/
def momentum [Amount α] (period : Nat) : Evaluator α where
  name := "RSIMomentumEvaluator"
  kind := .technical
  rule := .momentum period

/-- The usual period of the relative strength index. -/
def usualPeriod : Nat := 14

def isTechnical (e : Evaluator α) : Bool := e.kind == .technical

/-- Evaluates candles. -/
def evaluate (e : Evaluator α) (candles : CandleColumns α) : Evaluator α :=
  let e := { e with runs := e.runs + 1 }
  if e.fails then e else { e with note := e.rule e.runs candles e.note }

/-- Lets the note expire, if its time is over. -/
def expire (e : Evaluator α) : Evaluator α :=
  match e.lifetime with
  | none => e
  | some lifetime =>
    let e := { e with readings := e.readings + 1 }
    if lifetime < e.readings then { e with note := .pending } else e

/-- The note as it is read. -/
def currentNote (e : Evaluator α) : Note α := if e.isActive then e.note else .pending

/-- The turn of an evaluator in a cycle that `source` asked for: an active technical evaluator other
than the source itself evaluates the candles, if there are any. -/
def takeTurn (e : Evaluator α) (source : String) (candles : Option (CandleColumns α)) :
    Evaluator α :=
  let evaluated :=
    match candles with
    | some candles =>
      if e.isTechnical && e.isActive && e.name != source then e.evaluate candles else e
    | none => e
  evaluated.expire

end Evaluator

/-- Writes the note of an evaluator, a technical one's under the time frame of the cycle. -/
def Matrix.record {α : Type} [Amount α] (m : Matrix α) (e : Evaluator α) (t : TimeFrame) :
    Matrix α :=
  m.setNote e.kind e.name e.currentNote (if e.isTechnical then some t else none)

end MarketEngine
