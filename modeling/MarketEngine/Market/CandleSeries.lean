import MarketEngine.Amount
import MarketEngine.Market.Quote
/-!
# Candle series

A `CandleSeries` keeps the latest candles of one market and time frame in six columns of equal
length, the oldest row first. A candle that opens later than the last row is appended, and then the
oldest row goes once the series is full; one that opens with the last row replaces it; an older one
is ignored. A snapshot is a copy of the last rows in which the live candle holds its own close.
-/

namespace MarketEngine

/-- Candles in columns. -/
structure CandleColumns (α : Type) where
  time : List Int := []
  opening : List α := []
  high : List α := []
  low : List α := []
  close : List α := []
  volume : List α := []
  deriving Repr

namespace CandleColumns

variable {α : Type}

/-- How many rows there are. -/
def size (c : CandleColumns α) : Nat := c.time.length

/-- The columns without their first `n` rows. -/
def drop (c : CandleColumns α) (n : Nat) : CandleColumns α where
  time := c.time.drop n
  opening := c.opening.drop n
  high := c.high.drop n
  low := c.low.drop n
  close := c.close.drop n
  volume := c.volume.drop n

/-- The columns without their last row. -/
def dropLast (c : CandleColumns α) : CandleColumns α where
  time := c.time.dropLast
  opening := c.opening.dropLast
  high := c.high.dropLast
  low := c.low.dropLast
  close := c.close.dropLast
  volume := c.volume.dropLast

/-- The columns with one row more. -/
def push (c : CandleColumns α) (row : Candle α) : CandleColumns α where
  time := c.time ++ [row.time]
  opening := c.opening ++ [row.opening]
  high := c.high ++ [row.high]
  low := c.low ++ [row.low]
  close := c.close ++ [row.close]
  volume := c.volume ++ [row.volume]

/-- The last row. -/
def last? (c : CandleColumns α) : Option (Candle α) :=
  match c.time.getLast?, c.opening.getLast?, c.high.getLast?, c.low.getLast?, c.close.getLast?,
      c.volume.getLast? with
  | some time, some opening, some high, some low, some close, some volume =>
    some { time, opening, high, low, close, volume }
  | _, _, _, _, _, _ => none

/-- The columns with `row` in place of the last row. -/
def setLast (c : CandleColumns α) (row : Candle α) : CandleColumns α := c.dropLast.push row

/-- The rows, the oldest first. -/
def rows (c : CandleColumns α) : List (Candle α) :=
  match c with
  | ⟨t :: time, o :: opening, h :: high, l :: low, x :: close, v :: volume⟩ =>
    ⟨t, o, h, l, x, v⟩ :: rows ⟨time, opening, high, low, close, volume⟩
  | _ => []
  termination_by c.time.length

end CandleColumns

/-- A candle whose range holds its close: the high is raised, or the low lowered, to the close. -/
def Candle.holdClose {α : Type} [Amount α] (c : Candle α) : Candle α :=
  let c := if c.high < c.close then { c with high := c.close } else c
  if c.close < c.low then { c with low := c.close } else c

/-- The latest candles of one market and time frame, at most `capacity` of them. -/
structure CandleSeries (α : Type) extends CandleColumns α where
  capacity : Nat
  deriving Repr

namespace CandleSeries

variable {α : Type}

/-- A series of at most `most` candles, and of one if that is zero. -/
def empty (most : Nat) : CandleSeries α := { capacity := max most 1 }

/-- Adds a candle at the end; a full series loses its oldest one. -/
def append (s : CandleSeries α) (row : Candle α) : CandleSeries α :=
  let kept := if s.size = s.capacity then s.drop 1 else s.toCandleColumns
  { s with toCandleColumns := kept.push row }

/-- Takes a candle in; also says whether it was appended. -/
def update (s : CandleSeries α) (row : Candle α) : CandleSeries α × Bool :=
  match s.time.getLast? with
  | none => (s.append row, true)
  | some last =>
    if row.time = last then ({ s with toCandleColumns := s.setLast row }, false)
    else if row.time < last then (s, false)
    else (s.append row, true)

/-- Takes candles in, one after the other. -/
def extend (s : CandleSeries α) (rows : List (Candle α)) : CandleSeries α :=
  rows.foldl (fun s row => (s.update row).1) s

/-- A copy of the last `limit` rows, or of all without a limit, whose last row holds its close. -/
def snapshot [Amount α] (s : CandleSeries α) (limit : Option Nat) : CandleColumns α :=
  let kept := s.drop (limit.elim 0 (s.size - ·))
  match kept.last? with
  | some row => kept.setLast row.holdClose
  | none => kept

end CandleSeries

end MarketEngine
