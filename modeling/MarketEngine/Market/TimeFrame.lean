import MarketEngine.Text.Blank
/-!
# Time frames

The periods that candles are aggregated over, from one minute to one month.
-/

namespace MarketEngine

inductive TimeFrame where
  | oneMinute
  | fiveMinutes
  | thirtyMinutes
  | oneHour
  | twoHours
  | fourHours
  | oneDay
  | threeDays
  | oneWeek
  | oneMonth
  deriving Repr, DecidableEq, Inhabited

namespace TimeFrame

/-- Every time frame, the shortest first. -/
def all : List TimeFrame :=
  [oneMinute, fiveMinutes, thirtyMinutes, oneHour, twoHours, fourHours, oneDay, threeDays, oneWeek,
    oneMonth]

def minutes : TimeFrame → Nat
  | oneMinute => 1
  | fiveMinutes => 5
  | thirtyMinutes => 30
  | oneHour => 60
  | twoHours => 120
  | fourHours => 240
  | oneDay => 1440
  | threeDays => 4320
  | oneWeek => 10080
  | oneMonth => 43200

def seconds (t : TimeFrame) : Nat := t.minutes * 60

/-- The short name: minutes are `m`, months are `M`. -/
def name : TimeFrame → String
  | oneMinute => "1m"
  | fiveMinutes => "5m"
  | thirtyMinutes => "30m"
  | oneHour => "1h"
  | twoHours => "2h"
  | fourHours => "4h"
  | oneDay => "1d"
  | threeDays => "3d"
  | oneWeek => "1w"
  | oneMonth => "1M"

/-- The time frame with this short name. -/
def ofName? (s : String) : Option TimeFrame := all.find? (·.name == s)

/-- The time frame with this short name; blanks around the name do not count. -/
def read? (s : String) : Option TimeFrame := ofName? (Text.trim s)

/-- A time frame is found under its short name. -/
theorem ofName?_name (t : TimeFrame) : ofName? t.name = some t := by cases t <;> rfl

end TimeFrame

end MarketEngine
