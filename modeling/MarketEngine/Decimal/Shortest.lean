/-!
# Shortest decimal of a binary number

A positive binary number `m · 2 ^ q` stands for every real that rounds to it. `shortest` gives the
decimal with the fewest digits among those reals, and of the decimals with that many digits the
one nearest to the number itself. All arithmetic is exact, on natural numbers.
-/

namespace MarketEngine.Decimal

/-- The number `digits · 10 ^ exponent`. -/
structure Scaled where
  digits : Nat
  exponent : Int
  deriving Repr, DecidableEq

/-- Which neighbour is taken when both lie equally near. -/
inductive Tie where
  | upward
  | toEven
  deriving Repr, DecidableEq

/-- A positive binary number `mantissa · 2 ^ exponent`; `narrowBelow` says that the next smaller
number is only half as far away as the next larger one. -/
structure Binary where
  mantissa : Nat
  exponent : Int
  narrowBelow : Bool
  deriving Repr, DecidableEq

/-- How many decimal digits a number has; `0` has none. -/
def digitCount (n : Nat) : Nat :=
  if n = 0 then 0 else digitCount (n / 10) + 1
  decreasing_by omega

/-- The `p` with `10 ^ (p - 1) ≤ num / den < 10 ^ p`, for positive arguments. -/
def leadingPower (num den : Nat) : Int :=
  if den ≤ num then (digitCount (num / den) : Int)
  else 1 - (digitCount ((den + num - 1) / num - 1) : Int)

/-- `num / den` in units of `10 ^ k`, as a fraction. -/
def inUnits (num den : Nat) (k : Int) : Nat × Nat :=
  if k < 0 then (num * Nat.pow 10 k.natAbs, den) else (num, den * Nat.pow 10 k.natAbs)

/-- The interval of reals that round to a binary number, over a common denominator. Its ends
belong to it iff the mantissa is even. -/
structure Interval where
  value : Nat
  low : Nat
  high : Nat
  den : Nat
  closed : Bool

def Binary.interval (b : Binary) : Interval :=
  let up := if b.exponent < 2 then 1 else Nat.pow 2 (b.exponent - 2).natAbs
  let den := if b.exponent < 2 then Nat.pow 2 (b.exponent - 2).natAbs else 1
  { value := 4 * b.mantissa * up
    low := (4 * b.mantissa - if b.narrowBelow then 1 else 2) * up
    high := (4 * b.mantissa + 2) * up
    den := den
    closed := b.mantissa % 2 == 0 }

/-- Whether `n · 10 ^ k` lies in the interval. -/
def Interval.holds (i : Interval) (n : Nat) (k : Int) : Bool :=
  let (low, den) := inUnits i.low i.den k
  let (high, _) := inUnits i.high i.den k
  if i.closed then decide (low ≤ n * den) && decide (n * den ≤ high)
  else decide (low < n * den) && decide (n * den < high)

/-- The multiple of `10 ^ k` in the interval that lies nearest to its value, if there is one. -/
def Interval.nearest? (i : Interval) (tie : Tie) (k : Int) : Option Nat :=
  let (value, den) := inUnits i.value i.den k
  let below := value / den
  let above := below + 1
  match i.holds below k, i.holds above k with
  | true, false => some below
  | false, true => some above
  | false, false => none
  | true, true =>
    let twice := 2 * (value % den)
    if twice < den then some below
    else if den < twice then some above
    else match tie with
      | .upward => some above
      | .toEven => some (if below % 2 = 0 then below else above)

/-- Trying `places, places + 1, …` digits of a number with leading power `p`; seventeen digits
always suffice for the numbers of a 64-bit format. -/
def Interval.shortestFrom (i : Interval) (tie : Tie) (p : Int) : (fuel places : Nat) → Scaled
  | 0, places => ⟨i.value / i.den, p - places⟩
  | fuel + 1, places =>
    match i.nearest? tie (p - places) with
    | some n => ⟨n, p - places⟩
    | none => i.shortestFrom tie p fuel (places + 1)

/-- The same number without trailing zeros. -/
def Scaled.trim (s : Scaled) : Scaled :=
  if s.digits ≠ 0 ∧ s.digits % 10 = 0 then
    Scaled.trim ⟨s.digits / 10, s.exponent + 1⟩
  else s
  termination_by s.digits
  decreasing_by omega

/-- The decimal with the fewest digits that rounds to `b`, and the nearest of those. -/
def Binary.shortest (b : Binary) (tie : Tie) : Scaled :=
  let i := b.interval
  (i.shortestFrom tie (leadingPower i.value i.den) 17 1).trim

end MarketEngine.Decimal
