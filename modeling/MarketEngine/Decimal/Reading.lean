import MarketEngine.Decimal.Numeral
/-!
# The number that a numeral stands for

`Numeral.nearest` is the 64-bit number nearest to a numeral. `Numeral.stepwise?` is how settings
and messages are read: as many digits as a 64-bit whole number holds are gathered, the whole number
is rounded to a 64-bit binary one, and that is multiplied or divided once by a power of ten. It is
cheaper, and for long numerals it may miss the nearest number by the last bit. A numeral beyond the
greatest finite number has no stepwise value.
-/

namespace MarketEngine.Decimal

/-- The 64-bit number nearest to a numeral; beyond the greatest finite number it is infinite. -/
def Numeral.nearest (n : Numeral) : Float :=
  let digits := ofDigitsFrom n.whole n.fraction
  let exponent : Int := n.exponent.getD 0 - n.fraction.length
  let magnitude :=
    if digits = 0 then 0.0
    -- a number of at least `10 ^ 310` is infinite, and one below `10 ^ (-340)` is zero
    else if 310 < exponent then 1.0 / 0.0
    else if (digits.log2 : Int) / 3 + exponent < -340 then 0.0
    else Float.ofScientific digits (exponent < 0) exponent.natAbs
  if n.negative then -magnitude else magnitude

/-- The greatest whole number that digits are gathered into. -/
def gatherLimit : Nat := Nat.pow 2 64 - 1

/-- Appends digits to `n` as long as it stays within the limit; also says how many did not fit. -/
def gather (n : Nat) : List (Fin 10) → Nat × Nat
  | [] => (n, 0)
  | d :: ds =>
    if 10 * n + d.val ≤ gatherLimit then gather (10 * n + d.val) ds else (n, ds.length + 1)

/-- `10 ^ n` as a 64-bit number. -/
def powerOfTen (n : Nat) : Float := Float.ofScientific 1 false n

/-- `x · 10 ^ exponent`, in one multiplication or division. The greatest power of ten is
`10 ^ 308`; a smaller exponent takes `10 ^ 308` off first. -/
def scaleOnce? (x : Float) (exponent : Int) : (fuel : Nat) → Option Float
  | 0 => some 0.0
  | fuel + 1 =>
    if exponent.natAbs ≤ 308 then
      if 0 ≤ exponent then
        let y := x * powerOfTen exponent.natAbs
        if y.isInf then none else some y
      else some (x / powerOfTen exponent.natAbs)
    else if x == 0.0 then some x
    else if 0 ≤ exponent then none
    else scaleOnce? (x / powerOfTen 308) (exponent + 308) fuel

/-- The number that a numeral stands for, gathered and scaled once. Three powers `10 ^ (-308)`
bring every gathered number to zero. -/
def Numeral.stepwise? (n : Numeral) : Option Float :=
  let (front, dropped) := gather 0 (digitsOf n.whole)
  let (digits, unread) := gather front n.fraction
  let taken := n.fraction.length - unread
  let exponent : Int := (dropped : Int) - taken + n.exponent.getD 0
  let magnitude := digits.toUInt64.toFloat
  let magnitude? :=
    if n.fraction.isEmpty && n.exponent.isNone && dropped = 0 then some magnitude
    else scaleOnce? magnitude exponent 5
  magnitude?.map fun x => if n.negative then -x else x

end MarketEngine.Decimal
