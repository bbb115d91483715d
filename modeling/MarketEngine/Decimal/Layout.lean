import MarketEngine.Decimal.Shortest
import MarketEngine.Decimal.Numeral
/-!
# Written forms of a number

A `Layout` says how the shortest decimal of a 64-bit number is set out: where positional notation
ends, and whether a whole number keeps `.0`. Numbers that are not finite have no numeral.
-/

namespace MarketEngine.Decimal

/-- A 64-bit binary number, taken apart. -/
inductive Parts where
  | undefined
  | infinite (negative : Bool)
  | zero (negative : Bool)
  | finite (negative : Bool) (magnitude : Binary)
  deriving Repr, DecidableEq

/-- The parts of the number with these 64 bits: sign, eleven bits of exponent, 52 of mantissa. -/
def Parts.ofBits (bits : Nat) : Parts :=
  let negative := bits / Nat.pow 2 63 % 2 == 1
  let power : Nat := bits / Nat.pow 2 52 % Nat.pow 2 11
  let fraction : Nat := bits % Nat.pow 2 52
  if power = 2047 then if fraction = 0 then .infinite negative else .undefined
  else if power = 0 then
    if fraction = 0 then .zero negative else .finite negative ⟨fraction, -1074, false⟩
  else
    let narrowBelow := fraction == 0 && power != 1
    .finite negative ⟨Nat.pow 2 52 + fraction, (power : Int) - 1075, narrowBelow⟩

/-- How a finite number is set out. A positive number has the power `p` when it is `d · 10 ^ p`
with `1/10 ≤ d < 1`. -/
structure Layout where
  /-- Which of two equally near decimals is taken. -/
  tie : Tie
  /-- The least power in positional notation, if there is one. -/
  leastPower : Option Int
  /-- The greatest power in positional notation, if there is one. -/
  greatestPower : Option Int
  /-- Whether a whole number in positional notation ends in `.0`. -/
  wholePoint : Bool

/-- Amounts in messages, rows and answers: never an exponent, no point in a whole number. -/
def Layout.plain : Layout where
  tie := .upward
  leastPower := none
  greatestPower := none
  wholePoint := false

/-- Numbers in a settings file: always with a point or an exponent; from `1e+16` on and below
`0.00001` with an exponent. -/
def Layout.settings : Layout where
  tie := .toEven
  leastPower := some (-4)
  greatestPower := some 16
  wholePoint := true

/-- The last `places` digits of `n`, with leading zeros. -/
def lastDigits (n : Nat) : (places : Nat) → List (Fin 10)
  | 0 => []
  | places + 1 => lastDigits (n / 10) places ++ [Fin.ofNat 10 n]

/-- A whole number, with or without a point. -/
def Layout.whole (l : Layout) (negative : Bool) (n : Nat) : Numeral :=
  ⟨negative, n, if l.wholePoint then lastDigits 0 1 else [], none⟩

/-- A decimal without an exponent. -/
def Layout.positional (l : Layout) (negative : Bool) (s : Scaled) : Numeral :=
  let places := s.exponent.natAbs
  if 0 ≤ s.exponent then l.whole negative (s.digits * Nat.pow 10 places)
  else ⟨negative, s.digits / Nat.pow 10 places, lastDigits s.digits places, none⟩

/-- A decimal with one digit before the point. -/
def exponential (negative : Bool) (s : Scaled) : Numeral :=
  let places := digitCount s.digits - 1
  ⟨negative, s.digits / Nat.pow 10 places, lastDigits s.digits places, some (s.exponent + places)⟩

/-- A decimal in the notation that its power asks for. -/
def Layout.scaled (l : Layout) (negative : Bool) (s : Scaled) : Numeral :=
  let power := (digitCount s.digits : Int) + s.exponent
  if l.leastPower.all (· ≤ power) && l.greatestPower.all (power ≤ ·) then l.positional negative s
  else exponential negative s

/-- The numeral of a finite number. -/
def Layout.numeral? (l : Layout) : Parts → Option Numeral
  | .undefined => none
  | .infinite _ => none
  | .zero negative => some (l.whole negative 0)
  | .finite negative magnitude => some (l.scaled negative (magnitude.shortest l.tie))

/-- The text of an amount in messages, rows and answers. -/
def Parts.plainText (p : Parts) : String :=
  match p with
  | .undefined => "NaN"
  | .infinite negative => if negative then "-inf" else "inf"
  | .zero _ => text p
  | .finite .. => text p
where
  text (p : Parts) : String := String.ofList ((Layout.plain.numeral? p).elim [] Numeral.write)

end MarketEngine.Decimal
