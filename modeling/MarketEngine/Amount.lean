import MarketEngine.Decimal.Layout
/-!
# Amounts

Prices, quantities, balances and notes are amounts. The engine computes with 64-bit binary numbers;
everything it computes is written over the class `Amount`, so that it can also be read with exact
rational numbers.
-/

namespace MarketEngine

/-- The numbers that the engine computes with. Comparisons are decidable and may all fail, as they
do for a value that is no number. -/
class Amount (α : Type) extends Add α, Sub α, Mul α, Div α, Neg α, LT α, LE α, BEq α where
  ofNat : Nat → α
  decidableLT : DecidableLT α
  decidableLE : DecidableLE α
  /-- Whether the value is no number. -/
  isUndefined : α → Bool
  /-- Whether the value is a number and not infinite. -/
  isFinite : α → Bool

namespace Amount

variable {α : Type} [Amount α]

instance (x y : α) : Decidable (x < y) := decidableLT x y

instance (x y : α) : Decidable (x ≤ y) := decidableLE x y

def zero : α := ofNat 0

def one : α := ofNat 1

/-- The amount if it is above zero, and zero otherwise. -/
def positivePart (x : α) : α := if zero < x then x else zero

end Amount

/-- Amounts that have a written form in messages and rows. -/
class Written (α : Type) where
  text : α → String

instance : Amount Float where
  ofNat := Float.ofNat
  decidableLT := inferInstance
  decidableLE := inferInstance
  isUndefined := Float.isNaN
  isFinite := Float.isFinite

instance : Written Float where
  text x := (Decimal.Parts.ofBits x.toBits.toNat).plainText

end MarketEngine
