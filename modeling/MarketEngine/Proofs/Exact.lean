import MarketEngine.Amount
import Mathlib.Data.Rat.Defs
/-!
# Exact amounts

Rational numbers as amounts. Every one of them is a finite number. Where it matters what becomes of
a value that is no number, it is put beside them (`Exact`).
-/

namespace MarketEngine

instance : Amount ℚ where
  ofNat n := n
  decidableLT := inferInstance
  decidableLE := inferInstance
  isUndefined _ := false
  isFinite _ := true

instance : Written ℚ where
  text := toString

/-- A rational number, or a value that is no number. -/
inductive Exact where
  | number (x : ℚ)
  | undefined
  deriving DecidableEq

namespace Exact

/-- Computes with two numbers; with a value that is none nothing can be computed. -/
def lift (f : ℚ → ℚ → ℚ) : Exact → Exact → Exact
  | number x, number y => number (f x y)
  | _, _ => undefined

/-- Whether two numbers are so related; a value that is none is related to nothing. -/
def related (r : ℚ → ℚ → Bool) : Exact → Exact → Bool
  | number x, number y => r x y
  | _, _ => false

instance : Amount Exact where
  add := lift (· + ·)
  sub := lift (· - ·)
  mul := lift (· * ·)
  div x y := if y = number 0 then undefined else lift (· / ·) x y
  neg := lift (· - ·) (number 0)
  lt x y := related (· < ·) x y = true
  le x y := related (· ≤ ·) x y = true
  beq := related (· == ·)
  ofNat n := number n
  decidableLT _ _ := inferInstanceAs (Decidable (_ = true))
  decidableLE _ _ := inferInstanceAs (Decidable (_ = true))
  isUndefined x := x = undefined
  isFinite x := x ≠ undefined

@[simp] theorem zero_eq : (Amount.zero : Exact) = number 0 := rfl

@[simp] theorem number_add (x y : ℚ) : number x + number y = number (x + y) := rfl

@[simp] theorem number_mul (x y : ℚ) : number x * number y = number (x * y) := rfl

/-- Numbers are divided as rational numbers, by any but zero. -/
theorem number_div (x : ℚ) {y : ℚ} (h : y ≠ 0) : number x / number y = number (x / y) :=
  if_neg fun heq => h (number.inj heq)

@[simp] theorem number_le {x y : ℚ} : number x ≤ number y ↔ x ≤ y := decide_eq_true_iff

end Exact

end MarketEngine
