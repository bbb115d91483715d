import MarketEngine.Amount
/-!
# Comparing amounts

A value that is no number is neither below nor above any other. Values that are numbers, be they
infinite or not, are in order, so that a comparison that fails means the opposite
(`ComparableAmount`); for 64-bit numbers this is read off their signs, exponents and mantissas.
-/

namespace MarketEngine

/-- Amounts that are in order as far as they are numbers. -/
class ComparableAmount (α : Type) [Amount α] : Prop where
  lt_irrefl (x : α) : ¬x < x
  le_of_not_lt {x y : α} (hx : Amount.isUndefined x = false) (hy : Amount.isUndefined y = false)
    (h : ¬x < y) : y ≤ x

/-- An amount that is a number is at most itself. -/
theorem Amount.le_refl {α : Type} [Amount α] [ComparableAmount α] {x : α}
    (h : isUndefined x = false) : x ≤ x :=
  ComparableAmount.le_of_not_lt h h (ComparableAmount.lt_irrefl x)

/-! ## 64-bit numbers -/

open Float.Model

/-- Exchanging two numbers turns their comparison round. -/
theorem compare_swap (u v : UnpackedFloat) : u.compare v = (v.compare u).map Ordering.swap := by
  rcases u with ⟨_ | _⟩ | _ | _ | ⟨_ | _, m, e, hm⟩ <;>
    rcases v with ⟨_ | _⟩ | _ | _ | ⟨_ | _, m', e', hm'⟩ <;>
    dsimp only [UnpackedFloat.compare, Option.map_some]
  all_goals simp [Ordering.swap_then, Int.compare_swap, Nat.compare_swap]
  all_goals decide

/-- Two numbers compare, unless one of them is none. -/
theorem isSome_compare {u v : UnpackedFloat} (hu : u.isNaN = false) (hv : v.isNaN = false) :
    (u.compare v).isSome = true := by
  rcases u with ⟨_ | _⟩ | _ | _ | ⟨_ | _, m, e, hm⟩ <;>
    rcases v with ⟨_ | _⟩ | _ | _ | ⟨_ | _, m', e', hm'⟩ <;>
    first | rfl | (cases hu; done) | cases hv

/-- Comparing 64-bit numbers is comparing what their bits stand for. -/
theorem float_lt_iff {x y : Float} :
    x < y ↔ x.toModel.unpack.compare y.toModel.unpack = some .lt := by
  unfold LT.lt instLTFloat
  simp only [Float.lt, decide_eq_true_eq]
  exact beq_iff_eq

/-- Comparing 64-bit numbers is comparing what their bits stand for. -/
theorem float_le_iff {x y : Float} :
    x ≤ y ↔ (x.toModel.unpack.compare y.toModel.unpack).any Ordering.isLE = true := by
  unfold LE.le instLEFloat
  simp only [Float.le, decide_eq_true_eq]
  rfl

instance : ComparableAmount Float where
  lt_irrefl x h := by
    rw [float_lt_iff] at h
    have hswap := compare_swap x.toModel.unpack x.toModel.unpack
    rw [h] at hswap
    cases hswap
  le_of_not_lt {x y} hx hy h := by
    obtain ⟨o, ho⟩ := Option.isSome_iff_exists.1 (isSome_compare hx hy)
    rw [float_lt_iff, ho] at h
    rw [float_le_iff, compare_swap, ho]
    cases o with
    | lt => exact absurd rfl h
    | eq => rfl
    | gt => rfl

end MarketEngine
