import MarketEngine.Proofs.Json.Records
import Mathlib.Algebra.Order.Ring.Nat
/-!
# Numerals and finite numbers

A 64-bit number has a numeral if and only if it is finite, and no numeral is read as a number that
is not (`LawfulJsonAmount`). Reading is the longer part: the number is multiplied or divided by
powers of ten, and a quotient is finite because the exponent of a number grows in a division by no
more than the bits that the quotient has too many (`atMost_div`).
-/

namespace MarketEngine

/-- Amounts that have a numeral when they are finite, and that are finite when read from one. -/
class LawfulJsonAmount (α : Type) [Amount α] [JsonAmount α] : Prop where
  isSome_numeral? (x : α) : (JsonAmount.numeral? x).isSome = Amount.isFinite x
  isFinite_of_ofNumeral? {n : Decimal.Numeral} {x : α} (h : JsonAmount.ofNumeral? n = some x) :
    Amount.isFinite x = true
  isFinite_zero : Amount.isFinite (Amount.zero : α) = true

namespace Decimal

open Float.Model UnpackedFloat

/-- A finite number with at most this exponent. -/
def AtMost (b : Int) : UnpackedFloat → Prop
  | .zero _ => True
  | .finite _ _ e _ => e ≤ b
  | .infinity _ => False
  | .notANumber => False

/-- A number with at most some exponent has at most any larger one. -/
theorem AtMost.mono {b b' : Int} {u : UnpackedFloat} (h : AtMost b u) (hb : b ≤ b') :
    AtMost b' u := by
  cases u with
  | finite => exact Int.le_trans h hb
  | _ => exact h

/-- A number with at most some exponent is finite. -/
theorem AtMost.isFinite {b : Int} {u : UnpackedFloat} (h : AtMost b u) : u.isFinite = true := by
  cases u with
  | zero | finite => rfl
  | infinity | notANumber => exact h.elim

/-- A number with at most some exponent is one. -/
theorem AtMost.isNaN {b : Int} {u : UnpackedFloat} (h : AtMost b u) : u.isNaN = false := by
  cases u with
  | zero | finite => rfl
  | infinity | notANumber => exact h.elim

/-- The sign has nothing to do with the exponent. -/
theorem AtMost.neg {b : Int} {u : UnpackedFloat} (h : AtMost b u) : AtMost b u.neg := by
  cases u <;> exact h

/-! ## Rounding -/

/-- A shift to the right divides the mantissa. -/
theorem mantissa_shiftRight (em : ExtendedMantissa) (k : Nat) :
    (em >>> k).mantissa = em.mantissa / 2 ^ k := by
  induction k with
  | zero => exact (Nat.div_one _).symm
  | succ k ih =>
    calc (em >>> (k + 1)).mantissa
      _ = (em >>> k).mantissa / 2 := rfl
      _ = em.mantissa / 2 ^ (k + 1) := by rw [ih, Nat.div_div_eq_div_mul, Nat.pow_succ]

/-- Rounding adds one to the mantissa at most. -/
theorem roundedMantissa_bounds (em : ExtendedMantissa) :
    em.mantissa ≤ em.roundedMantissa ∧ em.roundedMantissa ≤ em.mantissa + 1 := by
  obtain ⟨m, _ | _, _ | _⟩ := em <;>
    simp only [ExtendedMantissa.roundedMantissa, ExtendedMantissa.accuracy,
      Accuracy.roundToNearestEven] <;>
    omega

/-- An exact or inexact mantissa is that mantissa before it is rounded. -/
theorem mantissa_ofMantissaAndAccuracy (m : Nat) (a : Accuracy) :
    (ExtendedMantissa.ofMantissaAndAccuracy m a).mantissa = m := by
  rcases a with _ | _ | _ | _ <;> rfl

/-- The exponent that a number of 64 bits gets: 53 less than the place of its first bit, and no
smaller than there is one. -/
theorem targetExponent_binary64 (t : Int) :
    Format.binary64.targetExponent t = max (t - 53) (-1074) := rfl

/-- The exponent after a shift, and the bits of the mantissa that are left. -/
theorem shiftToTargetExponent_spec (m : Nat) (e : Int) (a : Accuracy) :
    let k := (max (m.log2 + e - 52) (-1074) - e).toNat
    (shiftToTargetExponent .binary64 m e a).2 = e + k ∧
      (shiftToTargetExponent .binary64 m e a).1.mantissa = m / 2 ^ k := by
  have htarget : Format.binary64.targetExponent (totalExponent m e)
      = max (m.log2 + e - 52) (-1074) := by
    rw [targetExponent_binary64, totalExponent]
    omega
  rw [shiftToTargetExponent, htarget]
  refine ⟨rfl, ?_⟩
  rw [shiftToExponent, mantissa_shiftRight, mantissa_ofMantissaAndAccuracy]

/-- A mantissa that is shifted down to 53 bits has no more of them. -/
theorem div_two_pow_lt {m k : Nat} (h : m.log2 ≤ 52 + k) : m / 2 ^ k < 2 ^ 53 := by
  rw [Nat.div_lt_iff_lt_mul (Nat.two_pow_pos k), ← Nat.pow_add]
  calc m
    _ < 2 ^ (m.log2 + 1) := Nat.lt_log2_self
    _ ≤ 2 ^ (53 + k) := Nat.pow_le_pow_right (by decide) (by omega)

/-- A mantissa that was rounded up has one bit more at most. -/
theorem log2_le_of_le {m : Nat} (h : m ≤ 2 ^ 53) : m.log2 ≤ 53 := by
  by_cases hm : m = 0
  · simp [hm]
  · have hlt := (Nat.log2_lt hm).2 (show m < 2 ^ 54 by omega)
    omega

/-- A shift to the left moves the first bit by as many places. -/
theorem log2_mul_two_pow {m : Nat} (hm : m ≠ 0) (k : Nat) : (m * 2 ^ k).log2 = m.log2 + k := by
  induction k with
  | zero => rw [Nat.pow_zero, Nat.mul_one, Nat.add_zero]
  | succ k ih =>
    have hpos : m * 2 ^ k ≠ 0 := Nat.mul_ne_zero hm (Nat.ne_of_gt (Nat.two_pow_pos k))
    rw [Nat.pow_succ, ← Nat.mul_assoc, Nat.mul_comm, Nat.log2_two_mul hpos, ih, Nat.add_assoc]

/-- What a number is rounded to, when its mantissa has no bit to spare. -/
theorem roundWithAccuracy_spec (s : Sign) (m : Nat) (e : Int) (a : Accuracy) :
    AtMost (max e (max (m.log2 + e - 52) (-1074)) + 1) (roundWithAccuracy .binary64 s m e a) := by
  obtain ⟨hexponent, hmantissa⟩ := shiftToTargetExponent_spec m e a
  have hbits := div_two_pow_lt (m := m) (k := (max (m.log2 + e - 52) (-1074) - e).toNat) (by omega)
  have hrounded := (roundedMantissa_bounds (shiftToTargetExponent .binary64 m e a).1).2
  rw [roundWithAccuracy]
  generalize shiftToTargetExponent .binary64 m e a = first at *
  obtain ⟨em, e₁⟩ := first
  obtain ⟨hexponent', -⟩ := shiftToTargetExponent_spec em.roundedMantissa e₁ .exact
  have hlog := log2_le_of_le (m := em.roundedMantissa) (by dsimp only at *; omega)
  dsimp only at *
  by_cases hzero : (shiftToTargetExponent .binary64 em.roundedMantissa e₁ .exact).1.mantissa = 0
  · rw [dif_pos hzero]
    trivial
  · rw [dif_neg hzero]
    show _ ≤ _
    omega

/-- The number that is divided by or multiplied with: finite, not zero, and with no smaller exponent
than one has. -/
def IsScale : UnpackedFloat → Prop
  | .finite _ _ e _ => -52 ≤ e
  | _ => False

instance : DecidablePred IsScale
  | .finite _ _ e _ => inferInstanceAs (Decidable (-52 ≤ e))
  | .infinity _ | .notANumber | .zero _ => isFalse id

/-- A number with bits to spare is rounded to one with as many bits as there is room for. -/
theorem roundWithAccuracy_normal (s : Sign) {m : Nat} {e : Int} (a : Accuracy)
    (hbits : 52 ≤ m.log2) (hlow : -1074 ≤ m.log2 + e - 52) :
    ∃ m' e' hm, roundWithAccuracy .binary64 s m e a = .finite s m' e' hm ∧ m'.log2 = 52 ∧
      m.log2 + e - 52 ≤ e' := by
  obtain ⟨hexponent, hmantissa⟩ := shiftToTargetExponent_spec m e a
  have hk : (max (m.log2 + e - 52) (-1074) - e).toNat = m.log2 - 52 := by omega
  have hbelow : m / 2 ^ (m.log2 - 52) < 2 ^ 53 := div_two_pow_lt (by omega)
  have habove : 2 ^ 52 ≤ m / 2 ^ (m.log2 - 52) := by
    have hm : m ≠ 0 := by rintro rfl; simp at hbits
    rw [Nat.le_div_iff_mul_le (Nat.two_pow_pos _), ← Nat.pow_add,
      show 52 + (m.log2 - 52) = m.log2 by omega]
    exact Nat.log2_self_le hm
  have hrounded := roundedMantissa_bounds (shiftToTargetExponent .binary64 m e a).1
  rw [hk] at hexponent hmantissa
  rw [roundWithAccuracy]
  generalize shiftToTargetExponent .binary64 m e a = first at *
  obtain ⟨em, e₁⟩ := first
  dsimp only at *
  obtain ⟨hexponent', hmantissa'⟩ := shiftToTargetExponent_spec em.roundedMantissa e₁ .exact
  -- The rounded mantissa has 53 bits, or it is the next power of two and is halved.
  have hlog : (em.roundedMantissa / 2 ^ (em.roundedMantissa.log2 - 52)).log2 = 52 := by
    by_cases hfull : em.roundedMantissa = 2 ^ 53
    · rw [hfull, Nat.log2_two_pow]
      rfl
    · have hlog : em.roundedMantissa.log2 = 52 :=
        (Nat.log2_eq_iff (by omega)).2 ⟨by omega, by omega⟩
      rw [hlog, Nat.sub_self, Nat.pow_zero, Nat.div_one, hlog]
  have hk' : (max (em.roundedMantissa.log2 + e₁ - 52) (-1074) - e₁).toNat
      = em.roundedMantissa.log2 - 52 := by omega
  rw [hk'] at hexponent' hmantissa'
  rw [← hmantissa'] at hlog
  have hpos : (shiftToTargetExponent .binary64 em.roundedMantissa e₁ .exact).1.mantissa ≠ 0 := by
    intro hzero
    rw [hzero] at hlog
    cases hlog
  rw [dif_neg hpos]
  exact ⟨_, _, _, rfl, hlog, by omega⟩

/-! ## Packing -/

/-- The exponent's bits of a packed number: shifted by the bias, and zero for a number with fewer
bits than the mantissa has. -/
theorem unpackExponent_pack_finite (s : Sign) (m : Nat) (e : Int) (hm : 0 < m) (he : e ≤ 971) :
    (unpackExponent (UnpackedFloat.pack .binary64 (.finite s m e hm))).toNat
      = if m.log2 = 52 then (e + 1075).toNat else 0 := by
  have hroom : ¬ 2 ^ Format.binary64.exponentBits ≤ (e + Format.binary64.exponentBias
      + Format.binary64.mantissaBitsWithoutImplicit).toNat + 1 := by
    show ¬ 2048 ≤ (e + 1023 + 52).toNat + 1
    omega
  unfold UnpackedFloat.pack
  rw [if_neg hroom]
  by_cases hbits : m.log2 = 52
  · rw [if_pos (by rw [hbits]; rfl), if_pos hbits, unpackExponent_packComponents,
      BitVec.toNat_ofNat]
    show (e + 1023 + 52).toNat % 2048 = (e + 1075).toNat
    omega
  · have hmantissa : ¬ m.log2 + 1 = Format.binary64.mantissaBits := fun h =>
      hbits (Nat.succ.inj h)
    rw [if_neg hmantissa, if_neg hbits, unpackExponent_packComponents]
    rfl

/-- What a number is, by the bits of its exponent: none that is finite, one with the least exponent
there is, or one with 53 bits. -/
theorem unpack_cases (v : BitVec Format.binary64.numBits) :
    let power := (unpackExponent v).toNat
    (power = 2047 ∧ (UnpackedFloat.unpack .binary64 v).isFinite = false) ∨
      (power = 0 ∧ ((∃ s, UnpackedFloat.unpack .binary64 v = .zero s) ∨
        ∃ (s : Sign) (m : Nat) (hm : 0 < m), m < 2 ^ 53 ∧
          UnpackedFloat.unpack .binary64 v = .finite s m (-1074) hm)) ∨
      (power ≠ 0 ∧ power < 2047 ∧ ∃ (s : Sign) (m : Nat) (hm : 0 < m), m < 2 ^ 53 ∧
        UnpackedFloat.unpack .binary64 v = .finite s m (power - 1075) hm) := by
  have hlt : (unpackExponent v).toNat < 2048 := (unpackExponent v).isLt
  have hmantissa : (unpackMantissa v).toNat < 2 ^ 52 := (unpackMantissa v).isLt
  unfold UnpackedFloat.unpack
  by_cases hfull : unpackExponent v = -1#_
  · refine .inl ⟨by rw [hfull]; rfl, ?_⟩
    rw [if_pos hfull]
    by_cases hzero : unpackMantissa v = 0#_
    · rw [if_pos hzero]
      rfl
    · rw [if_neg hzero]
      rfl
  by_cases hempty : unpackExponent v = 0#_
  · refine .inr (.inl ⟨by rw [hempty]; rfl, ?_⟩)
    rw [if_neg hfull, if_pos hempty]
    by_cases hzero : unpackMantissa v = 0#_
    · rw [dif_pos hzero]
      exact .inl ⟨_, rfl⟩
    · rw [dif_neg hzero, hempty]
      have hpos : 0 < (unpackMantissa v).toNat :=
        Nat.pos_of_ne_zero fun h => hzero (BitVec.eq_of_toNat_eq h)
      exact .inr ⟨_, _, hpos, Nat.lt_trans hmantissa (by decide), rfl⟩
  -- the first bit of the mantissa is not written, and makes 53 of 52
  · have hpos : (unpackExponent v).toNat ≠ 0 := fun h => hempty (BitVec.eq_of_toNat_eq h)
    have hbelow : (unpackExponent v).toNat ≠ 2047 := fun h => hfull (BitVec.eq_of_toNat_eq h)
    refine .inr (.inr ⟨hpos, by omega, ?_⟩)
    rw [if_neg hfull, if_neg hempty]
    exact ⟨_, _, Nat.lt_of_lt_of_le (by decide) (BitVec.toNat_append 1#1 _ ▸ Nat.left_le_or),
      (1#1 ++ unpackMantissa v).isLt, rfl⟩

/-- Packing and unpacking a number is that of its bits. -/
theorem unpack_pack (u : UnpackedFloat) : (Float.Model.pack u).unpack
    = UnpackedFloat.unpack .binary64 (UnpackedFloat.pack .binary64 u) := rfl

/-- With no bit of the exponent a number has the least exponent there is. -/
theorem atMost_of_eq {u : UnpackedFloat}
    (h : (∃ s, u = .zero s) ∨
      ∃ (s : Sign) (m : Nat) (hm : 0 < m), m < 2 ^ 53 ∧ u = .finite s m (-1074) hm) :
    AtMost (-1074) u := by
  obtain ⟨s, rfl⟩ | ⟨s, m, hm, -, rfl⟩ := h
  · trivial
  · exact Int.le_refl (-1074)

/-- A finite number of 64 bits has at most the largest exponent there is. -/
theorem atMost_of_isFinite {v : BitVec Format.binary64.numBits}
    (h : (UnpackedFloat.unpack .binary64 v).isFinite = true) :
    AtMost 971 (UnpackedFloat.unpack .binary64 v) := by
  obtain ⟨-, hother⟩ | ⟨-, hsmall⟩ | ⟨-, hpower, s, m, hm, -, hunpack⟩ := unpack_cases v
  · rw [h] at hother
    cases hother
  · exact (atMost_of_eq hsmall).mono (by decide)
  · rw [hunpack]
    show _ ≤ _
    omega

/-- A number of 64 bits has no more than 53 bits in its mantissa. -/
theorem mantissa_lt_of_unpack {v : BitVec Format.binary64.numBits} {s : Sign} {m : Nat} {e : Int}
    {hm : 0 < m} (h : UnpackedFloat.unpack .binary64 v = .finite s m e hm) : m < 2 ^ 53 := by
  obtain ⟨-, hother⟩ | ⟨-, ⟨s', hzero⟩ | ⟨s', m', hm', hlt, hunpack⟩⟩ |
    ⟨-, -, s', m', hm', hlt, hunpack⟩ := unpack_cases v
  · rw [h] at hother
    cases hother
  · rw [h] at hzero
    cases hzero
  all_goals
    rw [h] at hunpack
    cases hunpack
    exact hlt

/-- Packing does not raise the exponent of a number beyond a bound that 64 bits can hold. -/
theorem atMost_pack {u : UnpackedFloat} {b : Int} (hu : AtMost b u) (hlow : -1074 ≤ b)
    (hhigh : b ≤ 971) : AtMost b (Float.Model.pack u).unpack := by
  cases u with
  | zero s => cases s <;> trivial
  | infinity | notANumber => exact hu.elim
  | finite s m e hm =>
    have hpower := unpackExponent_pack_finite s m e hm (Int.le_trans hu hhigh)
    have hexponent : e ≤ b := hu
    obtain ⟨hfull, -⟩ | ⟨-, hsmall⟩ | ⟨hpos, -, s', m', hm', -, hunpack⟩ :=
      unpack_cases (UnpackedFloat.pack .binary64 (.finite s m e hm))
    · rw [hpower] at hfull
      split at hfull <;> omega
    · exact (atMost_of_eq hsmall).mono hlow
    · rw [hpower] at hpos hunpack
      split at hpos
      · rw [unpack_pack, hunpack, if_pos ‹_›]
        show _ ≤ _
        omega
      · exact absurd rfl hpos

/-- Packing a number with a full mantissa does not lower its exponent. -/
theorem isScale_pack {s : Sign} {m : Nat} {e : Int} {hm : 0 < m} (hbits : m.log2 = 52)
    (hlow : -52 ≤ e) (hhigh : e ≤ 971) : IsScale (Float.Model.pack (.finite s m e hm)).unpack := by
  have hpower := unpackExponent_pack_finite s m e hm hhigh
  rw [if_pos hbits] at hpower
  obtain ⟨hfull, -⟩ | ⟨hempty, -⟩ | ⟨-, -, s', m', hm', -, hunpack⟩ :=
    unpack_cases (UnpackedFloat.pack .binary64 (.finite s m e hm))
  · omega
  · omega
  · rw [hpower] at hunpack
    rw [unpack_pack, hunpack]
    show _ ≤ _
    omega

/-- What is a number is packed as one. -/
theorem isNaN_pack {u : UnpackedFloat} (hu : u.isNaN = false) :
    (Float.Model.pack u).unpack.isNaN = false := by
  cases u with
  | notANumber => cases hu
  | infinity s | zero s => cases s <;> rfl
  | finite s m e hm =>
    by_cases he : e ≤ 971
    · exact (atMost_pack (u := .finite s m e hm) he (by decide) (by decide)).isNaN
    · have hroom : 2 ^ Format.binary64.exponentBits ≤ (e + Format.binary64.exponentBias
          + Format.binary64.mantissaBitsWithoutImplicit).toNat + 1 := by
        show 2048 ≤ (e + 1023 + 52).toNat + 1
        omega
      have hinfinity : UnpackedFloat.pack .binary64 (.finite s m e hm)
          = UnpackedFloat.packedInfinity .binary64 s := if_pos hroom
      rw [unpack_pack, hinfinity]
      cases s <;> rfl

/-! ## Quotients and products -/

/-- A quotient before it is rounded has at most one bit to spare, unless the dividend has no more
bits than there is room for. -/
theorem divCore_spec {m₁ : Nat} (e₁ : Int) {m₂ : Nat} (e₂ : Int) (hm₁ : m₁ < 2 ^ 53)
    (hm₂ : 0 < m₂) :
    (divCore .binary64 m₁ e₁ m₂ e₂).1.log2 ≤ 53 ∧
      (divCore .binary64 m₁ e₁ m₂ e₂).2.1 ≤ e₁ - e₂ := by
  simp only [divCore, targetExponent_binary64, totalExponent, Nat.shiftLeft_eq]
  refine ⟨?_, by omega⟩
  generalize hk : (e₁ - e₂ - min (e₁ - e₂) (max (m₁.log2 + 1 + e₁ - (m₂.log2 + 1 + e₂) - 53)
    (-1074))).toNat = k
  have hbound : m₁ * 2 ^ k / m₂ < 2 ^ 54 := by
    rw [Nat.div_lt_iff_lt_mul hm₂]
    have hlow : 2 ^ m₂.log2 ≤ m₂ := Nat.log2_self_le (Nat.ne_of_gt hm₂)
    have hhigh : m₁ < 2 ^ (m₁.log2 + 1) := Nat.lt_log2_self
    by_cases hk0 : k = 0
    · rw [hk0, Nat.pow_zero, Nat.mul_one]
      calc m₁
        _ < 2 ^ 54 * 1 := by omega
        _ ≤ 2 ^ 54 * m₂ := Nat.mul_le_mul_left _ hm₂
    · calc m₁ * 2 ^ k
        _ < 2 ^ (m₁.log2 + 1) * 2 ^ k := Nat.mul_lt_mul_of_pos_right hhigh (Nat.two_pow_pos k)
        _ = 2 ^ (m₁.log2 + 1 + k) := (Nat.pow_add 2 _ _).symm
        _ ≤ 2 ^ (54 + m₂.log2) := Nat.pow_le_pow_right (by decide) (by omega)
        _ = 2 ^ 54 * 2 ^ m₂.log2 := Nat.pow_add 2 _ _
        _ ≤ 2 ^ 54 * m₂ := Nat.mul_le_mul_left _ hlow
  by_cases hzero : m₁ * 2 ^ k / m₂ = 0
  · simp [hzero]
  · have hlog := (Nat.log2_lt hzero).2 hbound
    omega

/-- By no small number a quotient gets large: its exponent rises by 54 at most. -/
theorem atMost_div {b : Int} {v : BitVec Format.binary64.numBits} {w : UnpackedFloat}
    (hv : AtMost b (UnpackedFloat.unpack .binary64 v)) (hw : IsScale w) :
    AtMost (max (b + 54) (-1073)) (UnpackedFloat.div .binary64 (.unpack .binary64 v) w) := by
  cases w with
  | zero | infinity | notANumber => exact hw.elim
  | finite s₂ m₂ e₂ hm₂ =>
    cases hu : UnpackedFloat.unpack .binary64 v with
    | zero => trivial
    | infinity | notANumber =>
      rw [hu] at hv
      exact hv.elim
    | finite s₁ m₁ e₁ hm₁ =>
      rw [hu] at hv
      have hv : e₁ ≤ b := hv
      have hw : -52 ≤ e₂ := hw
      obtain ⟨hbits, hexponent⟩ := divCore_spec e₁ e₂ (mantissa_lt_of_unpack hu) hm₂
      have hround := roundWithAccuracy_spec (s₁ / s₂) (divCore .binary64 m₁ e₁ m₂ e₂).1
        (divCore .binary64 m₁ e₁ m₂ e₂).2.1 (divCore .binary64 m₁ e₁ m₂ e₂).2.2
      exact hround.mono (by omega)

/-- A product of finite numbers is a number. -/
theorem isNaN_mul {u w : UnpackedFloat} (hu : u.isFinite = true) (hw : w.isFinite = true) :
    (UnpackedFloat.mul .binary64 u w).isNaN = false := by
  cases u <;> cases w <;> first | cases hu; done | cases hw; done | skip
  case finite.finite s₁ m₁ e₁ hm₁ s₂ m₂ e₂ hm₂ =>
    exact (roundWithAccuracy_spec (s₁ * s₂) (m₁ * m₂) (e₁ + e₂) .exact).isNaN
  all_goals rfl

/-! ## 64-bit numbers -/

/-- A 64-bit number that is finite and has at most this exponent. -/
def FloatAtMost (b : Int) (x : Float) : Prop := AtMost b x.toModel.unpack

/-- A 64-bit number with at most some exponent is finite. -/
theorem FloatAtMost.isFinite {b : Int} {x : Float} (h : FloatAtMost b x) : x.isFinite = true :=
  AtMost.isFinite h

/-- The negative of a finite number is finite. -/
theorem isFinite_neg {x : Float} (h : x.isFinite = true) : (-x).isFinite = true :=
  (atMost_pack (atMost_of_isFinite h).neg (by decide) (by decide)).isFinite

/-- A whole number of 64 bits has a small exponent as a 64-bit number. -/
theorem floatAtMost_toFloat (n : UInt64) : FloatAtMost 12 n.toFloat := by
  refine atMost_pack ?_ (by decide) (by decide)
  rw [UnpackedFloat.ofUInt64, UnpackedFloat.ofNat, UnpackedFloat.ofInt, UnpackedFloat.normalize]
  split
  · have hnegative : (n.toNat : Int) < 0 := Int.compare_eq_lt.1 ‹_›
    omega
  · trivial
  · have hpos : n.toNat ≠ 0 := by
      have hpositive : (n.toNat : Int) > 0 := Int.compare_eq_gt.1 ‹_›
      omega
    have hlog : n.toNat.log2 < 64 := (Nat.log2_lt hpos).2 n.toNat_lt
    rw [UnpackedFloat.round, targetExponent_binary64, totalExponent, Int.toNat_natCast]
    simp only [decreaseExponent, Nat.shiftLeft_eq]
    refine (roundWithAccuracy_spec _ _ _ _).mono ?_
    rw [log2_mul_two_pow hpos]
    omega

/-- The powers of ten that numbers are scaled with. -/
theorem isScale_powerOfTen {k : Nat} (hk : k ≤ 308) : IsScale (powerOfTen k).toModel.unpack := by
  by_cases hsmall : k ≤ 22
  · revert k
    decide +kernel
  by_cases hlast : k = 308
  · subst hlast
    decide +kernel
  have hmodel : powerOfTen k = Float.ofModel (Float.Model.ofScientific 1 (Int.ofNat k)) := by
    rw [powerOfTen, Float.ofScientific, dif_neg (by omega)]
    rfl
  have hpos : 10 ^ k ≠ 0 := Nat.ne_of_gt (Nat.pow_pos (by decide))
  -- in between the power is rounded to 53 bits, and has room to spare on both ends
  have hlog : (10 ^ k).log2 < 1020 := by
    rw [Nat.log2_lt hpos]
    calc 10 ^ k
      _ ≤ 10 ^ 307 := Nat.pow_le_pow_right (by decide) (by omega)
      _ < 2 ^ 1020 := by decide +kernel
  have hbits := log2_mul_two_pow hpos 53
  obtain ⟨m', e', hm', hround, hnormal, hlow⟩ := roundWithAccuracy_normal .positive
    (m := 10 ^ k * 2 ^ 53) (e := -53) .exact (by omega) (by omega)
  have hhigh : e' ≤ 971 := by
    have hspec := roundWithAccuracy_spec .positive (10 ^ k * 2 ^ 53) (-53) .exact
    rw [hround] at hspec
    have hspec : e' ≤ _ := hspec
    omega
  have hproduct : UnpackedFloat.ofScientific .binary64 1 (Int.ofNat k)
      = .finite .positive m' e' hm' := by
    rw [UnpackedFloat.ofScientific, dif_neg (by decide), if_neg, if_neg, if_pos]
    · rw [← hround, Nat.mul_comm]
      rfl
    · exact Int.natCast_nonneg k
    · show ¬ (k : Int) < -(2048 + (0 : Nat))
      omega
    · show ¬ (k : Int) > 2048
      omega
  rw [hmodel, Float.Model.ofScientific, hproduct]
  exact isScale_pack hnormal (by omega) hhigh

/-- Dividing by a power of ten raises the exponent by 54 at most, as no such power is below one. -/
theorem floatAtMost_div {b : Int} {x : Float} (hx : FloatAtMost b x) (hb : 0 ≤ b)
    (hb' : b + 54 ≤ 971) {k : Nat} (hk : k ≤ 308) : FloatAtMost (b + 54) (x / powerOfTen k) :=
  atMost_pack ((atMost_div hx (isScale_powerOfTen hk)).mono (by omega)) (by omega) hb'

/-- What one divides by or multiplies with is finite. -/
theorem IsScale.isFinite {u : UnpackedFloat} (h : IsScale u) : u.isFinite = true := by
  cases u with
  | zero | finite => rfl
  | infinity | notANumber => exact h.elim

/-- A product of finite numbers is finite unless it is infinite. -/
theorem isFinite_mul {x y : Float} (hx : x.isFinite = true) (hy : y.isFinite = true)
    (h : (x * y).isInf = false) : (x * y).isFinite = true := by
  have hnumber : (x * y).toModel.unpack.isNaN = false := isNaN_pack (isNaN_mul hx hy)
  have hinf : (x * y).toModel.unpack.isInf = false := h
  show (x * y).toModel.unpack.isFinite = true
  cases hunpack : (x * y).toModel.unpack with
  | infinity =>
    rw [hunpack] at hinf
    cases hinf
  | notANumber =>
    rw [hunpack] at hnumber
    cases hnumber
  | zero | finite => rfl

/-! ## Numerals that are read -/

/-- Scaling gives finite numbers: each round divides by `10 ^ 308`, and the last one divides or
multiplies once more. -/
theorem isFinite_scaleOnce? {fuel : Nat} {b : Int} (hb : 0 ≤ b) (hb' : b + 54 * fuel ≤ 971)
    {x y : Float} (hx : FloatAtMost b x) {exponent : Int}
    (h : scaleOnce? x exponent fuel = some y) : y.isFinite = true := by
  induction fuel generalizing b x exponent with
  | zero =>
    cases h
    decide
  | succ fuel ih =>
    rw [scaleOnce?] at h
    split at h
    · next hsmall =>
      split at h
      · dsimp only at h
        split at h
        · cases h
        · next hinf =>
          cases h
          exact isFinite_mul hx.isFinite (isScale_powerOfTen hsmall).isFinite
            (Bool.eq_false_iff.2 hinf)
      · cases h
        exact (floatAtMost_div hx hb (by omega) hsmall).isFinite
    · split at h
      · cases h
        exact hx.isFinite
      · split at h
        · cases h
        · exact ih (by omega) (by omega) (floatAtMost_div hx hb (by omega) (Nat.le_refl 308)) h

/-- A numeral that is read by powers of ten in steps gives a finite number, if it gives any. -/
theorem isFinite_stepwise? {n : Numeral} {x : Float} (h : n.stepwise? = some x) :
    x.isFinite = true := by
  rw [Numeral.stepwise?] at h
  obtain ⟨y, hy, rfl⟩ := Option.map_eq_some_iff.1 h
  have hfinite : y.isFinite = true := by
    split at hy
    · cases hy
      exact (floatAtMost_toFloat _).isFinite
    · exact isFinite_scaleOnce? (by decide) (by decide) (floatAtMost_toFloat _) hy
  split
  · exact isFinite_neg hfinite
  · exact hfinite

/-! ## Numbers that have a numeral -/

/-- The exponent's bits as a quotient and a remainder. -/
theorem toNat_unpackExponent (v : BitVec Format.binary64.numBits) :
    (unpackExponent v).toNat = v.toNat / Nat.pow 2 52 % Nat.pow 2 11 := by
  rw [unpackExponent, BitVec.toNat_cast, BitVec.extractLsb_toNat, Nat.shiftRight_eq_div_pow]
  rfl

/-- A number has a numeral if and only if it is finite. -/
theorem isSome_numeral?_ofBits (l : Layout) (v : BitVec Format.binary64.numBits) :
    (l.numeral? (Parts.ofBits v.toNat)).isSome = (UnpackedFloat.unpack .binary64 v).isFinite := by
  have hpower := toNat_unpackExponent v
  rw [Parts.ofBits]
  dsimp only
  rw [← hpower]
  obtain ⟨hfull, hfinite⟩ | ⟨hempty, hsmall⟩ | ⟨hpos, hbelow, s, m, hm, -, hunpack⟩ :=
    unpack_cases v
  · rw [if_pos hfull, hfinite]
    split <;> rfl
  · rw [if_neg (by omega), if_pos hempty, (atMost_of_eq hsmall).isFinite]
    split <;> rfl
  · rw [if_neg (by omega), if_neg hpos, hunpack]
    rfl

instance : LawfulJsonAmount Float where
  isSome_numeral? x := isSome_numeral?_ofBits .settings x.toModel.toBits.toBitVec
  isFinite_of_ofNumeral? h := isFinite_stepwise? h
  isFinite_zero := by decide +kernel

end Decimal

namespace Json

variable {α : Type} [Amount α] [JsonAmount α] [LawfulJsonAmount α]

/-- An amount that was read is finite. -/
theorem isFinite_of_amount? {j : Json} {x : α} (h : amount? j = some x) :
    Amount.isFinite x = true := by
  cases j with
  | number n => exact LawfulJsonAmount.isFinite_of_ofNumeral? h
  | null | bool | text | array | object => cases h

/-- An amount that is not finite is written as what no amount is read from. -/
theorem isFinite_of_amount?_ofAmount {x y : α} (h : amount? (ofAmount x) = some y) :
    Amount.isFinite x = true := by
  rw [← LawfulJsonAmount.isSome_numeral?]
  rw [ofAmount] at h
  split at h
  · next n hnumeral => rw [hnumeral, Option.isSome_some]
  · cases h

end Json

end MarketEngine
