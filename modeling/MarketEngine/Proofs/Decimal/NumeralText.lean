import MarketEngine.Decimal.Numeral
/-!
# Numerals read back

A numeral that is set out is read back, whatever text follows it, as long as the numeral does not go
on there (`Numeral.read?_write`). The digits of a number do not start with a superfluous zero
(`exists_writeNat_eq`), and those before a point, an exponent or the end are all that is read
(`readDigits_map_writeDigit`).
-/

namespace MarketEngine.Decimal

/-! ## Digits -/

/-- Every digit is read back. -/
theorem readDigit?_writeDigit (d : Fin 10) : readDigit? (writeDigit d) = some d := by
  revert d
  decide

/-- No digit looks like a sign. -/
theorem writeDigit_ne_minus : ∀ d, writeDigit d ≠ '-' := by decide

/-- A text where digits end. -/
def EndsDigits (rest : List Char) : Prop := ∀ c ∈ rest.head?, readDigit? c = none

/-- Digits end before anything that is not a digit. -/
theorem endsDigits_cons {c : Char} (h : readDigit? c = none) (rest : List Char) :
    EndsDigits (c :: rest) := by
  simpa [EndsDigits] using h

/-- Written digits are read back up to where digits end. -/
theorem readDigits_map_writeDigit (ds : List (Fin 10)) {rest : List Char}
    (hrest : EndsDigits rest) : readDigits (ds.map writeDigit ++ rest) = (ds, rest) := by
  induction ds with
  | nil =>
    cases rest with
    | nil => rfl
    | cons c rest => simp [readDigits, hrest c rfl]
  | cons d ds ih => simp [readDigits, readDigit?_writeDigit, ih]

/-- The last digit of a number is its remainder, behind the digits of the rest. -/
theorem digitsOf_of_ne_zero {n : Nat} (h : n ≠ 0) :
    digitsOf n = digitsOf (n / 10) ++ [Fin.ofNat 10 n] := by
  rw [digitsOf, if_neg h]

/-- The digits of a number say that number. -/
theorem ofDigitsFrom_digitsOf (n : Nat) : ofDigitsFrom 0 (digitsOf n) = n := by
  induction n using Nat.strongRecOn with
  | _ n ih =>
    by_cases hn : n = 0
    · subst hn
      rw [digitsOf]
      rfl
    · have hfront : (digitsOf (n / 10)).foldl (fun m d => 10 * m + d.val) 0 = n / 10 :=
        ih (n / 10) (by omega)
      have hlast : (Fin.ofNat 10 n).val = n % 10 := rfl
      rw [digitsOf_of_ne_zero hn, ofDigitsFrom, List.foldl_append, hfront, List.foldl_cons,
        List.foldl_nil, hlast]
      omega

/-- The digits of a positive number start with one that is not zero. -/
theorem exists_digitsOf_eq_cons {n : Nat} (h : n ≠ 0) :
    ∃ d ds, digitsOf n = d :: ds ∧ d ≠ 0 := by
  induction n using Nat.strongRecOn with
  | _ n ih =>
    rw [digitsOf_of_ne_zero h]
    by_cases hsmall : n / 10 = 0
    · refine ⟨Fin.ofNat 10 n, [], ?_, fun hzero => h ?_⟩
      · rw [hsmall, digitsOf]
        rfl
      · have hlast : n % 10 = 0 := congrArg Fin.val hzero
        omega
    · obtain ⟨d, ds, hds, hd⟩ := ih (n / 10) (by omega) hsmall
      exact ⟨d, ds ++ [Fin.ofNat 10 n], by rw [hds, List.cons_append], hd⟩

/-- A number is written with one digit at least, and with no superfluous zero in front. -/
theorem exists_writeNat_eq (n : Nat) :
    ∃ d ds, writeNat n = writeDigit d :: ds.map writeDigit ∧ ofDigitsFrom 0 (d :: ds) = n ∧
      (d = 0 → ds = []) := by
  unfold writeNat
  split
  · next hn => exact ⟨0, [], rfl, hn.symm, fun _ => rfl⟩
  · next hn =>
    obtain ⟨d, ds, hds, hd⟩ := exists_digitsOf_eq_cons hn
    have hvalue := ofDigitsFrom_digitsOf n
    rw [hds] at hvalue ⊢
    exact ⟨d, ds, rfl, hvalue, fun hzero => absurd hzero hd⟩

/-! ## The parts of a numeral -/

/-- A written number is read back. It has no leading zero unless it is zero. -/
theorem readWhole?_writeNat (n : Nat) {rest : List Char} (hrest : EndsDigits rest) :
    readWhole? (writeNat n ++ rest) = some (n, rest) := by
  obtain ⟨d, ds, hwrite, hvalue, hzero⟩ := exists_writeNat_eq n
  have hread := readDigits_map_writeDigit (d :: ds) hrest
  rw [List.map_cons, ← hwrite] at hread
  unfold readWhole?
  rw [hread]
  split
  · next heq => simp at heq
  · next heq =>
    simp only [Prod.mk.injEq, List.cons.injEq] at heq
    obtain ⟨⟨rfl, htail⟩, -⟩ := heq
    rw [hzero rfl] at htail
    cases htail
  · next heq =>
    obtain ⟨rfl, rfl⟩ := Prod.mk.inj heq
    rw [hvalue]

/-- A text where a numeral ends. -/
def EndsNumeral (rest : List Char) : Prop :=
  ∀ c ∈ rest.head?, readDigit? c = none ∧ c ≠ '.' ∧ c ≠ 'e' ∧ c ≠ 'E'

/-- Where a numeral ends digits end. -/
theorem EndsNumeral.digits {rest : List Char} (h : EndsNumeral rest) : EndsDigits rest :=
  fun c hc => (h c hc).1

/-- A numeral ends with its text. -/
theorem endsNumeral_nil : EndsNumeral [] := by simp [EndsNumeral]

/-- A numeral ends before a character that cannot go on one. -/
theorem endsNumeral_cons {c : Char} (rest : List Char) (hdigit : readDigit? c = none)
    (hpoint : c ≠ '.') (hsmall : c ≠ 'e') (hgreat : c ≠ 'E') : EndsNumeral (c :: rest) := by
  simpa [EndsNumeral] using ⟨hdigit, hpoint, hsmall, hgreat⟩

namespace Numeral

/-- The point and the digits after it. -/
def fractionText (n : Numeral) : List Char :=
  if n.fraction.isEmpty then [] else '.' :: n.fraction.map writeDigit

def exponentText (n : Numeral) : List Char :=
  match n.exponent with
  | none => []
  | some e => 'e' :: writeSigned e

/-- A numeral is written in parts: a sign, the whole part, the fraction and the power. -/
theorem write_eq (n : Numeral) : n.write = (if n.negative then ['-'] else [])
    ++ (writeNat n.whole ++ (n.fractionText ++ n.exponentText)) := by
  obtain ⟨negative, whole, fraction, exponent⟩ := n
  cases exponent <;> simp [write, fractionText, exponentText]

/-- A power is read back with its sign. -/
theorem readPower?_writeSigned (e : Int) {rest : List Char} (hrest : EndsDigits rest) :
    readPower? (writeSigned e ++ rest) = some (e, rest) := by
  obtain ⟨d, ds, hwrite, hvalue, -⟩ := exists_writeNat_eq e.natAbs
  have hdigits := readDigits_map_writeDigit (d :: ds) hrest
  rw [List.map_cons, ← hwrite] at hdigits
  unfold readPower? writeSigned
  by_cases hnegative : e < 0
  · simp only [hnegative, if_true, List.cons_append, hdigits, hvalue, Option.some.injEq,
      Prod.mk.injEq, and_true]
    omega
  · simp only [hnegative, if_false, List.cons_append, hdigits, hvalue, Option.some.injEq,
      Prod.mk.injEq, and_true, Bool.false_eq_true]
    omega

/-- A power is read back, and where none was written none is found. -/
theorem readExponent?_exponentText (n : Numeral) {rest : List Char} (hrest : EndsNumeral rest) :
    readExponent? (n.exponentText ++ rest) = some (n.exponent, rest) := by
  unfold exponentText
  cases n.exponent with
  | none =>
    rw [List.nil_append]
    unfold readExponent?
    split
    · exact absurd rfl (hrest 'e' rfl).2.2.1
    · exact absurd rfl (hrest 'E' rfl).2.2.2
    · rfl
  | some e => simp [readExponent?, readPower?_writeSigned e hrest.digits]

/-- The digits before a power end there. -/
theorem endsDigits_exponentText (n : Numeral) {rest : List Char} (hrest : EndsNumeral rest) :
    EndsDigits (n.exponentText ++ rest) := by
  unfold exponentText
  cases n.exponent with
  | none => exact hrest.digits
  | some e => exact endsDigits_cons (by decide) _

/-- A fraction is read back, and where none was written none is found. -/
theorem readFraction?_fractionText (n : Numeral) {rest : List Char} (hrest : EndsNumeral rest) :
    readFraction? (n.fractionText ++ (n.exponentText ++ rest))
      = some (n.fraction, n.exponentText ++ rest) := by
  have hends := n.endsDigits_exponentText hrest
  unfold fractionText
  cases hfraction : n.fraction with
  | nil =>
    rw [List.isEmpty_nil, if_pos rfl, List.nil_append]
    unfold readFraction?
    split
    · next heq =>
      unfold exponentText at heq
      cases hexponent : n.exponent with
      | none =>
        rw [hexponent] at heq
        rw [List.nil_append] at heq
        exact absurd rfl (hrest '.' (by rw [heq]; rfl)).2.1
      | some e => simp [hexponent] at heq
    · rfl
  | cons d ds =>
    have hread := readDigits_map_writeDigit (d :: ds) hends
    rw [List.isEmpty_cons, if_neg Bool.false_ne_true, List.cons_append, readFraction?, hread]

/-- The digits of the whole part end before the fraction. -/
theorem endsDigits_fractionText (n : Numeral) {rest : List Char} (hrest : EndsNumeral rest) :
    EndsDigits (n.fractionText ++ (n.exponentText ++ rest)) := by
  unfold fractionText
  split
  · exact n.endsDigits_exponentText hrest
  · exact endsDigits_cons (by decide) _

/-- The first character of a numeral is its sign or a digit. -/
theorem exists_write_eq_cons (n : Numeral) :
    ∃ c rest, n.write = c :: rest ∧ (c = '-' ∨ ∃ d, c = writeDigit d) := by
  obtain ⟨d, ds, hds, -⟩ := exists_writeNat_eq n.whole
  rw [write_eq, hds]
  by_cases hnegative : n.negative
  · exact ⟨'-', _, by rw [if_pos hnegative]; rfl, .inl rfl⟩
  · exact ⟨writeDigit d, _, by rw [if_neg hnegative]; rfl, .inr ⟨d, rfl⟩⟩

/-- A numeral without a sign. -/
theorem read?_of_ne {c : Char} (h : c ≠ '-') (rest : List Char) :
    read? (c :: rest) = (do
      let (whole, text) ← readWhole? (c :: rest)
      let (fraction, text) ← readFraction? text
      let (exponent, text) ← readExponent? text
      return (⟨false, whole, fraction, exponent⟩, text)) := by
  simp [read?, h]

/-- A numeral is read back from its text, part by part, whatever follows that ends it. -/
theorem read?_write (n : Numeral) {rest : List Char} (hrest : EndsNumeral rest) :
    read? (n.write ++ rest) = some (n, rest) := by
  have hwhole := readWhole?_writeNat n.whole (n.endsDigits_fractionText hrest)
  have hfraction := n.readFraction?_fractionText hrest
  have hexponent := n.readExponent?_exponentText hrest
  obtain ⟨negative, whole, fraction, exponent⟩ := n
  rw [write_eq, List.append_assoc, List.append_assoc, List.append_assoc]
  cases negative with
  | true => simp [read?, hwhole, hfraction, hexponent]
  | false =>
    -- The sign is told by the first character, the rest reads the digits as a whole.
    obtain ⟨d, ds, hfirst, -⟩ := exists_writeNat_eq whole
    have hunsigned := read?_of_ne (writeDigit_ne_minus d)
      (ds.map writeDigit ++ (fractionText ⟨false, whole, fraction, exponent⟩
        ++ (exponentText ⟨false, whole, fraction, exponent⟩ ++ rest)))
    rw [← List.cons_append, ← hfirst] at hunsigned
    simp [hunsigned, hwhole, hfraction, hexponent]

end Numeral

end MarketEngine.Decimal
