import MarketEngine.Evaluation.Evaluator
import MarketEngine.Proofs.Exact
import Mathlib.Algebra.Order.Field.Rat
import Mathlib.Order.Interval.Set.Defs
import Mathlib.Tactic.FieldSimp
import Mathlib.Tactic.Linarith
import Mathlib.Tactic.Ring
/-!
# Notes of the relative strength index

With exact amounts, both phases of the smoothing take in a change in one way: what was there keeps
some share, and the change enters with its own (`Momentum.blend`). So whatever can be done to every
change can be done to the gain and loss in the end (`Momentum.swing_of_changes`): opposite closes
exchange the two, and a positive factor goes through. The index is the share of the gain in both
(`Momentum.Swing.index_eq`), which lies between 0 and 100, is taken from 100 when the two are
exchanged, and does not see a factor. The notes inherit all this (`Evaluator.momentum_note`).
-/

namespace MarketEngine

namespace Momentum

/-! ## Changes -/

/-- The changes of mapped closes, each from a close and the next one. -/
theorem changes_map (f : ℚ → ℚ) (closes : List ℚ) :
    changes (closes.map f) = List.zipWith (fun x y => f y - f x) closes closes.tail := by
  rw [changes, ← List.map_tail, List.zipWith_map]

/-- Mirrored closes change the other way. -/
theorem changes_neg (closes : List ℚ) :
    changes (closes.map (-·)) = (changes closes).map (-·) := by
  rw [changes_map, changes, List.map_zipWith]
  congr 1
  funext x y
  ring

/-- A shift of all closes changes none of the changes. -/
theorem changes_add (c : ℚ) (closes : List ℚ) :
    changes (closes.map (· + c)) = (changes closes).map id := by
  rw [changes_map, changes, List.map_id]
  congr 1
  funext x y
  ring

/-- A factor of all closes is one of all changes. -/
theorem changes_mul (c : ℚ) (closes : List ℚ) :
    changes (closes.map (c * ·)) = (changes closes).map (c * ·) := by
  rw [changes_map, changes, List.map_zipWith]
  congr 1
  funext x y
  ring

/-! ## Smoothing -/

/-- What was there keeps the share `k`, and the change enters with the share `1 / n`. -/
def blend (k n : ℚ) (s : Swing ℚ) (change : ℚ) : Swing ℚ :=
  ⟨k * s.gain + max change 0 / n, k * s.loss + max (-change) 0 / n⟩

/-- What is positive of a number is that number or nothing. -/
theorem positivePart_eq (x : ℚ) : Amount.positivePart x = max x 0 := by
  unfold Amount.positivePart
  split
  · next hpos => exact (max_eq_left (le_of_lt hpos)).symm
  · next hnonpos => exact (max_eq_right (not_lt.1 hnonpos)).symm

/-- At the beginning everything that was there is kept. -/
theorem seed_eq (n : ℚ) : seed n = blend 1 n := by
  funext s change
  rw [seed, blend, positivePart_eq, positivePart_eq, one_mul, one_mul]

/-- Later, of what was there is kept what the new change leaves of the period. -/
theorem smooth_eq (n : ℚ) : smooth n = blend ((n - 1) / n) n := by
  funext s change
  have hone : (Amount.one : ℚ) = 1 := rfl
  rw [smooth, blend, positivePart_eq, positivePart_eq, hone]
  congr 1 <;> ring

/-- The changes of the first period are averaged, and each one after them is blended in. -/
theorem swing_eq (closes : List ℚ) (period : Nat) : swing closes period =
    ((changes closes).drop period).foldl (blend ((period - 1) / period) period)
      (((changes closes).take period).foldl (blend 1 period) ⟨0, 0⟩) := by
  rw [← seed_eq, ← smooth_eq]
  rfl

/-- What is done to every change can be done in the end, if it can be done at each. -/
theorem swing_of_changes {f : ℚ → ℚ} {g : Swing ℚ → Swing ℚ} (hzero : g ⟨0, 0⟩ = ⟨0, 0⟩)
    (hblend : ∀ k n s change, blend k n (g s) (f change) = g (blend k n s change))
    {closes closes' : List ℚ} (h : changes closes' = (changes closes).map f) (period : Nat) :
    swing closes' period = g (swing closes period) := by
  have hfold : ∀ (k n : ℚ) (l : List ℚ) (s : Swing ℚ),
      (l.map f).foldl (blend k n) (g s) = g (l.foldl (blend k n) s) := by
    intro k n l s
    rw [List.foldl_map]
    exact List.foldl_hom g (hblend k n)
  rw [swing_eq, swing_eq, h, ← List.map_take, ← List.map_drop]
  conv_lhs => rw [← hzero]
  rw [hfold, hfold]

/-! ## Gain and loss -/

namespace Swing

/-- Gain and loss exchanged. -/
def swap (s : Swing ℚ) : Swing ℚ := ⟨s.loss, s.gain⟩

/-- Gain and loss with a factor. -/
def scale (c : ℚ) (s : Swing ℚ) : Swing ℚ := ⟨c * s.gain, c * s.loss⟩

structure Nonneg (s : Swing ℚ) : Prop where
  gain : 0 ≤ s.gain
  loss : 0 ≤ s.loss

/-- A blend of what is not negative is not negative. -/
theorem Nonneg.blend {s : Swing ℚ} (h : s.Nonneg) {k n : ℚ} (hk : 0 ≤ k) (hn : 0 ≤ n)
    (change : ℚ) : (blend k n s change).Nonneg where
  gain := add_nonneg (mul_nonneg hk h.gain) (div_nonneg (le_max_right _ _) hn)
  loss := add_nonneg (mul_nonneg hk h.loss) (div_nonneg (le_max_right _ _) hn)

/-- Gain and loss stay so with every change that is blended in. -/
theorem Nonneg.foldl {s : Swing ℚ} (h : s.Nonneg) {k n : ℚ} (hk : 0 ≤ k) (hn : 0 ≤ n)
    (l : List ℚ) : (l.foldl (Momentum.blend k n) s).Nonneg :=
  List.foldlRecOn (motive := Nonneg) l _ h fun _ hs change _ => hs.blend hk hn change

end Swing

/-- Mirrored closes lose what the closes gain, and gain what they lose. -/
theorem swing_neg (closes : List ℚ) (period : Nat) :
    swing (closes.map (-·)) period = (swing closes period).swap := by
  refine swing_of_changes rfl (fun k n s change => ?_) (changes_neg closes) period
  simp only [blend, Swing.swap, neg_neg]

/-- A shift of all closes leaves gain and loss alone. -/
theorem swing_add (c : ℚ) (closes : List ℚ) (period : Nat) :
    swing (closes.map (· + c)) period = swing closes period :=
  swing_of_changes (g := id) rfl (fun _ _ _ _ => rfl) (changes_add c closes) period

/-- Gain and loss scale with the closes. -/
theorem swing_mul {c : ℚ} (hc : 0 < c) (closes : List ℚ) (period : Nat) :
    swing (closes.map (c * ·)) period = (swing closes period).scale c := by
  refine swing_of_changes ?_ (fun k n s change => ?_) (changes_mul c closes) period
  · simp only [Swing.scale, mul_zero]
  · have hmax : ∀ x : ℚ, max (c * x) 0 = c * max x 0 := fun x => by
      rw [mul_max_of_nonneg _ _ hc.le, mul_zero]
    simp only [blend, Swing.scale, ← mul_neg, hmax]
    congr 1 <;> ring

/-- Gain and loss are not negative. -/
theorem nonneg_swing (closes : List ℚ) {period : Nat} (h : period ≠ 0) :
    (swing closes period).Nonneg := by
  have hone : (1 : ℚ) ≤ period := by exact_mod_cast Nat.one_le_iff_ne_zero.2 h
  have hperiod : (0 : ℚ) ≤ period := zero_le_one.trans hone
  have hshare : 0 ≤ ((period : ℚ) - 1) / period := div_nonneg (sub_nonneg.2 hone) hperiod
  have hstart : Swing.Nonneg ⟨0, 0⟩ := ⟨le_refl 0, le_refl 0⟩
  rw [swing_eq]
  exact (hstart.foldl zero_le_one hperiod _).foldl hshare hperiod _

/-! ## The index -/

namespace Swing

variable {s : Swing ℚ} (h : s.Nonneg)
include h

/-- The index is the share of the gain in gain and loss, in hundredths, and 50 where there is
neither. -/
theorem index_eq :
    s.index = if s.gain + s.loss = 0 then 50 else 100 * (s.gain / (s.gain + s.loss)) := by
  have hindex : s.index = if s.loss = 0 then if s.gain = 0 then 50 else 100
      else 100 - 100 / (1 + s.gain / s.loss) := by
    simp only [index, beq_iff_eq]
    rfl
  rw [hindex]
  rcases h.loss.eq_or_lt with hloss | hloss
  · rw [← hloss, if_pos rfl, add_zero]
    split
    · rfl
    · next hgain => rw [div_self hgain, mul_one]
  · have hsum : 0 < s.gain + s.loss := add_pos_of_nonneg_of_pos h.gain hloss
    have hratio : 1 + s.gain / s.loss = (s.gain + s.loss) / s.loss := by
      rw [add_div, div_self hloss.ne', add_comm]
    rw [if_neg hloss.ne', if_neg hsum.ne', hratio]
    field_simp
    ring

/-- The index is the gain's share of gain and loss, in percent. -/
theorem index_mem : s.index ∈ Set.Icc 0 100 := by
  have hsum : 0 ≤ s.gain + s.loss := add_nonneg h.gain h.loss
  rw [index_eq h]
  split
  · constructor <;> norm_num
  · have hshare : s.gain / (s.gain + s.loss) ≤ 1 :=
      div_le_one_of_le₀ (le_add_of_nonneg_right h.loss) hsum
    have hnonneg : 0 ≤ s.gain / (s.gain + s.loss) := div_nonneg h.gain hsum
    constructor <;> linarith

/-- Gain and loss exchanged, the index counts from the other end. -/
theorem index_swap : s.swap.index = 100 - s.index := by
  have hswap : s.swap.Nonneg := ⟨h.loss, h.gain⟩
  rw [index_eq hswap, index_eq h, swap, add_comm s.loss s.gain]
  split
  · norm_num
  · next hsum =>
    have hone : s.gain / (s.gain + s.loss) + s.loss / (s.gain + s.loss) = 1 := by
      rw [← add_div, div_self hsum]
    linarith

/-- A factor of gain and loss cancels out. -/
theorem index_scale {c : ℚ} (hc : 0 < c) : (s.scale c).index = s.index := by
  have hscale : (s.scale c).Nonneg := ⟨mul_nonneg hc.le h.gain, mul_nonneg hc.le h.loss⟩
  rw [index_eq hscale, index_eq h, scale, ← mul_add, mul_div_mul_left _ _ hc.ne']
  simp [hc.ne']

end Swing

/-! ## Notes -/

/-- The note of an index: beyond either bound how far it is from the middle, and otherwise zero. -/
theorem noteOf_eq (i : ℚ) : noteOf i = if 70 ≤ i ∨ i ≤ 30 then (i - 50) / 50 else 0 := rfl

/-- The bounds lie symmetrically, so an index counted from the other end gives the opposite note. -/
theorem noteOf_sub (i : ℚ) : noteOf (100 - i) = -noteOf i := by
  have hfar : 70 ≤ 100 - i ∨ 100 - i ≤ 30 ↔ 70 ≤ i ∨ i ≤ 30 := by
    constructor
    · rintro (hlow | hhigh)
      · exact .inr (by linarith)
      · exact .inl (by linarith)
    · rintro (hhigh | hlow)
      · exact .inr (by linarith)
      · exact .inl (by linarith)
  rw [noteOf_eq, noteOf_eq]
  simp only [hfar]
  split
  · ring
  · exact neg_zero.symm

/-- A note is zero or at least two fifths in either direction. -/
theorem noteOf_mem {i : ℚ} (h : i ∈ Set.Icc 0 100) : noteOf i ∈ Set.Icc (-1) (-2 / 5) ∨
    noteOf i = 0 ∨ noteOf i ∈ Set.Icc (2 / 5) 1 := by
  obtain ⟨hlow, hhigh⟩ := h
  rw [noteOf_eq]
  split
  · next hfar =>
    rcases hfar with hfar | hfar
    · exact .inr (.inr ⟨by linarith, by linarith⟩)
    · exact .inl ⟨by linarith, by linarith⟩
  · exact .inr (.inl rfl)

/-- The note is pending as long as there are no more closes than the period has, and for a period of
zero. -/
theorem note_eq (closes : List ℚ) (period : Nat) : note closes period =
    if period = 0 ∨ closes.length ≤ period then .pending
    else .value (noteOf (swing closes period).index) := by
  unfold note index?
  split <;> rfl

end Momentum

/-- The opposite verdict. -/
def Note.opposite : Note ℚ → Note ℚ
  | .value x => .value (-x)
  | .pending => .pending

namespace Momentum

/-- Mirrored closes give the opposite note. -/
theorem note_neg (closes : List ℚ) (period : Nat) :
    note (closes.map (-·)) period = (note closes period).opposite := by
  rw [note_eq, note_eq, List.length_map]
  split
  · rfl
  · next henough =>
    rw [swing_neg, Swing.index_swap (nonneg_swing closes (not_or.1 henough).1), noteOf_sub]
    rfl

/-- A shift of all closes leaves the note alone. -/
theorem note_add (c : ℚ) (closes : List ℚ) (period : Nat) :
    note (closes.map (· + c)) period = note closes period := by
  rw [note_eq, note_eq, List.length_map, swing_add]

/-- A positive factor of all closes leaves the note alone. -/
theorem note_mul {c : ℚ} (hc : 0 < c) (closes : List ℚ) (period : Nat) :
    note (closes.map (c * ·)) period = note closes period := by
  rw [note_eq, note_eq, List.length_map]
  split
  · rfl
  · next henough =>
    rw [swing_mul hc, Swing.index_scale (nonneg_swing closes (not_or.1 henough).1) hc]

end Momentum

namespace Evaluator

/-- An evaluation that does not fail counts as a run and leaves the rule's note. -/
theorem evaluate_eq {e : Evaluator ℚ} (h : e.fails = false) (candles : CandleColumns ℚ) :
    e.evaluate candles
      = { e with runs := e.runs + 1, note := e.rule (e.runs + 1) candles e.note } := by
  simp [evaluate, h]

/-- Each evaluation finds the note anew, whatever was evaluated before. -/
theorem note_evaluate_momentum (period : Nat) (before : List (CandleColumns ℚ))
    (candles : CandleColumns ℚ) :
    ((before.foldl evaluate (momentum period)).evaluate candles).note
      = Momentum.note candles.close period := by
  obtain ⟨hrule, hfails⟩ : (before.foldl evaluate (momentum period)).rule = .momentum period ∧
      (before.foldl evaluate (momentum period)).fails = false := by
    refine List.foldlRecOn
      (motive := fun e : Evaluator ℚ => e.rule = .momentum period ∧ e.fails = false)
      before _ ⟨rfl, rfl⟩ fun e he candles _ => ?_
    rw [evaluate_eq he.2]
    exact he
  rw [evaluate_eq hfails, hrule]
  rfl

/-- Whatever the evaluator of the relative strength index evaluated before, its note on candles

* is pending exactly if its period is zero or there are at most as many closes as the period says,
  and otherwise is a value from -1 to -0.4, or 0, or from 0.4 to 1;
* turns into the opposite when every close does;
* stays the same when a constant is added to every close;
* stays the same when every close is multiplied by one positive factor. -/
theorem momentum_note (period : Nat) (before : List (CandleColumns ℚ))
    (candles : CandleColumns ℚ) :
    let note := fun candles => ((before.foldl evaluate (momentum period)).evaluate candles).note
    (note candles = .pending ↔ period = 0 ∨ candles.close.length ≤ period) ∧
    (note candles ≠ .pending → ∃ x, note candles = .value x ∧
      (x ∈ Set.Icc (-1) (-2 / 5) ∨ x = 0 ∨ x ∈ Set.Icc (2 / 5) 1)) ∧
    (∀ candles', candles'.close = candles.close.map (-·) →
      note candles' = (note candles).opposite) ∧
    (∀ candles' c, candles'.close = candles.close.map (· + c) → note candles' = note candles) ∧
    ∀ candles' c, 0 < c → candles'.close = candles.close.map (c * ·) →
      note candles' = note candles := by
  simp only [note_evaluate_momentum]
  refine ⟨?_, fun hvalue => ?_, fun candles' hcloses => ?_, fun candles' c hcloses => ?_,
    fun candles' c hc hcloses => ?_⟩
  · rw [Momentum.note_eq]
    split <;> simp_all
  · rw [Momentum.note_eq] at hvalue ⊢
    split at hvalue
    · exact absurd rfl hvalue
    · next henough =>
      rw [if_neg henough]
      have hnonneg := Momentum.nonneg_swing candles.close (not_or.1 henough).1
      exact ⟨_, rfl, Momentum.noteOf_mem (Momentum.Swing.index_mem hnonneg)⟩
  · rw [hcloses, Momentum.note_neg]
  · rw [hcloses, Momentum.note_add]
  · rw [hcloses, Momentum.note_mul hc]

/-- Closes that rise and fall again, after others that had left a note. -/
theorem momentum_note_rising :
    let before : List (CandleColumns ℚ) := [{ close := [3, 2, 1] }]
    let candles : CandleColumns ℚ := { close := [0, 4, 8, 7] }
    let note := fun candles => ((before.foldl evaluate (momentum 2)).evaluate candles).note
    note candles ≠ .pending ∧
    (∃ x, note candles = .value x ∧
      (x ∈ Set.Icc (-1) (-2 / 5) ∨ x = 0 ∨ x ∈ Set.Icc (2 / 5) 1)) ∧
    note { close := [0, -4, -8, -7] } = (note candles).opposite ∧
    note { close := [100, 104, 108, 107] } = note candles ∧
    note { close := [0, 12, 24, 21] } = note candles := by
  intro before candles note
  obtain ⟨hpending, hband, hneg, hadd, hmul⟩ := momentum_note 2 before candles
  have hvalue : note candles ≠ .pending := mt hpending.1 (by decide)
  refine ⟨hvalue, hband hvalue, hneg _ ?_, hadd _ 100 ?_, hmul _ 3 (by decide +kernel) ?_⟩
  · decide +kernel
  · decide +kernel
  · decide +kernel

end Evaluator

end MarketEngine
