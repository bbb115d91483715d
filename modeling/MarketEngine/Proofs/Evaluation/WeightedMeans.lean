import MarketEngine.Evaluation.Strategy
import MarketEngine.Proofs.Exact
import MarketEngine.Proofs.Lists
import MarketEngine.Proofs.Tables
import Mathlib.Algebra.BigOperators.Ring.List
import Mathlib.Algebra.Order.BigOperators.Group.List
import Mathlib.Algebra.Order.Field.Rat
import Mathlib.Data.Set.Finite.Lemmas
/-!
# Weighted means

With exact amounts and weights that are not negative, a weighted mean is a mean indeed: it lies
between the least and the greatest of the values that have a weight, and it is pending where there
are none (`WeightedMean.mean_within`). It is a quotient of two sums over the entries of a snapshot,
to which an entry without a value, or one without a weight, adds nothing
(`WeightedMean.note_exactly`).
-/

namespace MarketEngine

/-- The value of an evaluator's entry, if it has one. -/
def MatrixEntry.reading? (e : MatrixEntry Exact) : Option ℚ :=
  match e.kind, e.note with
  | .strategies, _ => none
  | _, .value (.number x) => some x
  | _, _ => none

namespace WeightedMean

/-- The mean with these weights. -/
def exactly (weights : Table String ℚ) : WeightedMean Exact :=
  ⟨weights.map fun entry => (entry.1, .number entry.2)⟩

/-- The weight of an evaluator, one if it has none of its own. -/
def weightOf (weights : Table String ℚ) (name : String) : ℚ := (weights.get? name).getD 1

/-- What an entry adds to the sum of the weighted values. -/
def worth (weights : Table String ℚ) (e : MatrixEntry Exact) : ℚ :=
  e.reading?.elim 0 fun x => x * weightOf weights e.name

/-- What an entry adds to the sum of the weights. -/
def share (weights : Table String ℚ) (e : MatrixEntry Exact) : ℚ :=
  e.reading?.elim 0 fun _ => weightOf weights e.name

/-- The values of the evaluators' entries that have a positive weight. -/
def weighed (weights : Table String ℚ) (s : MatrixSnapshot Exact) : Set ℚ :=
  {x | ∃ e ∈ s, e.reading? = some x ∧ 0 < weightOf weights e.name}

/-- The entry has no say: its note is pending or no number, or its evaluator has the weight zero. -/
def isIdle (weights : Table String ℚ) (e : MatrixEntry Exact) : Bool :=
  match e.note with
  | .value (.number _) => weightOf weights e.name == 0
  | .value .undefined => true
  | .pending => true

/-! ## The two sums -/

/-- An evaluator has its own weight or one. -/
@[simp] theorem weight_exactly (weights : Table String ℚ) (name : String) :
    (exactly weights).weight name = .number (weightOf weights name) := by
  rw [weight, exactly, Table.get?_map, weightOf]
  cases weights.get? name <;> rfl

/-- An entry goes into the mean if it has a value and is none of a strategy. -/
theorem inputs_cons (e : MatrixEntry Exact) (s : MatrixSnapshot Exact) :
    inputs (e :: s) = (e.reading?.map fun x => (e.name, Exact.number x)).toList ++ inputs s := by
  obtain ⟨kind, name, t, note⟩ := e
  cases kind <;> rcases note with (x | _) | _ <;> rfl

/-- The mean divides the sum of the weighted values by the sum of the weights. -/
theorem sums_exactly (weights : Table String ℚ) (s : MatrixSnapshot Exact) :
    (exactly weights).sums (inputs s) =
      (.number (s.map (worth weights)).sum, .number (s.map (share weights)).sum) := by
  -- the sums grow entry by entry from whatever they were
  have hfrom : ∀ total weight : ℚ, (inputs s).foldl
      (fun sums input => (sums.1 + input.2 * (exactly weights).weight input.1,
        sums.2 + (exactly weights).weight input.1)) (Exact.number total, Exact.number weight) =
      (.number (total + (s.map (worth weights)).sum),
        .number (weight + (s.map (share weights)).sum)) := by
    induction s with
    | nil => simp [inputs]
    | cons e s ih =>
      intro total weight
      rw [inputs_cons, List.foldl_append, List.map_cons, List.map_cons, List.sum_cons,
        List.sum_cons, ← add_assoc, ← add_assoc, ← ih]
      cases hreading : e.reading? with
      | none => simp [worth, share, hreading]
      | some x => simp [worth, share, hreading]
  have hall := hfrom 0 0
  rw [zero_add, zero_add] at hall
  exact hall

/-- The mean is the quotient of the two sums. -/
theorem note_exactly (weights : Table String ℚ) (s : MatrixSnapshot Exact) :
    (exactly weights).note s = if (s.map (share weights)).sum ≤ 0 then .pending
      else .value (.number ((s.map (worth weights)).sum / (s.map (share weights)).sum)) := by
  rw [note, sums_exactly]
  simp only [Exact.zero_eq, Exact.number_le]
  split
  · rfl
  · next hsome => rw [Exact.number_div _ (lt_of_not_ge hsome).ne']

/-! ## What the sums depend on -/

/-- An entry that has no say adds nothing to either sum. -/
theorem eq_zero_of_isIdle {weights : Table String ℚ} {e : MatrixEntry Exact}
    (h : isIdle weights e = true) : worth weights e = 0 ∧ share weights e = 0 := by
  obtain ⟨kind, name, t, note⟩ := e
  unfold worth share
  rcases note with (x | _) | _
  · have hweight : weightOf weights name = 0 := by simpa [isIdle] using h
    cases kind <;> simp [MatrixEntry.reading?, hweight]
  · cases kind <;> simp [MatrixEntry.reading?]
  · cases kind <;> simp [MatrixEntry.reading?]

/-- A sum does not change when what adds nothing is left out. -/
theorem sum_filter_of_eq_zero {β : Type} {f : β → ℚ} {p : β → Bool} (s : List β)
    (h : ∀ b, p b = false → f b = 0) : ((s.filter p).map f).sum = (s.map f).sum := by
  rw [sum_map_filter]
  refine congrArg List.sum (List.map_congr_left fun b _ => ?_)
  cases hb : p b with
  | true => rfl
  | false => exact (h b hb).symm

/-- Entries that have no say can be left out. -/
theorem note_filter (weights : Table String ℚ) (s : MatrixSnapshot Exact) :
    (exactly weights).note (s.filter fun e => !isIdle weights e) = (exactly weights).note s := by
  have hidle : ∀ e : MatrixEntry Exact, (!isIdle weights e) = false →
      worth weights e = 0 ∧ share weights e = 0 := fun e he => eq_zero_of_isIdle (by simpa using he)
  rw [note_exactly, note_exactly, sum_filter_of_eq_zero s fun e he => (hidle e he).1,
    sum_filter_of_eq_zero s fun e he => (hidle e he).2]

/-- The order of the entries does not count. -/
theorem note_perm {s s' : MatrixSnapshot Exact} (h : s'.Perm s) (weights : Table String ℚ) :
    (exactly weights).note s' = (exactly weights).note s := by
  rw [note_exactly, note_exactly, (h.map (worth weights)).sum_eq, (h.map (share weights)).sum_eq]

/-- With its weight an entry scales what it adds to both sums. -/
theorem eq_mul_of_weightOf {weights weights' : Table String ℚ} {e : MatrixEntry Exact} {c : ℚ}
    (h : e.kind ≠ .strategies → weightOf weights' e.name = c * weightOf weights e.name) :
    worth weights' e = c * worth weights e ∧ share weights' e = c * share weights e := by
  unfold worth share
  cases hreading : e.reading? with
  | none => simp
  | some x =>
    have hkind : e.kind ≠ .strategies := by
      intro hkind
      rw [MatrixEntry.reading?, hkind] at hreading
      cases hreading
    rw [h hkind]
    exact ⟨mul_left_comm _ _ _, rfl⟩

/-- A common factor of the weights cancels out. -/
theorem note_scaled {weights weights' : Table String ℚ} {s : MatrixSnapshot Exact} {c : ℚ}
    (hc : 0 < c) (h : ∀ e ∈ s, e.kind ≠ .strategies →
      weightOf weights' e.name = c * weightOf weights e.name) :
    (exactly weights').note s = (exactly weights).note s := by
  have hworth : (s.map (worth weights')).sum = c * (s.map (worth weights)).sum := by
    rw [← List.sum_map_mul_left]
    exact congrArg List.sum (List.map_congr_left fun e he => (eq_mul_of_weightOf (h e he)).1)
  have hshare : (s.map (share weights')).sum = c * (s.map (share weights)).sum := by
    rw [← List.sum_map_mul_left]
    exact congrArg List.sum (List.map_congr_left fun e he => (eq_mul_of_weightOf (h e he)).2)
  have hsign : c * (s.map (share weights)).sum ≤ 0 ↔ (s.map (share weights)).sum ≤ 0 := by
    rw [← not_lt, ← not_lt, mul_pos_iff_of_pos_left hc]
  rw [note_exactly, note_exactly, hworth, hshare, mul_div_mul_left _ _ hc.ne']
  simp only [hsign]

/-! ## Weights that are not negative -/

/-- Also an evaluator without a weight of its own has none below zero. -/
theorem weightOf_nonneg {weights : Table String ℚ} (h : ∀ entry ∈ weights, 0 ≤ entry.2)
    (name : String) : 0 ≤ weightOf weights name := by
  rw [weightOf]
  cases hfound : weights.get? name with
  | none => exact zero_le_one
  | some x =>
    obtain ⟨before, after, rfl, -⟩ := List.lookup_eq_some_iff.1 hfound
    exact h (name, x) (by simp)

section Nonneg

variable {weights : Table String ℚ} (h : ∀ entry ∈ weights, 0 ≤ entry.2)
  (s : MatrixSnapshot Exact)
include h

/-- No entry takes anything off the sum of the weights. -/
theorem share_nonneg (e : MatrixEntry Exact) : 0 ≤ share weights e := by
  rw [share]
  cases e.reading? with
  | none => exact le_refl 0
  | some x => exact weightOf_nonneg h e.name

/-- The weights add up to something exactly if some value has one. -/
theorem sum_share_pos_iff : 0 < (s.map (share weights)).sum ↔ (weighed weights s).Nonempty := by
  constructor
  · intro hpos
    by_contra hnone
    refine hpos.ne' (List.sum_eq_zero fun y hy => ?_)
    obtain ⟨e, he, rfl⟩ := List.mem_map.1 hy
    rw [share]
    cases hreading : e.reading? with
    | none => rfl
    | some x =>
      have hweight : ¬0 < weightOf weights e.name := fun hpos =>
        hnone ⟨x, e, he, hreading, hpos⟩
      exact le_antisymm (not_lt.1 hweight) (weightOf_nonneg h e.name)
  · rintro ⟨x, e, he, hreading, hweight⟩
    have hshare : share weights e = weightOf weights e.name := by rw [share, hreading]; rfl
    refine lt_of_lt_of_le (hshare ▸ hweight) (List.single_le_sum ?_ _ (List.mem_map_of_mem he))
    intro y hy
    obtain ⟨e', -, rfl⟩ := List.mem_map.1 hy
    exact share_nonneg h e'

/-- Bounds of the weighed values bound their weighted sum. -/
theorem sum_worth_between {lo hi : ℚ} (hlo : ∀ x ∈ weighed weights s, lo ≤ x)
    (hhi : ∀ x ∈ weighed weights s, x ≤ hi) :
    lo * (s.map (share weights)).sum ≤ (s.map (worth weights)).sum ∧
      (s.map (worth weights)).sum ≤ hi * (s.map (share weights)).sum := by
  have hentry : ∀ e ∈ s, lo * share weights e ≤ worth weights e ∧
      worth weights e ≤ hi * share weights e := by
    intro e he
    rw [share, worth]
    cases hreading : e.reading? with
    | none => simp
    | some x =>
      have hweight := weightOf_nonneg h e.name
      dsimp only [Option.elim_some]
      rcases hweight.eq_or_lt with hzero | hpos
      · simp [← hzero]
      · have hx : x ∈ weighed weights s := ⟨e, he, hreading, hpos⟩
        exact ⟨mul_le_mul_of_nonneg_right (hlo x hx) hweight,
          mul_le_mul_of_nonneg_right (hhi x hx) hweight⟩
  rw [← List.sum_map_mul_left, ← List.sum_map_mul_left]
  exact ⟨List.sum_le_sum fun e he => (hentry e he).1, List.sum_le_sum fun e he => (hentry e he).2⟩

end Nonneg

/-- A snapshot has finitely many values. -/
theorem finite_weighed (weights : Table String ℚ) (s : MatrixSnapshot Exact) :
    (weighed weights s).Finite := by
  refine (s.filterMap MatrixEntry.reading?).finite_toSet.subset ?_
  rintro x ⟨e, he, hreading, -⟩
  exact List.mem_filterMap.2 ⟨e, he, hreading⟩

/-- With weights that are not negative, and one for every evaluator that has none of its own, on
every snapshot:

* the strategy is pending exactly if no value of an evaluator's entry has a positive weight, and
  otherwise its note lies between the least and the greatest of the values that have one;
* its note is the same when the entries stand in another order;
* it is the same when the weights of all evaluators in the snapshot are multiplied by one positive
  factor;
* it is the same when entries are added or removed that are pending, no number or of weight zero. -/
theorem mean_within {weights : Table String ℚ} (h : ∀ entry ∈ weights, 0 ≤ entry.2)
    (s : MatrixSnapshot Exact) :
    let verdict := fun weights => (Strategy.weightedMean (exactly weights)).evaluate
    (verdict weights s = some .pending ↔ weighed weights s = ∅) ∧
    ((weighed weights s).Nonempty → ∃ least x greatest, IsLeast (weighed weights s) least ∧
      IsGreatest (weighed weights s) greatest ∧ least ≤ x ∧ x ≤ greatest ∧
      verdict weights s = some (.value (.number x))) ∧
    (∀ s', s'.Perm s → verdict weights s' = verdict weights s) ∧
    (∀ weights' c, 0 < c → (∀ e ∈ s, e.kind ≠ .strategies →
      weightOf weights' e.name = c * weightOf weights e.name) →
      verdict weights' s = verdict weights s) ∧
    ∀ s' : MatrixSnapshot Exact, (s'.filter fun e => !isIdle weights e)
      = s.filter (fun e => !isIdle weights e) → verdict weights s' = verdict weights s := by
  intro verdict
  have hpos := sum_share_pos_iff h s
  refine ⟨?_, fun hsome => ?_, fun s' hperm => congrArg some (note_perm hperm weights),
    fun weights' c hc hscaled => congrArg some (note_scaled hc hscaled), fun s' hsame => ?_⟩
  · rw [← Set.not_nonempty_iff_eq_empty, ← hpos, not_lt]
    simp only [verdict, Strategy.weightedMean, note_exactly, Option.some.injEq]
    split <;> simp_all
  · obtain ⟨least, hleast, hlo⟩ := Set.exists_min_image _ id (finite_weighed weights s) hsome
    obtain ⟨greatest, hgreatest, hhi⟩ := Set.exists_max_image _ id (finite_weighed weights s) hsome
    have hweight := hpos.2 hsome
    obtain ⟨hbelow, habove⟩ := sum_worth_between h s hlo hhi
    refine ⟨least, (s.map (worth weights)).sum / (s.map (share weights)).sum, greatest,
      ⟨hleast, hlo⟩, ⟨hgreatest, hhi⟩, (le_div_iff₀ hweight).2 hbelow,
      (div_le_iff₀ hweight).2 habove, congrArg some ?_⟩
    rw [note_exactly, if_neg (not_le.2 hweight)]
  · refine congrArg some ?_
    rw [← note_filter weights s', hsame, note_filter]

/-- A mean of three values, among entries that are not counted: the note of the old verdict, one
that is no number, and one of weight zero. -/
theorem mean_within_mixed :
    let weights : Table String ℚ := [("news", 2), ("mute", 0)]
    let weights' : Table String ℚ := [("rsi", 3), ("odd", 3), ("news", 6), ("mute", 0)]
    let hourly : MatrixEntry Exact := ⟨.technical, "rsi", some .oneHour, .value (.number 1)⟩
    let daily : MatrixEntry Exact := ⟨.technical, "rsi", some .oneDay, .value (.number 0)⟩
    let news : MatrixEntry Exact := ⟨.social, "news", none, .value (.number (-1))⟩
    let odd : MatrixEntry Exact := ⟨.realTime, "odd", none, .value .undefined⟩
    let mute : MatrixEntry Exact := ⟨.social, "mute", none, .value (.number 100)⟩
    let old : MatrixEntry Exact := ⟨.strategies, "old", none, .value (.number 5)⟩
    let s : MatrixSnapshot Exact := [hourly, daily, news, mute, odd, old]
    let verdict := fun weights => (Strategy.weightedMean (exactly weights)).evaluate
    (∀ entry ∈ weights, 0 ≤ entry.2) ∧ (weighed weights s).Nonempty ∧
    (∃ least x greatest, IsLeast (weighed weights s) least ∧
      IsGreatest (weighed weights s) greatest ∧ least ≤ x ∧ x ≤ greatest ∧
      verdict weights s = some (.value (.number x))) ∧
    verdict weights [old, odd, mute, news, daily, hourly] = verdict weights s ∧
    verdict weights' s = verdict weights s ∧
    verdict weights [hourly, daily, news, old] = verdict weights s := by
  intro weights weights' hourly daily news odd mute old s verdict
  have hweights : ∀ entry ∈ weights, 0 ≤ entry.2 := by decide +kernel
  have hsome : (weighed weights s).Nonempty := ⟨1, hourly, by simp [s], rfl, by decide +kernel⟩
  obtain ⟨-, hbetween, hperm, hscaled, hidle⟩ := mean_within hweights s
  refine ⟨hweights, hsome, hbetween hsome, hperm _ ?_, hscaled weights' 3 ?_ ?_, hidle _ ?_⟩
  · exact List.reverse_perm s
  · decide +kernel
  · decide +kernel
  · rfl

end WeightedMean

end MarketEngine
