import MarketEngine.Proofs.Comparison
import MarketEngine.Proofs.Market.BoundedSeries
/-!
# Snapshots of candles

A snapshot of a series is a copy of its last rows, as many as the limit asks for, and the last of
them holds its own close. `snapshot_extend` says which rows and columns it has, how its last row may
differ from the stored one, and that a narrower snapshot is the end of a wider one. The series
itself keeps its candles as they were taken in.
-/

namespace MarketEngine

variable {α : Type} [Amount α]

/-! ## Holding the close -/

namespace Candle

/-- A candle that holds its close reaches up or down to it where it did not, and is otherwise the
same. -/
theorem holdClose_eq (c : Candle α) : c.holdClose = { c with
    high := if c.high < c.close then c.close else c.high
    low := if c.close < c.low then c.close else c.low } := by
  unfold holdClose
  by_cases hhigh : c.high < c.close
  · by_cases hlow : c.close < c.low <;> simp [hhigh, hlow]
  · by_cases hlow : c.close < c.low <;> simp [hhigh, hlow]

variable [ComparableAmount α]

/-- The low that holds the close is not above it, unless one of them is no number. -/
theorem low_le_close_holdClose {c : Candle α} (hlow : Amount.isUndefined c.low = false)
    (hclose : Amount.isUndefined c.close = false) : c.holdClose.low ≤ c.holdClose.close := by
  rw [holdClose_eq]
  dsimp only
  split
  · exact Amount.le_refl hclose
  · next h => exact ComparableAmount.le_of_not_lt hclose hlow h

/-- The high that holds the close is not below it, unless one of them is no number. -/
theorem close_le_high_holdClose {c : Candle α} (hhigh : Amount.isUndefined c.high = false)
    (hclose : Amount.isUndefined c.close = false) : c.holdClose.close ≤ c.holdClose.high := by
  rw [holdClose_eq]
  dsimp only
  split
  · exact Amount.le_refl hclose
  · next h => exact ComparableAmount.le_of_not_lt hhigh hclose h

/-- A candle that holds its close differs from what it was only in a high that was raised to the
close or a low that was lowered to it. -/
theorem holdClose_spec (c : Candle α) :
    c.holdClose.time = c.time ∧ c.holdClose.opening = c.opening ∧ c.holdClose.close = c.close ∧
    c.holdClose.volume = c.volume ∧
    (c.holdClose.high = c.high ∨ c.high < c.close ∧ c.holdClose.high = c.close) ∧
    (c.holdClose.low = c.low ∨ c.close < c.low ∧ c.holdClose.low = c.close) ∧
    (Amount.isUndefined c.high = false → Amount.isUndefined c.low = false →
      Amount.isUndefined c.close = false →
        c.holdClose.low ≤ c.holdClose.close ∧ c.holdClose.close ≤ c.holdClose.high) := by
  have hrange := fun hhigh hlow hclose => And.intro
    (low_le_close_holdClose (c := c) hlow hclose) (close_le_high_holdClose (c := c) hhigh hclose)
  rw [holdClose_eq] at hrange ⊢
  refine ⟨rfl, rfl, rfl, rfl, ?_, ?_, hrange⟩
  · by_cases hhigh : c.high < c.close
    · exact .inr ⟨hhigh, if_pos hhigh⟩
    · exact .inl (if_neg hhigh)
  · by_cases hlow : c.close < c.low
    · exact .inr ⟨hlow, if_pos hlow⟩
    · exact .inl (if_neg hlow)

end Candle

/-- The rows with the close held in the last one. -/
def holdLast (rows : List (Candle α)) : List (Candle α) :=
  rows.dropLast ++ (rows.getLast?.map Candle.holdClose).toList

/-- Only the live candle is repaired. -/
theorem holdLast_concat (front : List (Candle α)) (live : Candle α) :
    holdLast (front ++ [live]) = front ++ [live.holdClose] := by
  simp [holdLast]

/-- No row is added or lost. -/
theorem length_holdLast (rows : List (Candle α)) : (holdLast rows).length = rows.length := by
  rcases List.eq_nil_or_concat' rows with rfl | ⟨front, live, rfl⟩
  · rfl
  · simp [holdLast_concat]

/-- The closed candles stay as they are. -/
theorem dropLast_holdLast (rows : List (Candle α)) : (holdLast rows).dropLast = rows.dropLast := by
  rcases List.eq_nil_or_concat' rows with rfl | ⟨front, live, rfl⟩
  · rfl
  · rw [holdLast_concat, List.dropLast_concat, List.dropLast_concat]

/-- The live candle holds its close. -/
theorem getLast?_holdLast (rows : List (Candle α)) :
    (holdLast rows).getLast? = rows.getLast?.map Candle.holdClose := by
  rcases List.eq_nil_or_concat' rows with rfl | ⟨front, live, rfl⟩
  · rfl
  · rw [holdLast_concat, List.getLast?_concat, List.getLast?_concat, Option.map_some]

/-- The last row of some last rows is that of all rows. -/
theorem holdLast_suffix {rows rows' : List (Candle α)} (h : rows <:+ rows') :
    holdLast rows <:+ holdLast rows' := by
  obtain ⟨older, rfl⟩ := h
  rcases List.eq_nil_or_concat' rows with rfl | ⟨front, live, rfl⟩
  · exact List.nil_suffix
  · rw [← List.append_assoc, holdLast_concat, holdLast_concat, List.append_assoc]
    exact List.suffix_append older _

/-! ## Snapshots -/

namespace CandleSeries

/-- How many rows a snapshot has. -/
def rowsWithin (s : CandleSeries α) (limit : Option Nat) : Nat := limit.elim s.size (min · s.size)

variable {s : CandleSeries α} {rows : List (Candle α)}

/-- A snapshot has the last rows of the series, with the close held in the last one. -/
theorem snapshot_eq (hs : s.toCandleColumns = .ofRows rows) (limit : Option Nat) :
    s.snapshot limit = .ofRows (holdLast (rows.rtake (s.rowsWithin limit))) := by
  have hsize : s.size = rows.length := by rw [hs, CandleColumns.size_ofRows]
  have hkept : s.drop (limit.elim 0 (s.size - ·)) = .ofRows (rows.rtake (s.rowsWithin limit)) := by
    rw [rowsWithin, hsize, hs, CandleColumns.drop_ofRows, List.rtake]
    cases limit with
    | none => simp
    | some n => simp only [Option.elim_some]; congr 2; omega
  rw [snapshot, hkept, CandleColumns.last?_ofRows]
  rcases List.eq_nil_or_concat' (rows.rtake (s.rowsWithin limit)) with hnil | ⟨front, live, hlast⟩
  · rw [hnil]
    rfl
  · rw [hlast, List.getLast?_concat, holdLast_concat]
    exact CandleColumns.setLast_ofRows front live live.holdClose

omit [Amount α] in
/-- A snapshot has as many rows as the limit and the series allow. -/
theorem length_rtake_rowsWithin (hs : s.toCandleColumns = .ofRows rows) (limit : Option Nat) :
    (rows.rtake (s.rowsWithin limit)).length = s.rowsWithin limit := by
  have hsize : s.size = rows.length := by rw [hs, CandleColumns.size_ofRows]
  have hle : s.rowsWithin limit ≤ rows.length := by
    rw [rowsWithin, hsize]
    cases limit with
    | none => exact Nat.le_refl _
    | some n => exact Nat.min_le_right n _
  rw [List.rtake, List.length_drop]
  omega

omit [Amount α] in
/-- Fewer of the last rows are a suffix of more of them. -/
theorem rtake_suffix_rtake (rows : List (Candle α)) {n m : Nat} (h : n ≤ m) :
    rows.rtake n <:+ rows.rtake m := by
  rw [List.rtake, List.rtake]
  exact List.drop_suffix_drop_left rows (by omega)

omit [Amount α] in
/-- The last of some last rows is the last of all. -/
theorem getLast?_of_rtake {n : Nat} {live : Candle α} (h : (rows.rtake n).getLast? = some live) :
    rows.getLast? = some live := by
  obtain ⟨front, hfront⟩ := List.getLast?_eq_some_iff.1 h
  obtain ⟨older, holder⟩ := List.drop_suffix (rows.length - n) rows
  rw [← holder, ← List.rtake, hfront, ← List.append_assoc, List.getLast?_concat]

/-- A series holds the candles that it took in, batch by batch, as they came. Of its rows a snapshot
has as many as its limit allows, the newest ones, in six columns of that length. They are the stored
rows but for the high and the low of the last one: the high may have been raised to the close, and
the low lowered to it, so that the close lies between them, if the three are numbers. A snapshot
with fewer rows is the end of one with more. -/
theorem snapshot_extend [ComparableAmount α] (most : Nat) (batches : List (List (Candle α))) :
    let s := batches.foldl extend (empty most)
    s.rows = (CandleHistory.ofUpdates batches.flatten).rtake (max most 1) ∧
    ∀ limit,
      let c := s.snapshot limit
      let n := s.rowsWithin limit
      (c.time.length = n ∧ c.opening.length = n ∧ c.high.length = n ∧ c.low.length = n ∧
        c.close.length = n ∧ c.volume.length = n) ∧
      c = .ofRows c.rows ∧
      c.rows.dropLast = (s.rows.rtake n).dropLast ∧
      (∀ row ∈ c.rows.getLast?, ∃ stored ∈ s.rows.getLast?,
        row.time = stored.time ∧ row.opening = stored.opening ∧ row.close = stored.close ∧
        row.volume = stored.volume ∧
        (row.high = stored.high ∨ stored.high < stored.close ∧ row.high = stored.close) ∧
        (row.low = stored.low ∨ stored.close < stored.low ∧ row.low = stored.close) ∧
        (Amount.isUndefined stored.high = false → Amount.isUndefined stored.low = false →
          Amount.isUndefined stored.close = false → row.low ≤ row.close ∧ row.close ≤ row.high)) ∧
      ∀ wider, n ≤ s.rowsWithin wider → c.rows <:+ (s.snapshot wider).rows := by
  intro s
  have hs : s.toCandleColumns
      = .ofRows ((CandleHistory.ofUpdates batches.flatten).rtake (max most 1)) := by
    have heq : s = ofUpdates most batches.flatten := foldl_extend (empty most) batches
    rw [heq, ofUpdates_eq, newest]
  -- from here on only the rows matter, not how they came
  generalize (CandleHistory.ofUpdates batches.flatten).rtake (max most 1) = rows at hs
  have hrows : s.rows = rows := by rw [hs, CandleColumns.rows_ofRows]
  refine ⟨hrows, fun limit => ?_⟩
  have hlength := length_rtake_rowsWithin hs limit
  simp only [snapshot_eq hs, CandleColumns.rows_ofRows, hrows]
  refine ⟨?_, trivial, dropLast_holdLast _, fun row hrow => ?_, fun wider hle => ?_⟩
  · simp [CandleColumns.ofRows, length_holdLast, hlength]
  · rw [getLast?_holdLast] at hrow
    obtain ⟨live, hlive, rfl⟩ := Option.map_eq_some_iff.1 hrow
    exact ⟨live, getLast?_of_rtake hlive, live.holdClose_spec⟩
  · exact holdLast_suffix (rtake_suffix_rtake rows hle)

/-- Two of three rows, of which the last one was taken in anew with a close above its high. -/
theorem snapshot_extend_live :
    let s : CandleSeries Float := [[⟨0, 1, 2, 0, 1, 10⟩, ⟨60, 2, 3, 1, 2, 10⟩,
      ⟨120, 3, 4, 2, 3, 10⟩], [⟨120, 3, 3.5, 2.5, 4, 1⟩]].foldl extend (empty 10)
    (s.snapshot (some 2)).time.length = 2 ∧
    (∀ row ∈ (s.snapshot (some 2)).rows.getLast?, row.close = 4 ∧ row.close ≤ row.high) ∧
    (s.snapshot (some 2)).rows <:+ (s.snapshot none).rows := by
  intro s
  obtain ⟨hrows, hsnapshot⟩ := snapshot_extend 10 [[⟨0, 1, 2, 0, 1, 10⟩, ⟨60, 2, 3, 1, 2, 10⟩,
    ⟨120, 3, 4, 2, 3, 10⟩], [⟨120, (3 : Float), 3.5, 2.5, 4, 1⟩]]
  obtain ⟨⟨htime, -⟩, -, -, hlast, hwider⟩ := hsnapshot (some 2)
  refine ⟨htime, fun row hrow => ?_, hwider none (by decide)⟩
  obtain ⟨stored, hstored, -, -, hclose, -, -, -, hrange⟩ := hlast row hrow
  rw [hrows] at hstored
  obtain rfl : ⟨120, 3, 3.5, 2.5, 4, 1⟩ = stored := Option.some.inj hstored
  exact ⟨hclose, (hrange (by decide +kernel) (by decide +kernel) (by decide +kernel)).2⟩

end CandleSeries

end MarketEngine
