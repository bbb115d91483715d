import MarketEngine.Market.Board
import Mathlib.Data.List.DropRight
/-!
# Merging the polls of a time frame

The candles of a time frame are polled again and again. Each poll brings the newest part of the
history that the exchange has at that moment: it overlaps what is known, the candle that was live
has new values or has closed, and several candles may have opened since. `updateCandles_merges`
says that the series of a time frame holds exactly the newest candles, as many as it has room for,
of the last history from the first candle that was ever polled: nothing is lost, doubled or left
with the values of a candle that had not closed yet.
-/

namespace MarketEngine

variable {α : Type}

namespace CandleColumns

/-- The columns of a list of rows. -/
def ofRows (rows : List (Candle α)) : CandleColumns α where
  time := rows.map (·.time)
  opening := rows.map (·.opening)
  high := rows.map (·.high)
  low := rows.map (·.low)
  close := rows.map (·.close)
  volume := rows.map (·.volume)

/-- The rows of columns are those that the columns were made of. -/
@[simp]
theorem rows_ofRows (rows : List (Candle α)) : (ofRows rows).rows = rows := by
  induction rows with
  | nil => simp [ofRows, CandleColumns.rows]
  | cons row rest ih =>
    rw [ofRows] at ih
    simp [ofRows, CandleColumns.rows, ih]

/-- The columns are as long as there are rows. -/
@[simp]
theorem size_ofRows (rows : List (Candle α)) : (ofRows rows).size = rows.length := by
  simp [ofRows, size]

/-- The first rows are dropped from each column. -/
theorem drop_ofRows (rows : List (Candle α)) (n : Nat) :
    (ofRows rows).drop n = ofRows (rows.drop n) := by
  simp [ofRows, drop]

/-- A row is added to each column. -/
theorem push_ofRows (rows : List (Candle α)) (row : Candle α) :
    (ofRows rows).push row = ofRows (rows ++ [row]) := by
  simp [ofRows, push]

/-- The last row is replaced in each column. -/
theorem setLast_ofRows (rows : List (Candle α)) (live row : Candle α) :
    (ofRows (rows ++ [live])).setLast row = ofRows (rows ++ [row]) := by
  simp [ofRows, setLast, dropLast, push]

end CandleColumns

namespace CandleSeries

/-- The series that holds the newest `n` candles of a list. -/
def newest (n : Nat) (candles : List (Candle α)) : CandleSeries α where
  toCandleColumns := .ofRows (candles.rtake n)
  capacity := n

variable {n : Nat} {candles : List (Candle α)}

/-- A series is as long as its candles, up to its capacity. -/
theorem size_newest : (newest n candles).size = min n candles.length := by
  rw [newest, CandleColumns.size_ofRows, List.rtake, List.length_drop]
  omega

/-- A full series loses its oldest candle for the new one, and one that is not full keeps all. -/
theorem append_newest (row : Candle α) :
    (newest (n + 1) candles).append row = newest (n + 1) (candles ++ [row]) := by
  have hpush : newest (n + 1) (candles ++ [row]) =
      { newest (n + 1) candles with
        toCandleColumns := (CandleColumns.ofRows (candles.rtake n)).push row } := by
    rw [CandleColumns.push_ofRows, ← List.rtake_concat_succ]
    rfl
  rw [append, hpush]
  dsimp only
  split
  · next hfull =>
    have hlength : n + 1 ≤ candles.length := by
      rw [size_newest] at hfull
      have : min (n + 1) candles.length = n + 1 := hfull
      omega
    have hdrop : (candles.rtake (n + 1)).drop 1 = candles.rtake n := by
      rw [List.rtake, List.rtake, List.drop_drop]
      congr 1
      omega
    rw [newest, CandleColumns.drop_ofRows, hdrop]
  · next hroom =>
    have hlength : candles.length ≤ n := by
      rw [size_newest] at hroom
      have : ¬ min (n + 1) candles.length = n + 1 := hroom
      omega
    have hall : candles.rtake (n + 1) = candles.rtake n := by
      rw [List.rtake, List.rtake]
      congr 1
      omega
    rw [newest, hall]

/-- The live candle is the last one of the series. -/
theorem getLast?_time_newest (live : Candle α) :
    (newest (n + 1) (candles ++ [live])).time.getLast? = some live.time := by
  simp [newest, CandleColumns.ofRows]

/-- A candle that opened before the live one is ignored. -/
theorem update_older {live row : Candle α} (h : row.time < live.time) :
    ((newest (n + 1) (candles ++ [live])).update row).1 = newest (n + 1) (candles ++ [live]) := by
  rw [update, getLast?_time_newest]
  simp only [if_neg (Int.ne_of_lt h), if_pos h]

/-- A candle that opened with the live one takes its place. -/
theorem update_live {live row : Candle α} (h : row.time = live.time) :
    ((newest (n + 1) (candles ++ [live])).update row).1 = newest (n + 1) (candles ++ [row]) := by
  rw [update, getLast?_time_newest]
  simp only [if_pos h, newest, List.rtake_concat_succ, CandleColumns.setLast_ofRows]

/-- A candle that opened after all others comes behind them. -/
theorem update_newer {row : Candle α} (h : ∀ c ∈ candles, c.time < row.time) :
    ((newest (n + 1) candles).update row).1 = newest (n + 1) (candles ++ [row]) := by
  rw [← append_newest]
  rcases List.eq_nil_or_concat' candles with rfl | ⟨closed, live, rfl⟩
  · simp [update, newest, CandleColumns.ofRows]
  · have hlive : live.time < row.time := h live (by simp)
    rw [update, getLast?_time_newest]
    simp only [if_neg (Int.ne_of_gt hlive), if_neg (Int.lt_asymm hlive)]

/-- Candles that opened before the last one change nothing. -/
theorem extend_older {live : Candle α} {older : List (Candle α)}
    (h : ∀ c ∈ older, c.time < live.time) :
    (newest (n + 1) (candles ++ [live])).extend older = newest (n + 1) (candles ++ [live]) := by
  induction older with
  | nil => rfl
  | cons c rest ih =>
    rw [extend, List.foldl_cons, update_older (h c (by simp)), ← extend]
    exact ih fun c hc => h c (by simp [hc])

/-- Candles that open one after the other, and later than all there are, are all appended. -/
theorem extend_newer {newer : List (Candle α)}
    (h : (candles ++ newer).Pairwise (·.time < ·.time)) :
    (newest (n + 1) candles).extend newer = newest (n + 1) (candles ++ newer) := by
  induction newer generalizing candles with
  | nil => simp [extend]
  | cons c rest ih =>
    have hc : ∀ c' ∈ candles, c'.time < c.time := fun c' hc' =>
      (List.pairwise_append.1 h).2.2 c' hc' c (by simp)
    rw [List.append_cons] at h ⊢
    rw [extend, List.foldl_cons, update_newer hc, ← extend, ih h]

end CandleSeries

/-- What a poll of a time frame meets: the candles that the exchange has at that moment, and the
batch of them that it hands out. -/
structure Reading (α : Type) where
  history : List (Candle α)
  batch : List (Candle α)

namespace Reading

/-- The candles open one after the other, and the batch is the newest part of them. -/
structure IsWindow (r : Reading α) : Prop where
  increasing : r.history.Pairwise (·.time < ·.time)
  nonempty : r.batch ≠ []
  newest : r.batch <:+ r.history

/-- Since the reading `r` the live candle, its last one, may have got other values, and newer ones
may have opened; the batch goes back to where the one before ended. -/
structure Follows (r r' : Reading α) : Prop where
  keeps : ∃ closed live live' newer, r.history = closed ++ [live] ∧
    r'.history = closed ++ live' :: newer ∧ live'.time = live.time
  overlaps : ∀ last ∈ r.batch.getLast?, ∃ c ∈ r'.batch, c.time = last.time

/-- The history from the candle that opened at `start`. -/
def since (r : Reading α) (start : Int) : List (Candle α) := r.history.dropWhile (·.time != start)

variable {r r' : Reading α} {start : Int}

/-- Only one part of a history begins with the candle that opened at `start`. -/
theorem IsWindow.since_eq (w : r.IsWindow) {part : List (Candle α)} (hpart : part <:+ r.history)
    (hstart : part.head?.map (·.time) = some start) : r.since start = part := by
  obtain ⟨older, hhistory⟩ := hpart
  obtain ⟨c, hc, rfl⟩ := Option.map_eq_some_iff.1 hstart
  obtain ⟨rest, rfl⟩ := List.head?_eq_some_iff.1 hc
  have holder : ∀ o ∈ older, o.time < c.time := by
    have hincreasing := w.increasing
    rw [← hhistory] at hincreasing
    exact fun o ho => (List.pairwise_append.1 hincreasing).2.2 o ho c (by simp)
  rw [since, ← hhistory, List.dropWhile_append_of_pos]
  · simp
  · intro o ho
    simpa using Int.ne_of_lt (holder o ho)

/-- The batch splits where the part that is known ends: candles that are closed already, the one
that was live, and those that opened since. -/
theorem Follows.batch_eq (h : r.Follows r') (w : r.IsWindow) (w' : r'.IsWindow) :
    ∃ closed live live' newer older, r.history = closed ++ [live] ∧
      r'.history = closed ++ live' :: newer ∧ live'.time = live.time ∧
      r'.batch = older ++ live' :: newer ∧ ∀ c ∈ older, c.time < live.time := by
  obtain ⟨closed, live, live', newer, hhistory, hhistory', htime⟩ := h.keeps
  obtain ⟨lost, hlost⟩ := w'.newest
  have hincreasing := w'.increasing
  rw [hhistory'] at hincreasing hlost
  have hclosed : ∀ c ∈ closed, c.time < live'.time := fun c hc =>
    (List.pairwise_append.1 hincreasing).2.2 c hc live' (by simp)
  have hnewer : ∀ c ∈ newer, live'.time < c.time :=
    (List.pairwise_cons.1 (List.pairwise_append.1 hincreasing).2.1).1
  -- the batch goes back to the candle that was live, so it cannot begin among the newer ones
  have hlast : r.batch.getLast? = some live := by
    obtain ⟨before, hbefore⟩ := w.newest
    have hend := congrArg List.getLast? hbefore
    rwa [List.getLast?_append_of_ne_nil _ w.nonempty, hhistory, List.getLast?_concat] at hend
  obtain ⟨c, hc, hctime⟩ := h.overlaps live hlast
  rcases List.append_eq_append_iff.1 hlost with ⟨older, rfl, hbatch⟩ | ⟨rest, hrest, hnewest⟩
  · refine ⟨_, live, live', newer, older, hhistory, hhistory', htime, hbatch, ?_⟩
    intro o ho
    rw [← htime]
    exact hclosed o (by simp [ho])
  · rcases rest with _ | ⟨o, rest⟩
    · refine ⟨closed, live, live', newer, [], hhistory, hhistory', htime, ?_, by simp⟩
      simpa using hnewest.symm
    · obtain ⟨rfl, rfl⟩ : live' = o ∧ newer = rest ++ r'.batch := by simpa using hnewest
      have hlater := hnewer c (by simp [hc])
      omega

/-- A poll carries a series over from the newest candles of one history to those of the next. -/
theorem Follows.extend_newest (h : r.Follows r') (w : r.IsWindow) (w' : r'.IsWindow) {n : Nat}
    (hstart : (r.since start).head?.map (·.time) = some start) :
    (CandleSeries.newest (n + 1) (r.since start)).extend r'.batch =
        CandleSeries.newest (n + 1) (r'.since start) ∧
      (r'.since start).head?.map (·.time) = some start := by
  obtain ⟨closed, live, live', newer, older, hhistory, hhistory', htime, hbatch, holder⟩ :=
    h.batch_eq w w'
  obtain ⟨lost, hlost⟩ : r.since start <:+ r.history := List.dropWhile_suffix _
  -- the part that is known ends with the live candle
  obtain ⟨known, hknown⟩ : ∃ known, r.since start = known ++ [live] := by
    have hne : r.since start ≠ [] := by
      intro hnil
      simp [hnil] at hstart
    have hend := congrArg List.getLast? hlost
    rw [List.getLast?_append_of_ne_nil _ hne, hhistory, List.getLast?_concat] at hend
    exact ⟨_, (List.dropLast_append_getLast? live hend).symm⟩
  have hclosed : closed = lost ++ known := by
    rw [hknown, hhistory, ← List.append_assoc] at hlost
    exact (List.append_inj' hlost rfl).1.symm
  have hpart : known ++ live' :: newer <:+ r'.history := by
    rw [hhistory', hclosed, List.append_assoc]
    exact List.suffix_append ..
  have hstart' : (known ++ live' :: newer).head?.map (·.time) = some start := by
    rw [hknown] at hstart
    cases known <;> simpa [htime] using hstart
  rw [w'.since_eq hpart hstart']
  refine ⟨?_, hstart'⟩
  have hincreasing : (known ++ [live'] ++ newer).Pairwise (·.time < ·.time) := by
    rw [List.append_assoc]
    exact w'.increasing.sublist hpart.sublist
  calc (CandleSeries.newest (n + 1) (r.since start)).extend r'.batch
      = ((CandleSeries.newest (n + 1) (known ++ [live])).extend older).extend (live' :: newer) := by
        rw [hknown, hbatch]
        simp only [CandleSeries.extend, List.foldl_append]
    _ = (((CandleSeries.newest (n + 1) (known ++ [live])).update live').1).extend newer := by
        rw [CandleSeries.extend_older holder]
        rfl
    _ = CandleSeries.newest (n + 1) (known ++ live' :: newer) := by
        rw [CandleSeries.update_live htime, CandleSeries.extend_newer hincreasing,
          List.append_assoc]
        rfl

end Reading

/-- A sequence of polls of a time frame, none of which left a gap. -/
structure IsFeed (readings : List (Reading α)) : Prop where
  windows : ∀ r ∈ readings, r.IsWindow
  follows : readings.IsChain Reading.Follows

/-- The polls of a feed carry the newest candles over from its first history to its last. -/
theorem IsFeed.foldl_extend {r : Reading α} {later : List (Reading α)} {start : Int} {n : Nat}
    (feed : IsFeed (r :: later)) (hstart : (r.since start).head?.map (·.time) = some start) :
    (later.map (·.batch)).foldl CandleSeries.extend
        (CandleSeries.newest (n + 1) (r.since start)) =
      CandleSeries.newest (n + 1)
        (((r :: later).getLast (List.cons_ne_nil _ _)).since start) := by
  induction later generalizing r with
  | nil => rfl
  | cons r' later ih =>
    obtain ⟨hfollows, hrest⟩ := List.isChain_cons_cons.1 feed.follows
    obtain ⟨hextend, hstart'⟩ :=
      hfollows.extend_newest (feed.windows r (by simp)) (feed.windows r' (by simp)) hstart
    have htail : IsFeed (r' :: later) := ⟨fun w hw => feed.windows w (by simp [hw]), hrest⟩
    rw [List.map_cons, List.foldl_cons, hextend, ih htail hstart', List.getLast_cons_cons]

namespace Board

/-- The batches of one time frame, in the order in which they came. -/
def batchesOf (t : TimeFrame) (writes : List (TimeFrame × List (Candle α))) :
    List (List (Candle α)) :=
  (writes.filter (·.1 = t)).map (·.2)

/-- The series of a time frame with one more batch. -/
def extended (mostCandles : Nat) (s : Option (CandleSeries α)) (batch : List (Candle α)) :
    Option (CandleSeries α) :=
  some ((s.getD (CandleSeries.empty mostCandles)).extend batch)

/-- Once there is a series, further batches extend it. -/
theorem foldl_extended (mostCandles : Nat) (s : CandleSeries α)
    (batches : List (List (Candle α))) :
    batches.foldl (extended mostCandles) (some s) =
      some (batches.foldl CandleSeries.extend s) := by
  induction batches generalizing s with
  | nil => rfl
  | cons batch rest ih => exact ih (s.extend batch)

/-- Only the batches of a time frame count for its series. -/
theorem get?_series_foldl {mostCandles : Nat} {t : TimeFrame}
    (writes : List (TimeFrame × List (Candle α))) (hne : ∀ batch ∈ batchesOf t writes, batch ≠ [])
    (b : Board α) :
    (writes.foldl (fun b w => b.updateCandles mostCandles w.1 w.2) b).series.get? t =
      (batchesOf t writes).foldl (extended mostCandles) (b.series.get? t) := by
  induction writes generalizing b with
  | nil => rfl
  | cons w rest ih =>
    obtain ⟨t', batch⟩ := w
    rw [List.foldl_cons]
    by_cases ht : t' = t
    · subst ht
      have hbatch : batch ≠ [] := hne batch (by simp [batchesOf])
      rw [ih fun batch hb => hne batch (by simp_all [batchesOf])]
      simp [batchesOf, updateCandles, hbatch, Table.get?_modify, extended]
    · rw [ih fun batch hb => hne batch (by simpa [batchesOf, ht] using hb)]
      have hsame : (b.updateCandles mostCandles t' batch).series.get? t = b.series.get? t := by
        rw [updateCandles]
        split
        · rfl
        · simp [Table.get?_modify, Ne.symm ht]
      simp [batchesOf, ht, hsame]

/-- Whatever else is written to the board of a symbol, once a time frame without a series has got
the batches of a feed, its series is the newest candles of the last history from the first candle
of the first batch, as many as the cap allows and at least one. -/
theorem updateCandles_merges {first : Reading α} {later : List (Reading α)}
    (feed : IsFeed (first :: later)) {start : Candle α} (hstart : start ∈ first.batch.head?)
    {b : Board α} {t : TimeFrame} (hfresh : b.series.get? t = none)
    {writes : List (TimeFrame × List (Candle α))}
    (hwrites : batchesOf t writes = (first :: later).map (·.batch)) (mostCandles : Nat) :
    (writes.foldl (fun b w => b.updateCandles mostCandles w.1 w.2) b).series.get? t =
      some
        { toCandleColumns := .ofRows
            ((((first :: later).getLast (List.cons_ne_nil _ _)).since start.time).rtake
              (max mostCandles 1))
          capacity := max mostCandles 1 } := by
  have hne : ∀ batch ∈ batchesOf t writes, batch ≠ [] := by
    rw [hwrites]
    intro batch hbatch
    obtain ⟨r, hr, rfl⟩ := List.mem_map.1 hbatch
    exact (feed.windows r hr).nonempty
  obtain ⟨n, hn⟩ : ∃ n, max mostCandles 1 = n + 1 := ⟨max mostCandles 1 - 1, by omega⟩
  have w := feed.windows first (by simp)
  have hhead : first.batch.head?.map (·.time) = some start.time := by
    rw [Option.mem_def.1 hstart]
    rfl
  have hsince := w.since_eq w.newest hhead
  -- the first batch fills an empty series
  have hempty : (CandleSeries.empty mostCandles).extend first.batch =
      CandleSeries.newest (n + 1) (first.since start.time) := by
    have hnone : (CandleSeries.empty mostCandles : CandleSeries α) =
        CandleSeries.newest (n + 1) [] := by
      simp [CandleSeries.empty, CandleSeries.newest, CandleColumns.ofRows, hn]
    rw [hnone, hsince]
    exact CandleSeries.extend_newer (w.increasing.sublist w.newest.sublist)
  rw [get?_series_foldl writes hne, hwrites, hfresh, List.map_cons, List.foldl_cons, extended,
    foldl_extended, Option.getD_none, hempty, feed.foldl_extend (by rw [hsince, hhead]), hn]
  rfl

/-- A candle of a minute in which the price never moved. -/
def flatCandle (minute price : Nat) : Candle Nat where
  time := minute * 60000
  opening := price
  high := price
  low := price
  close := price
  volume := 1

/-- Two polls between which the live candle closes at another price and two more open. -/
def twoPolls : List (Reading Nat) :=
  [{ history := [flatCandle 0 10, flatCandle 1 11, flatCandle 2 12]
     batch := [flatCandle 1 11, flatCandle 2 12] },
   { history := [flatCandle 0 10, flatCandle 1 11, flatCandle 2 13, flatCandle 3 14,
       flatCandle 4 15]
     batch := [flatCandle 1 11, flatCandle 2 13, flatCandle 3 14, flatCandle 4 15] }]

/-- The second poll reaches back to where the first one ended. -/
theorem isFeed_twoPolls : IsFeed twoPolls := by
  refine ⟨?_, List.isChain_cons_cons.2 ⟨⟨?_, ?_⟩, .singleton _⟩⟩
  · intro r hr
    rcases List.mem_pair.1 hr with rfl | rfl
    · exact ⟨by decide, by simp, [flatCandle 0 10], rfl⟩
    · exact ⟨by decide, by simp, [flatCandle 0 10], rfl⟩
  · exact ⟨[flatCandle 0 10, flatCandle 1 11], flatCandle 2 12, flatCandle 2 13,
      [flatCandle 3 14, flatCandle 4 15], rfl, rfl, rfl⟩
  · intro last hlast
    obtain rfl : flatCandle 2 12 = last := by simpa using hlast
    exact ⟨flatCandle 2 13, by simp, rfl⟩

/-- What the two polls write to a board, with a poll of the hours in between. -/
def writesOfTwoPolls : List (TimeFrame × List (Candle Nat)) :=
  [(.oneMinute, [flatCandle 1 11, flatCandle 2 12]), (.oneHour, [flatCandle 0 10]),
    (.oneMinute, [flatCandle 1 11, flatCandle 2 13, flatCandle 3 14, flatCandle 4 15])]

/-- With room for three candles the minutes of both polls come down to the last three. -/
theorem updateCandles_merges_two_polls :
    ((writesOfTwoPolls.foldl (fun b w => b.updateCandles 3 w.1 w.2) ({} : Board Nat)).series.get?
        .oneMinute) =
      some
        { toCandleColumns := .ofRows [flatCandle 2 13, flatCandle 3 14, flatCandle 4 15]
          capacity := 3 } :=
  updateCandles_merges isFeed_twoPolls rfl rfl rfl 3

end Board

end MarketEngine
