import MarketEngine.Proofs.Market.CandleMerging
/-!
# Series with a cap

A candle series keeps the newest candles only. It is compared with a history that keeps all of them:
both take the same candles in, one after the other. `update_refines` says that the series is always
the end of that history, as much of it as there is room for, and that both give the same answers.
-/

namespace MarketEngine

variable {α : Type}

/-- The candles of a series without a cap, the oldest first. -/
abbrev CandleHistory (α : Type) := List (Candle α)

namespace CandleHistory

/-- Takes a candle in; also says whether it was appended. A candle is appended if it opens later
than the last one, or is the first of all; it replaces the last one if both open together; and it is
ignored if it opens earlier. -/
def update (h : CandleHistory α) (row : Candle α) : CandleHistory α × Bool :=
  match h.getLast? with
  | none => (h ++ [row], true)
  | some live =>
    if live.time < row.time then (h ++ [row], true)
    else if row.time = live.time then (h.dropLast ++ [row], false)
    else (h, false)

/-- The history after some candles were taken in. -/
def ofUpdates (rows : List (Candle α)) : CandleHistory α :=
  rows.foldl (fun h row => (update h row).1) []

/-- The candles open one after the other. -/
def Increasing (h : CandleHistory α) : Prop := h.Pairwise (·.time < ·.time)

/-- What a candle does to a history is decided by the live candle. -/
theorem update_concat (closed : List (Candle α)) (live row : Candle α) :
    update (closed ++ [live]) row =
      if live.time < row.time then (closed ++ [live] ++ [row], true)
      else if row.time = live.time then (closed ++ [row], false)
      else (closed ++ [live], false) := by
  simp [update]

/-- A newer candle is appended. -/
theorem update_of_newer {h : CandleHistory α} {row : Candle α}
    (hrow : ∀ last ∈ h.getLast?, last.time < row.time) : update h row = (h ++ [row], true) := by
  rcases List.eq_nil_or_concat' h with rfl | ⟨closed, live, rfl⟩
  · rfl
  · rw [update_concat, if_pos (hrow live List.getLast?_concat)]

/-- A candle that opens with the last one replaces it. -/
theorem update_of_live {h : CandleHistory α} {last row : Candle α} (hlast : last ∈ h.getLast?)
    (hrow : row.time = last.time) : update h row = (h.dropLast ++ [row], false) := by
  obtain ⟨closed, rfl⟩ := List.getLast?_eq_some_iff.1 hlast
  rw [update_concat, if_neg (by omega), if_pos hrow, List.dropLast_concat]

/-- An older candle is ignored. -/
theorem update_of_older {h : CandleHistory α} {last row : Candle α} (hlast : last ∈ h.getLast?)
    (hrow : row.time < last.time) : update h row = (h, false) := by
  obtain ⟨closed, rfl⟩ := List.getLast?_eq_some_iff.1 hlast
  rw [update_concat, if_neg (by omega), if_neg (by omega)]

/-- Every candle of a history that ends with `live` opens before one that opens after `live`. -/
theorem Increasing.time_lt {closed : List (Candle α)} {live row : Candle α}
    (h : Increasing (closed ++ [live])) (hrow : live.time < row.time) :
    ∀ c ∈ closed ++ [live], c.time < row.time := by
  intro c hc
  rcases List.mem_append.1 hc with hc | hc
  · exact Int.lt_trans ((List.pairwise_append.1 h).2.2 c hc live (by simp)) hrow
  · rwa [List.mem_singleton.1 hc]

/-- A candle that opens after all others keeps them in order. -/
theorem Increasing.concat {h : CandleHistory α} (hinc : Increasing h) {row : Candle α}
    (hrow : ∀ c ∈ h, c.time < row.time) : Increasing (h ++ [row]) :=
  List.pairwise_append.2 ⟨hinc, List.pairwise_singleton _ _, fun c hc c' hc' => by
    rw [List.mem_singleton.1 hc']
    exact hrow c hc⟩

/-- Every update keeps the candles in order. -/
theorem Increasing.update {h : CandleHistory α} (hinc : Increasing h) (row : Candle α) :
    Increasing (CandleHistory.update h row).1 := by
  rcases List.eq_nil_or_concat' h with rfl | ⟨closed, live, rfl⟩
  · exact List.pairwise_singleton _ _
  · rw [update_concat]
    split
    · next hnewer => exact hinc.concat (hinc.time_lt hnewer)
    · split
      · next heq =>
        refine Increasing.concat (List.pairwise_append.1 hinc).1 fun c hc => ?_
        rw [heq]
        exact (List.pairwise_append.1 hinc).2.2 c hc live (by simp)
      · exact hinc

/-- The last of some candles comes to the history of the others. -/
theorem ofUpdates_concat (rows : List (Candle α)) (row : Candle α) :
    ofUpdates (rows ++ [row]) = (update (ofUpdates rows) row).1 := by
  simp [ofUpdates]

/-- Whatever candles come in, they stand in order. -/
theorem increasing_ofUpdates (rows : List (Candle α)) : Increasing (ofUpdates rows) := by
  induction rows using List.reverseRecOn with
  | nil => exact List.Pairwise.nil
  | append_singleton rows row ih =>
    rw [ofUpdates_concat]
    exact ih.update row

end CandleHistory

namespace CandleColumns

/-- The last row of columns is that of the rows. -/
theorem last?_ofRows (rows : List (Candle α)) : (ofRows rows).last? = rows.getLast? := by
  rcases List.eq_nil_or_concat' rows with rfl | ⟨closed, live, rfl⟩
  · rfl
  · simp [ofRows, last?]

end CandleColumns

namespace CandleSeries

open CandleHistory (ofUpdates Increasing)

variable {n : Nat}

/-- The newest candles end as all of them do. -/
theorem last?_newest (h : CandleHistory α) : (newest (n + 1) h).last? = h.getLast? := by
  rw [newest, CandleColumns.last?_ofRows]
  rcases List.eq_nil_or_concat' h with rfl | ⟨closed, live, rfl⟩
  · rw [List.rtake_nil]
  · rw [List.rtake_concat_succ, List.getLast?_concat, List.getLast?_concat]

/-- A candle does to the end of a history what it does to the history. -/
theorem update_newest {h : CandleHistory α} (hinc : Increasing h) (row : Candle α) :
    (newest (n + 1) h).update row
      = (newest (n + 1) (h.update row).1, (h.update row).2) := by
  rcases List.eq_nil_or_concat' h with rfl | ⟨closed, live, rfl⟩
  · exact Prod.ext (update_newer (by simp)) (by simp [update, newest, CandleColumns.ofRows,
      CandleHistory.update])
  · rw [CandleHistory.update_concat]
    split
    · next hnewer =>
      refine Prod.ext (update_newer (hinc.time_lt hnewer)) ?_
      rw [update, getLast?_time_newest]
      simp only [if_neg (Int.ne_of_gt hnewer), if_neg (Int.lt_asymm hnewer)]
    · next hnot =>
      split
      · next heq =>
        refine Prod.ext (update_live heq) ?_
        rw [update, getLast?_time_newest]
        simp only [if_pos heq]
      · next hne =>
        have holder : row.time < live.time := by omega
        refine Prod.ext (update_older holder) ?_
        rw [update, getLast?_time_newest]
        simp only [if_neg hne, if_pos holder]

/-- The series after some candles were taken in, one by one. -/
def ofUpdates (most : Nat) (rows : List (Candle α)) : CandleSeries α :=
  rows.foldl (fun s row => (s.update row).1) (empty most)

/-- The last of some candles comes to the series of the others. -/
theorem ofUpdates_concat (most : Nat) (rows : List (Candle α)) (row : Candle α) :
    ofUpdates most (rows ++ [row]) = ((ofUpdates most rows).update row).1 := by
  simp [ofUpdates]

/-- A series is the end of the history of the same candles. -/
theorem ofUpdates_eq (most : Nat) (rows : List (Candle α)) :
    ofUpdates most rows = newest (max most 1) (CandleHistory.ofUpdates rows) := by
  obtain ⟨n, hn⟩ : ∃ n, max most 1 = n + 1 := ⟨max most 1 - 1, by omega⟩
  rw [hn]
  induction rows using List.reverseRecOn with
  | nil => simp [ofUpdates, CandleHistory.ofUpdates, empty, newest, CandleColumns.ofRows, hn]
  | append_singleton rows row ih =>
    have hupdate := update_newest (n := n) (CandleHistory.increasing_ofUpdates rows) row
    rw [CandleHistory.ofUpdates_concat, ofUpdates_concat, ih, hupdate]

/-- The last few of the last few more. -/
theorem rtake_rtake (rows : List (Candle α)) : (rows.rtake (n + 1)).rtake n = rows.rtake n := by
  simp [List.rtake_eq_reverse_take_reverse, List.take_take]

/-- Batches come to the same as their candles one by one. -/
theorem foldl_extend (s : CandleSeries α) (batches : List (List (Candle α))) :
    batches.foldl extend s = s.extend batches.flatten := by
  induction batches generalizing s with
  | nil => rfl
  | cons batch rest ih =>
    rw [List.foldl_cons, ih, List.flatten_cons, extend, extend, extend, List.foldl_append]

/-- A series with room for `most` candles, and for one if that is zero, after any candles were taken
in, one by one or in batches. Its six columns have equal length, no more rows than there is room
for, and increasing times; row by row they are the end of the history that keeps every candle. A
candle that opens later than the last row, or finds none, is appended, and the oldest row goes if
there is no room; one that opens with the last row replaces it; an older one changes nothing. Only
the first is answered with yes, as by the history. -/
theorem update_refines (most : Nat) (rows : List (Candle α)) :
    let room := max most 1
    let s := ofUpdates most rows
    let h := CandleHistory.ofUpdates rows
    (s.opening.length = s.time.length ∧ s.high.length = s.time.length ∧
      s.low.length = s.time.length ∧ s.close.length = s.time.length ∧
      s.volume.length = s.time.length) ∧
    s.time.length ≤ room ∧ s.time.Pairwise (· < ·) ∧
    s.toCandleColumns = .ofRows (h.rtake room) ∧ s.last? = h.getLast? ∧
    (∀ batches : List (List (Candle α)), batches.flatten = rows →
      batches.foldl extend (empty most) = s) ∧
    (∀ row, (∀ last ∈ s.last?, last.time < row.time) →
      (s.update row).2 = true ∧ (s.update row).1.rows = (s.rows ++ [row]).rtake room) ∧
    (∀ row, ∀ last ∈ s.last?, row.time = last.time →
      (s.update row).2 = false ∧ (s.update row).1.rows = s.rows.dropLast ++ [row]) ∧
    (∀ row, ∀ last ∈ s.last?, row.time < last.time → s.update row = (s, false)) ∧
    ∀ row, (s.update row).2 = (h.update row).2 := by
  intro room s h
  obtain ⟨n, hn⟩ : ∃ n, room = n + 1 := ⟨room - 1, by omega⟩
  -- the series is the end of the history, so its updates are those of the history, cut off
  have hinc : Increasing h := CandleHistory.increasing_ofUpdates rows
  have hs : s = newest (n + 1) h := by rw [← hn]; exact ofUpdates_eq most rows
  have hlast : s.last? = h.getLast? := by rw [hs, last?_newest]
  have hrows : s.rows = h.rtake (n + 1) := by rw [hs, newest, CandleColumns.rows_ofRows]
  have hupdate : ∀ row, s.update row = (newest (n + 1) (h.update row).1, (h.update row).2) := by
    rw [hs]
    exact update_newest hinc
  refine ⟨?_, ?_, ?_, ?_, hlast, ?_, ?_, ?_, ?_, fun row => by rw [hupdate]⟩
  · simp [hs, newest, CandleColumns.ofRows]
  · have hsize : s.time.length = min (n + 1) h.length := by
      rw [hs]
      exact size_newest
    omega
  · rw [hs, newest, CandleColumns.ofRows, List.pairwise_map]
    exact hinc.sublist (List.drop_suffix _ _).sublist
  · rw [hs, hn]
    rfl
  · rintro batches rfl
    rw [foldl_extend]
    rfl
  · intro row hrow
    rw [hlast] at hrow
    rw [hupdate, CandleHistory.update_of_newer hrow, hrows, hn]
    refine ⟨rfl, ?_⟩
    rw [newest, CandleColumns.rows_ofRows, List.rtake_concat_succ, List.rtake_concat_succ,
      rtake_rtake]
  · intro row last hlive hrow
    rw [hlast] at hlive
    rw [hupdate, CandleHistory.update_of_live hlive hrow, hrows]
    refine ⟨rfl, ?_⟩
    obtain ⟨closed, heq⟩ := List.getLast?_eq_some_iff.1 hlive
    rw [newest, CandleColumns.rows_ofRows, heq, List.rtake_concat_succ, List.dropLast_concat,
      List.rtake_concat_succ, List.dropLast_concat]
  · intro row last hlive hrow
    rw [hlast] at hlive
    rw [hupdate, CandleHistory.update_of_older hlive hrow, hs]

end CandleSeries

end MarketEngine
