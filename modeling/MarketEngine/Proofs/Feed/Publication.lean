import MarketEngine.Proofs.Evaluation.Triggers
import MarketEngine.Proofs.Feed.Readings
/-!
# Published candles

A refresh publishes the last candle of the batch that it was answered, while the series keeps the
candle that opens last of all that were ever answered. The two are the same exactly if no candle of
an earlier batch opens later (`Session.published_stored_iff`); where the exchange lags behind what
it answered before, a candle is published that the series ignores.
-/

namespace MarketEngine

variable {σ α : Type}

namespace CandleHistory

/-- A candle that does not open before the last one is the last one from then on. -/
theorem getLast?_update {h : CandleHistory α} {row : Candle α}
    (hrow : ∀ last ∈ h.getLast?, last.time ≤ row.time) : (update h row).1.getLast? = some row := by
  rcases List.eq_nil_or_concat' h with rfl | ⟨closed, live, rfl⟩
  · rfl
  · have hle := hrow live List.getLast?_concat
    rw [update_concat]
    split
    · exact List.getLast?_concat
    · rw [if_pos (by omega)]
      exact List.getLast?_concat

/-- The last candle opens last of all that were taken in. -/
theorem exists_getLast?_ofUpdates {rows : List (Candle α)} (hne : rows ≠ []) :
    ∃ last ∈ rows, (ofUpdates rows).getLast? = some last ∧ ∀ row ∈ rows, row.time ≤ last.time := by
  induction rows using List.reverseRecOn with
  | nil => exact absurd rfl hne
  | append_singleton rows row ih =>
    rw [ofUpdates_concat]
    have hlatest : (∀ row' ∈ rows, row'.time ≤ row.time) →
        ∀ row' ∈ rows ++ [row], row'.time ≤ row.time := fun h => by
      rw [List.forall_mem_append, List.forall_mem_singleton]
      exact ⟨h, Int.le_refl _⟩
    by_cases hrows : rows = []
    · subst hrows
      exact ⟨row, by simp, rfl, hlatest (List.forall_mem_nil _)⟩
    · obtain ⟨last, hmem, hlast, hmost⟩ := ih hrows
      by_cases hrow : row.time < last.time
      · refine ⟨last, List.mem_append_left _ hmem, ?_, ?_⟩
        · rw [update_of_older hlast hrow]
          exact hlast
        · rw [List.forall_mem_append, List.forall_mem_singleton]
          exact ⟨hmost, Int.le_of_lt hrow⟩
      · have hle : last.time ≤ row.time := Int.not_lt.1 hrow
        refine ⟨row, by simp, getLast?_update ?_, hlatest fun row' hmem' => ?_⟩
        · rw [hlast]
          rintro _ ⟨rfl⟩
          exact hle
        · exact Int.le_trans (hmost row' hmem') hle

/-- Candles that open before the last one are ignored. -/
theorem ofUpdates_append_of_older {rows batch : List (Candle α)} {last : Candle α}
    (hlast : (ofUpdates rows).getLast? = some last) (hbatch : ∀ row ∈ batch, row.time < last.time) :
    ofUpdates (rows ++ batch) = ofUpdates rows := by
  induction batch using List.reverseRecOn with
  | nil => rw [List.append_nil]
  | append_singleton batch row ih =>
    rw [List.forall_mem_append, List.forall_mem_singleton] at hbatch
    rw [← List.append_assoc, ofUpdates_concat, ih hbatch.1, update_of_older hlast hbatch.2]

variable {rows batch : List (Candle α)} {candle : Candle α}
  (hordered : batch.Pairwise (·.time ≤ ·.time)) (hcandle : batch.getLast? = some candle)
include hordered hcandle

/-- Where some candle opens later than all of a batch, the batch is ignored. -/
theorem ofUpdates_append_of_exists (hlater : ∃ row ∈ rows, candle.time < row.time) :
    ofUpdates (rows ++ batch) = ofUpdates rows := by
  obtain ⟨row, hrow, hlt⟩ := hlater
  obtain ⟨last, -, hlast, hmost⟩ := exists_getLast?_ofUpdates (List.ne_nil_of_mem hrow)
  obtain ⟨before, rfl⟩ := List.getLast?_eq_some_iff.1 hcandle
  have hle := hmost row hrow
  refine ofUpdates_append_of_older hlast fun row' hrow' => ?_
  rcases List.mem_append.1 hrow' with hrow' | hrow'
  · have hle' := (List.pairwise_append.1 hordered).2.2 row' hrow' candle (by simp)
    omega
  · rw [List.mem_singleton.1 hrow']
    omega

/-- The last candle of an ordered batch is the last one afterwards exactly if none that was taken in
before opens later. -/
theorem getLast?_ofUpdates_append : (ofUpdates (rows ++ batch)).getLast? = some candle ↔
    ∀ row ∈ rows, row.time ≤ candle.time := by
  have hne : rows ++ batch ≠ [] := by
    rintro hnil
    rw [(List.append_eq_nil_iff.1 hnil).2] at hcandle
    cases hcandle
  constructor
  · intro hlast row hrow
    obtain ⟨last, -, hlast', hmost⟩ := exists_getLast?_ofUpdates hne
    obtain rfl := Option.some.inj (hlast.symm.trans hlast')
    exact hmost row (List.mem_append_left _ hrow)
  · intro hrows
    obtain ⟨before, rfl⟩ := List.getLast?_eq_some_iff.1 hcandle
    rw [← List.append_assoc, ofUpdates_concat]
    -- whatever was last before opens no later than the candle
    refine getLast?_update fun last hlast => ?_
    have hrest : rows ++ before ≠ [] := by
      rintro hnil
      rw [hnil] at hlast
      cases hlast
    obtain ⟨last', hmem, hlast', -⟩ := exists_getLast?_ofUpdates hrest
    obtain rfl := Option.some.inj (hlast'.symm.trans hlast)
    rcases List.mem_append.1 hmem with hmem | hmem
    · exact hrows last' hmem
    · exact (List.pairwise_append.1 hordered).2.2 last' hmem candle (by simp)

end CandleHistory

/-- A series ends with the last candle of the history it stores. -/
theorem CandleSeries.last?_stored? (most : Nat) (rows : List (Candle α)) :
    (stored? most rows).bind (·.last?) = (CandleHistory.ofUpdates rows).getLast? := by
  obtain ⟨n, hn⟩ : ∃ n, max most 1 = n + 1 := ⟨max most 1 - 1, by omega⟩
  rw [← last?_newest (n := n), ← hn, ← ofUpdates_eq, stored?]
  cases rows <;> rfl

/-- What candles bring to a series, they bring to the history that keeps all of them. -/
theorem CandleSeries.stored?_congr {most : Nat} {rows rows' : List (Candle α)} (hne : rows ≠ [])
    (h : CandleHistory.ofUpdates (rows ++ rows') = CandleHistory.ofUpdates rows) :
    stored? most (rows ++ rows') = stored? most rows := by
  have hsome : (rows ++ rows').isEmpty = false := by simp [hne]
  rw [stored?, stored?, hsome, List.isEmpty_eq_false_iff.2 hne, ofUpdates_eq, ofUpdates_eq, h]

/-- The last candle of a time frame of a symbol. -/
def Engine.lastCandle? (e : Engine σ α) (symbol : Symbol) (t : TimeFrame) : Option (Candle α) :=
  (e.market.board? symbol).bind (·.lastCandle? t)

/-- The last candle of a pair is that of its series. -/
theorem Engine.lastCandle?_eq (e : Engine σ α) (symbol : Symbol) (t : TimeFrame) :
    e.lastCandle? symbol t = (e.market.series? (symbol, t)).bind (·.last?) := by
  unfold lastCandle? Market.series? Board.lastCandle?
  cases e.market.board? symbol <;> rfl

namespace Session

variable [Exchange σ α] [Amount α] [Written α]

/-- The message with a candle of a pair. -/
def candlePost (pair : Symbol × TimeFrame) (candle : Candle α) : Message (Payload α) :=
  ⟨CandleFeed.key pair, .candle ⟨pair.2, candle⟩⟩

omit [Amount α] [Written α] in
/-- A refresh posts the last candle that it was answered, if it was answered any. -/
theorem posts_refreshPair (s : Session σ α) (symbol : Symbol) (t : TimeFrame) :
    s.posts (.refreshPair symbol t) = (s.shared.candleAnswer symbol t).2.rows.getLast?.toList.map
      (candlePost (symbol, t)) := by
  rw [posts, Engine.refreshCandles_eq]
  rcases (s.shared.candleAnswer symbol t).2 with cause | batch
  · rfl
  · simp only [Answer.latest, Except.map, Answer.rows]
    cases batch.getLast? <;> rfl

/-- The channel of candles carries what a refresh posts. -/
theorem carries_refreshPair {s : Session σ α} {ms : List (Message (Payload α))}
    (hms : s.Carries .candles ms) (symbol : Symbol) (t : TimeFrame) :
    (s.refreshPair symbol t).1.Carries .candles (ms ++
      (s.shared.candleAnswer symbol t).2.rows.getLast?.toList.map (candlePost (symbol, t))) := by
  have hsilent : (Engine.handlers : Handlers Role (Payload α) (Engine σ α) (Stage α)).SilentOn
      .candles := Engine.silentOn (by simp)
  have hevent : (SessionEvent.refreshPair symbol t : SessionEvent σ α).LeavesCandles := trivial
  have hleads := leads_reading s hevent
  rw [posts_refreshPair] at hleads
  have hcarries := hleads.carries hsilent hms
  have htopic : ∀ candle : Candle α, (candlePost (symbol, t) candle).payload.topic = .candles :=
    fun _ => rfl
  simp only [List.filter_map, List.map_map, Function.comp_def, htopic, decide_true,
    List.filter_true] at hcarries
  exact hcarries

/-- Take any session that has read no candles yet and let anything happen to it; then let a pair be
refreshed. Its messages with candles are those of before and the last candle that the pair is
answered, if it is answered any. Where the answer is ordered, that candle is the last one of the
series right after the refresh exactly if no candle that the pair was answered before opens later;
otherwise the series stays as it was. -/
theorem published_stored_iff {s₀ : Session σ α} (hunread : s₀.shared.Unread)
    {events : List (SessionEvent σ α)} (hevents : ∀ event ∈ events, event.LeavesCandles)
    (symbol : Symbol) (t : TimeFrame) :
    let s := s₀.after events
    let batch := (s.shared.candleAnswer symbol t).2.rows
    let refreshed := (s.shared.refreshCandles symbol t).1
    (∀ ms, s.Carries .candles ms → (s.refreshPair symbol t).1.Carries .candles
      (ms ++ batch.getLast?.toList.map (candlePost (symbol, t)))) ∧
    (∃ answers, Engine.Learns Engine.Alike answers s₀.shared s.shared) ∧
    ∀ answers, Engine.Learns Engine.Alike answers s₀.shared s.shared →
      batch.Pairwise (·.time ≤ ·.time) → ∀ candle ∈ batch.getLast?,
        (refreshed.lastCandle? symbol t = some candle ↔
          ∀ earlier ∈ candlesOf (symbol, t) answers, earlier.time ≤ candle.time) ∧
        ((∃ earlier ∈ candlesOf (symbol, t) answers, candle.time < earlier.time) →
          refreshed.market.series? (symbol, t) = s.shared.market.series? (symbol, t)) := by
  intro s batch refreshed
  refine ⟨fun ms hms => carries_refreshPair hms symbol t, mayLearn_after hevents s₀,
    fun answers hlearns hordered candle hcandle => ?_⟩
  have hread : s.shared.HasRead answers := hunread.hasRead.learns hlearns
  have hrefreshed : refreshed.HasRead (answers ++ [s.shared.candleAnswer symbol t]) :=
    hread.refresh symbol t
  -- the history after the refresh is that of all answers, the new one last
  have hrows : candlesOf (symbol, t) (answers ++ [s.shared.candleAnswer symbol t])
      = candlesOf (symbol, t) answers ++ batch := by
    rw [candlesOf_concat]
    exact congrArg _ (if_pos rfl)
  refine ⟨?_, fun hlater => ?_⟩
  · rw [Engine.lastCandle?_eq, hrefreshed.series?_eq, CandleSeries.last?_stored?, hrows]
    exact CandleHistory.getLast?_ofUpdates_append hordered hcandle
  · have ⟨_, hearlier, _⟩ := hlater
    have hmost : refreshed.market.mostCandles = s.shared.market.mostCandles := by
      simp only [refreshed, Engine.refreshCandles_eq, Market.mostCandles_take]
    rw [hrefreshed.series?_eq, hread.series?_eq, hrows, hmost]
    exact CandleSeries.stored?_congr (List.ne_nil_of_mem hearlier)
      (CandleHistory.ofUpdates_append_of_exists hordered hcandle hlater)

/-! ## An exchange that lags behind -/

/-- On the second query the exchange answers an older candle than on the first. -/
def laggingWiring : Wiring (ScriptedExchange ℚ) ℚ :=
  { crowdedWiring with
    engine := { crowdedWiring.engine with
      exchange := (ScriptedExchange.queueCandles {} "BTC/USDT" .oneHour
        [⟨3600000, 1, 1, 1, 1, 1⟩]).queueCandles "BTC/USDT" .oneHour [⟨0, 2, 2, 2, 2, 2⟩] } }

/-- The session after the first refresh. -/
def lagging : Session (ScriptedExchange ℚ) ℚ :=
  (wire laggingWiring).after [.refreshPair "BTC/USDT" .oneHour]

/-- The second refresh leaves the series as it was, since a candle that was answered before opens
later. -/
theorem published_stored_iff_lagging : ∃ answers,
    Engine.Learns Engine.Alike answers (wire laggingWiring).shared lagging.shared ∧
      (∃ earlier ∈ candlesOf ("BTC/USDT", .oneHour) answers, 0 < earlier.time) ∧
      (lagging.shared.refreshCandles "BTC/USDT" .oneHour).1.market.series? ("BTC/USDT", .oneHour)
        = lagging.shared.market.series? ("BTC/USDT", .oneHour) := by
  have hunread : (wire laggingWiring).shared.Unread :=
    unread_wireTasks (e := laggingWiring.engine) ⟨rfl, fun _ => rfl⟩ laggingWiring.tasks
  have hevents : ∀ event : SessionEvent (ScriptedExchange ℚ) ℚ,
      event ∈ [.refreshPair "BTC/USDT" .oneHour] → event.LeavesCandles := by
    simp [SessionEvent.LeavesCandles]
  obtain ⟨-, ⟨answers, hlearns⟩, hstored⟩ :=
    published_stored_iff hunread hevents "BTC/USDT" .oneHour
  obtain ⟨hiff, hkept⟩ :=
    hstored answers hlearns (List.pairwise_singleton _ _) ⟨0, 2, 2, 2, 2, 2⟩ rfl
  have hlater : ∃ earlier ∈ candlesOf ("BTC/USDT", .oneHour) answers, 0 < earlier.time := by
    by_contra hnone
    simp only [not_exists, not_and, Int.not_lt] at hnone
    have hlast : (lagging.shared.refreshCandles "BTC/USDT" .oneHour).1.lastCandle? "BTC/USDT"
        .oneHour = some ⟨3600000, 1, 1, 1, 1, 1⟩ := rfl
    cases hlast.symm.trans (hiff.2 hnone)
  exact ⟨answers, hlearns, hlater, hkept hlater⟩

/-- Both answers are ordered; the second refresh publishes its candle, while the last one of the
series is another. -/
theorem published_not_stored :
    ((wire laggingWiring).shared.candleAnswer "BTC/USDT" .oneHour).2.rows.Pairwise
      (·.time ≤ ·.time) ∧
    (lagging.shared.candleAnswer "BTC/USDT" .oneHour).2.rows.Pairwise (·.time ≤ ·.time) ∧
    lagging.posts (.refreshPair "BTC/USDT" .oneHour) =
      [candlePost ("BTC/USDT", .oneHour) ⟨0, 2, 2, 2, 2, 2⟩] ∧
    (lagging.shared.refreshCandles "BTC/USDT" .oneHour).1.lastCandle? "BTC/USDT" .oneHour
      = some ⟨3600000, 1, 1, 1, 1, 1⟩ :=
  ⟨List.pairwise_singleton _ _, List.pairwise_singleton _ _, rfl, rfl⟩

end Session

end MarketEngine
