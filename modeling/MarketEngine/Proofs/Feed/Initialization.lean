import MarketEngine.Proofs.Evaluation.Accounting
import MarketEngine.Proofs.Feed.Readings
/-!
# Two notions of initialization

A symbol counts as initialized once every time frame of its evaluation was read
(`Engine.isInitialized`), and a time frame has candles once its series holds any
(`Engine.hasCandles`). The one counts answers, the other looks at what they brought, so they part
where every answer for a time frame was an empty batch, and only there
(`Session.initialization_agrees`).
-/

namespace MarketEngine

variable {σ α : Type}

/-- Only a history of no candles is empty. -/
theorem CandleHistory.ofUpdates_eq_nil_iff {rows : List (Candle α)} :
    ofUpdates rows = [] ↔ rows = [] := by
  rcases List.eq_nil_or_concat' rows with rfl | ⟨before, row, rfl⟩
  · simp [ofUpdates]
  · have hkept : (update (ofUpdates before) row).1 ≠ [] := by
      rcases List.eq_nil_or_concat' (ofUpdates before) with hnil | ⟨closed, live, hlive⟩
      · simp [hnil, update]
      · rw [hlive, update_concat]
        split
        · simp
        · split <;> simp
    simp [ofUpdates_concat, hkept]

/-- There is a candle in the series of a pair that was answered any. -/
theorem CandleSeries.any_stored? (most : Nat) (rows : List (Candle α)) :
    (stored? most rows).any (·.size != 0) = !rows.isEmpty := by
  cases hrows : rows.isEmpty with
  | true => simp [stored?, hrows]
  | false =>
    have hne : CandleHistory.ofUpdates rows ≠ [] := by
      rw [Ne, CandleHistory.ofUpdates_eq_nil_iff]
      simpa using hrows
    have hlength := List.length_pos_iff.2 hne
    have hsize : (ofUpdates most rows).size ≠ 0 := by
      rw [ofUpdates_eq, size_newest]
      omega
    simp [stored?, hrows, hsize]

namespace Engine

/-- Whether a time frame of a symbol has a candle. -/
def hasCandles (e : Engine σ α) (symbol : Symbol) (t : TimeFrame) : Bool :=
  (e.market.board? symbol).any (·.hasCandles t)

/-- A time frame has candles if its series has a row. -/
theorem hasCandles_eq (e : Engine σ α) (symbol : Symbol) (t : TimeFrame) :
    e.hasCandles symbol t = (e.market.series? (symbol, t)).any (·.size != 0) := by
  unfold hasCandles Market.series? Board.hasCandles Board.candleCount
  cases e.market.board? symbol with
  | none => rfl
  | some b => cases hseries : b.series.get? t <;> simp [hseries]

/-- Every time frame of a symbol was answered, and has candles unless all its answers were empty
batches. -/
def Grounded (answers : List (CandleAnswer α)) (e : Engine σ α) (s : SymbolEvaluation α) : Prop :=
  ∀ t ∈ s.timeFrames, (∃ batch, ((s.symbol, t), .ok batch) ∈ answers) ∧
    (e.hasCandles s.symbol t = true ∨
      ∀ batch, ((s.symbol, t), .ok batch) ∈ answers → batch = [])

/-- What the two notions say of an engine that took in these answers, and what comes only after
them: interruptions, verdicts and exports. -/
structure Initialization [Amount α] (answers : List (CandleAnswer α)) (e : Engine σ α) : Prop where
  isInitialized_iff : ∀ s : SymbolEvaluation α, e.isInitialized s = true ↔
    ∀ t ∈ s.timeFrames, ∃ batch, ((s.symbol, t), .ok batch) ∈ answers
  hasCandles_iff : ∀ symbol t, e.hasCandles symbol t = true ↔
    ∃ batch, ((symbol, t), .ok batch) ∈ answers ∧ batch ≠ []
  interruptions : ∀ i s trigger, e.evaluationAt? i = some s → trigger.interruption = true →
    e.accepts i trigger = true → e.Grounded answers s
  verdicts : ∀ s, (e.verdictsOf? s).isSome = true → e.Grounded answers s
  exports : ∀ i s, e.evaluationAt? i = some s → (e.saved? i).isSome = true → e.Grounded answers s

namespace HasRead

variable {answers : List (CandleAnswer α)} {e : Engine σ α} (h : e.HasRead answers)
include h

/-- A symbol is initialized once every time frame of it was answered, be it with an empty batch. -/
theorem isInitialized_iff (s : SymbolEvaluation α) : e.isInitialized s = true ↔
    ∀ t ∈ s.timeFrames, ∃ batch, ((s.symbol, t), .ok batch) ∈ answers := by
  rw [isInitialized_eq]
  refine forall₂_congr fun t _ => ?_
  rw [h.times_eq, List.countP_pos_iff]
  constructor
  · rintro ⟨⟨pair, answer⟩, hmem, hanswer⟩
    obtain ⟨rfl, hok⟩ := of_decide_eq_true hanswer
    cases answer with
    | ok batch => exact ⟨batch, hmem⟩
    | error cause => cases hok
  · rintro ⟨batch, hmem⟩
    exact ⟨_, hmem, decide_eq_true ⟨rfl, rfl⟩⟩

/-- A time frame has candles once it was answered a batch that is not empty. -/
theorem hasCandles_iff (symbol : Symbol) (t : TimeFrame) : e.hasCandles symbol t = true ↔
    ∃ batch, ((symbol, t), .ok batch) ∈ answers ∧ batch ≠ [] := by
  rw [hasCandles_eq, h.series?_eq, CandleSeries.any_stored?, ← candlesOf_ne_nil]
  simp

/-- What an initialized symbol rests on: each of its time frames was answered, and has candles
unless no answer had one. -/
theorem grounded {s : SymbolEvaluation α} (hs : e.isInitialized s = true) :
    e.Grounded answers s := by
  intro t ht
  refine ⟨(h.isInitialized_iff s).1 hs t ht, ?_⟩
  by_cases hempty : ∀ batch, ((s.symbol, t), .ok batch) ∈ answers → batch = []
  · exact .inr hempty
  · push Not at hempty
    exact .inl ((h.hasCandles_iff s.symbol t).2 hempty)

/-- Interruptions, verdicts and exports all rest on answers for every time frame of the symbol. -/
theorem initialization [Amount α] : e.Initialization answers where
  isInitialized_iff := h.isInitialized_iff
  hasCandles_iff := h.hasCandles_iff
  interruptions i s trigger hs hinterruption haccepted := by
    obtain ⟨t, ht, howner⟩ := evaluationAt?_eq_some.1 hs
    rw [accepts_eq ht howner, EvaluationTask.accepts, hinterruption] at haccepted
    exact h.grounded (by simpa using haccepted)
  verdicts s hs := by
    unfold verdictsOf? at hs
    split at hs
    · next hpublishes => exact h.grounded (Bool.and_eq_true_iff.1 hpublishes).2
    · cases hs
  exports i s hs hsaved := h.grounded ((allRead_iff hs).1 ((e.isSome_saved?_iff i).1 hsaved).2)

end HasRead

end Engine

/-- The engines that a story comes through: what every deed finds and what it leaves, and what the
story comes to. -/
def Story.Passes [Amount α] [Written α] [Exchange σ α] (r : SessionStory σ α) (e : Engine σ α) :
    Prop :=
  e = r.shared ∨ ∃ d ∈ r.deeds, e = d.found ∨ e = (d.act.outcome Engine.handlers d.found).2

namespace Session

variable [Amount α] [Written α] [Exchange σ α]

/-- Whatever happens to a session that has read no candles yet, at every moment some answers of the
exchange were taken in, and its counts and its series are what they come to:

* a symbol is initialized exactly if for each time frame of it there was an answer with a batch;
* a time frame has candles exactly if some of these batches were not empty.

So the time frames of a symbol that is initialized have candles, but for those whose answers were
empty batches, all of them; and whatever comes only with an initialized symbol, which are
interruptions, verdicts and exports, comes after an answer for each of its time frames. -/
theorem initialization_agrees {s₀ : Session σ α} (hworld : World s₀) (hunread : s₀.shared.Unread)
    {events : List (SessionEvent σ α)} (hevents : ∀ event ∈ events, event.LeavesCandles) :
    ∃ all, (s₀.story all).Tells [] (s₀.after events) ∧
      ∀ e, (s₀.story all).Passes e →
        (∃ answers, Engine.Learns Engine.Alike answers s₀.shared e) ∧
        ∀ answers, Engine.Learns Engine.Alike answers s₀.shared e → e.Initialization answers := by
  have hleads :=
    leads_after_within (fun s event hevent => leads_reading s (hevents event hevent)) s₀
  obtain ⟨all, hwithin, -, -, htells⟩ := hworld.tells.continues hleads
  have hrefl : Engine.MayLearn Engine.Alike s₀.shared s₀.shared := admits_reading.refl
  obtain ⟨hshared, hfound⟩ := Story.keepTo_run (r := { shared := s₀.shared }) admits_reading.keepTo
    (fun _ _ h => h) ⟨hrefl, List.forall_mem_nil _⟩ hwithin
  have hpasses : ∀ e, (s₀.story all).Passes e → Engine.MayLearn Engine.Alike s₀.shared e := by
    rintro e (rfl | ⟨d, hd, rfl | rfl⟩)
    · exact hshared
    · exact hfound d hd
    · refine (hfound d hd).trans ?_
      cases d.act with
      | begin a role m => exact admits_reading.keepTo.start role m d.found
      | goOn stage => exact admits_reading.keepTo.resume stage d.found
  exact ⟨all, htells, fun e he => ⟨hpasses e he,
    fun answers hlearns => (hunread.hasRead.learns hlearns).initialization⟩⟩

/-! ## An empty batch -/

/-- A task that exports, on an exchange that has no candles yet. -/
def blankWiring : Wiring (ScriptedExchange ℚ) ℚ :=
  { crowdedWiring with
    engine := { crowdedWiring.engine with
      exchange := ScriptedExchange.queueCandles {} "BTC/USDT" .oneHour [] }
    tasks := [⟨"BTC/USDT", .oneHour, [], none, true, true⟩] }

/-- The session after its only pair was answered an empty batch. -/
def blank : Session (ScriptedExchange ℚ) ℚ :=
  (wire blankWiring).after [.refreshPair "BTC/USDT" .oneHour]

/-- A symbol that is initialized without candles was answered by empty batches only. -/
theorem initialization_agrees_blank : ∃ answers,
    Engine.Learns Engine.Alike answers (wire blankWiring).shared blank.shared ∧
      (("BTC/USDT", .oneHour), .ok []) ∈ answers ∧
      ∀ batch, (("BTC/USDT", .oneHour), .ok batch) ∈ answers → batch = [] := by
  have hunread : (wire blankWiring).shared.Unread :=
    unread_wireTasks (e := blankWiring.engine) ⟨rfl, fun _ => rfl⟩ blankWiring.tasks
  have hevents : ∀ event : SessionEvent (ScriptedExchange ℚ) ℚ,
      event ∈ [.refreshPair "BTC/USDT" .oneHour] → event.LeavesCandles := by
    simp [SessionEvent.LeavesCandles]
  obtain ⟨all, htells, hpasses⟩ :=
    initialization_agrees (World.wired blankWiring rfl) hunread hevents
  obtain ⟨⟨answers, hlearns⟩, hinitializations⟩ := hpasses blank.shared (.inl htells.shared_eq)
  have hinitialization := hinitializations answers hlearns
  have hnone : blank.shared.hasCandles "BTC/USDT" .oneHour = false := by decide +kernel
  have hempty : ∀ batch, (("BTC/USDT", .oneHour), .ok batch) ∈ answers → batch = [] := by
    intro batch hmem
    by_contra hne
    have hsome := (hinitialization.hasCandles_iff _ _).2 ⟨batch, hmem, hne⟩
    rw [hnone] at hsome
    cases hsome
  obtain ⟨batch, hmem⟩ := (hinitialization.isInitialized_iff
    { symbol := "BTC/USDT", timeFrames := [.oneHour], strategies := [] }).1 (by decide +kernel)
    .oneHour (by simp)
  exact ⟨answers, hlearns, hempty batch hmem ▸ hmem, hempty⟩

/-- The only time frame of the symbol was read and has no candle, and yet the task takes
interruptions, hands verdicts on and exports. -/
theorem initialized_without_candles :
    (∃ s, blank.shared.evaluationAt? 0 = some s ∧ s.symbol = "BTC/USDT" ∧
      s.timeFrames = [.oneHour] ∧ blank.shared.isInitialized s = true ∧
      (blank.shared.verdictsOf? s).isSome = true) ∧
    blank.shared.hasCandles "BTC/USDT" .oneHour = false ∧
    blank.shared.accepts 0 { source := "rsi", interruption := true } = true ∧
    (blank.shared.saved? 0).isSome = true := by
  refine ⟨⟨_, rfl, rfl, rfl, ?_, ?_⟩, ?_, ?_, ?_⟩ <;> decide +kernel

end Session

end MarketEngine
