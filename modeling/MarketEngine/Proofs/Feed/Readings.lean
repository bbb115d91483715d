import MarketEngine.Proofs.Evaluation.Wiring
import MarketEngine.Proofs.Feed.Answers
import MarketEngine.Proofs.Feed.Ticks
import MarketEngine.Proofs.Market.BoundedSeries
/-!
# What was read of the candles

Whatever happens to a session, answers to its queries for candles are taken in
(`Session.mayLearn_after`), and its counts and its candle series are what they come to
(`Engine.HasRead.learns`): each answer with a batch counts once for its pair, and a series holds the
newest of all candles that its pair was answered.
-/

namespace MarketEngine

variable {σ α : Type}

/-! ## The candles of the answers -/

/-- The candles of an answer. -/
def Answer.rows : Answer (List (Candle α)) → List (Candle α)
  | .ok batch => batch
  | .error _ => []

/-- The candles that a pair was answered, one after the other. -/
def candlesOf (pair : Symbol × TimeFrame) (answers : List (CandleAnswer α)) : List (Candle α) :=
  answers.flatMap fun answer => if answer.1 = pair then Answer.rows answer.2 else []

/-- One more answer adds its candles to those of its pair. -/
theorem candlesOf_concat (pair : Symbol × TimeFrame) (answers : List (CandleAnswer α))
    (answer : CandleAnswer α) : candlesOf pair (answers ++ [answer]) =
      candlesOf pair answers ++ if answer.1 = pair then Answer.rows answer.2 else [] := by
  simp [candlesOf]

/-- The candles of a pair are those in its batches. -/
theorem mem_candlesOf {pair : Symbol × TimeFrame} {answers : List (CandleAnswer α)}
    {candle : Candle α} : candle ∈ candlesOf pair answers ↔
      ∃ batch, (pair, .ok batch) ∈ answers ∧ candle ∈ batch := by
  rw [candlesOf, List.mem_flatMap]
  constructor
  · rintro ⟨⟨pair', answer⟩, hanswer, hmem⟩
    split at hmem
    · next hpair =>
      obtain rfl : pair' = pair := hpair
      cases answer with
      | ok batch => exact ⟨batch, hanswer, hmem⟩
      | error cause => cases hmem
    · cases hmem
  · rintro ⟨batch, hanswer, hmem⟩
    exact ⟨_, hanswer, by rwa [if_pos rfl]⟩

/-- A pair has candles once a batch with some came in. -/
theorem candlesOf_ne_nil {pair : Symbol × TimeFrame} {answers : List (CandleAnswer α)} :
    candlesOf pair answers ≠ [] ↔ ∃ batch, (pair, .ok batch) ∈ answers ∧ batch ≠ [] := by
  constructor
  · intro hne
    obtain ⟨candle, hmem⟩ := List.exists_mem_of_ne_nil _ hne
    obtain ⟨batch, hanswer, hcandle⟩ := mem_candlesOf.1 hmem
    exact ⟨batch, hanswer, List.ne_nil_of_mem hcandle⟩
  · rintro ⟨batch, hanswer, hne⟩
    obtain ⟨candle, hcandle⟩ := List.exists_mem_of_ne_nil _ hne
    exact List.ne_nil_of_mem (mem_candlesOf.2 ⟨batch, hanswer, hcandle⟩)

/-- The series of a pair that was answered these candles; without any there is none. -/
def CandleSeries.stored? (most : Nat) (rows : List (Candle α)) : Option (CandleSeries α) :=
  if rows.isEmpty then none else some (ofUpdates most rows)

/-- One more answer is merged into the series that the candles before it left. -/
theorem CandleSeries.taken_stored? (most : Nat) (rows : List (Candle α))
    (answer : Answer (List (Candle α))) :
    Board.taken most (stored? most rows) answer = stored? most (rows ++ Answer.rows answer) := by
  have hstored : (stored? most rows).getD (empty most) = ofUpdates most rows := by
    cases rows <;> rfl
  rcases answer with cause | _ | ⟨row, batch⟩
  · simp [Board.taken, Answer.rows]
  · simp [Board.taken, Answer.rows]
  · have hrows : (rows ++ row :: batch).isEmpty = false := by simp
    rw [Board.taken, Board.extended, hstored, Answer.rows, stored?, hrows, ofUpdates, extend,
      ← List.foldl_append]
    rfl

/-! ## Counts and series -/

/-- Other data are written to a board beside its series. -/
theorem Market.series?_write {f : Board α → Board α} (hf : ∀ b, (f b).series = b.series)
    (m : Market α) (symbol : Symbol) (pair : Symbol × TimeFrame) :
    (m.write symbol f).series? pair = m.series? pair := by
  simp only [series?, board?, write, Table.get?_modify, beq_iff_eq]
  split
  · next hsymbol =>
    rw [← hsymbol, Option.bind_some, hf]
    cases m.boards.get? pair.1 <;> rfl
  · rfl

namespace Engine

/-- The counts and the series are left alone. -/
structure Alike (e e' : Engine σ α) : Prop where
  counts_eq : e'.feed.counts = e.feed.counts
  mostCandles_eq : e'.market.mostCandles = e.market.mostCandles
  series?_eq : ∀ pair, e'.market.series? pair = e.market.series? pair

/-- The counts and the series of an engine that took in these answers, and nothing before. -/
structure HasRead (answers : List (CandleAnswer α)) (e : Engine σ α) : Prop where
  times_eq : ∀ symbol t, e.feed.refreshedTimes symbol t =
    answers.countP fun answer => answer.1 = (symbol, t) ∧ answer.2.isOk
  series?_eq : ∀ pair, e.market.series? pair =
    CandleSeries.stored? e.market.mostCandles (candlesOf pair answers)

/-- No candles were read yet. -/
structure Unread (e : Engine σ α) : Prop where
  counts_eq : e.feed.counts = []
  series?_eq : ∀ pair, e.market.series? pair = none

/-- Where no candles were read yet no answer was taken in. -/
theorem Unread.hasRead {e : Engine σ α} (h : e.Unread) : e.HasRead [] where
  times_eq symbol t := by
    rw [CandleFeed.refreshedTimes, h.counts_eq]
    rfl
  series?_eq := h.series?_eq

/-- What was read is seen by the counts and the series alone. -/
theorem HasRead.alike {answers : List (CandleAnswer α)} {e e' : Engine σ α} (h : e.HasRead answers)
    (halike : e.Alike e') : e'.HasRead answers where
  times_eq symbol t := by
    rw [CandleFeed.refreshedTimes, halike.counts_eq]
    exact h.times_eq symbol t
  series?_eq pair := by
    rw [halike.series?_eq, halike.mostCandles_eq]
    exact h.series?_eq pair

variable [Exchange σ α]

/-- Whatever leaves feed and market alone leaves counts and series alone. -/
theorem Beside.alike {e e' : Engine σ α} (h : e.Beside e') : e.Alike e' :=
  ⟨by rw [h.feed_eq], by rw [h.market_eq], fun _ => by rw [h.market_eq]⟩

/-- Refreshing a pair takes its answer in. -/
theorem refreshCandles_eq (e : Engine σ α) (symbol : Symbol) (t : TimeFrame) :
    e.refreshCandles symbol t =
      ({ e with
          feed := e.feed.take (symbol, t) (e.candleAnswer symbol t).2
          market := e.market.take (symbol, t) (e.candleAnswer symbol t).2
          exchange := (Exchange.candles e.exchange symbol t e.feed.limit).2 },
        (e.candleAnswer symbol t).2.latest) := by
  unfold refreshCandles CandleFeed.refresh candleAnswer
  rcases Exchange.candles e.exchange symbol t e.feed.limit with ⟨cause | batch, ex⟩ <;> rfl

/-- A refresh takes in one more answer. -/
theorem HasRead.refresh {answers : List (CandleAnswer α)} {e : Engine σ α} (h : e.HasRead answers)
    (symbol : Symbol) (t : TimeFrame) :
    (e.refreshCandles symbol t).1.HasRead (answers ++ [e.candleAnswer symbol t]) := by
  rw [refreshCandles_eq]
  refine ⟨fun symbol' t' => ?_, fun pair => ?_⟩
  · rw [List.countP_append, ← h.times_eq, List.countP_singleton]
    refine (e.feed.refreshedTimes_take (symbol, t) (symbol', t') _).trans ?_
    simp [candleAnswer]
  · refine (e.market.series?_take (symbol, t) pair _).trans ?_
    have hpair_eq : (e.candleAnswer symbol t).1 = (symbol, t) := rfl
    rw [h.series?_eq, candlesOf_concat, Market.mostCandles_take, hpair_eq]
    by_cases hpair : pair = (symbol, t)
    · rw [if_pos hpair, if_pos hpair.symm, CandleSeries.taken_stored?]
    · rw [if_neg hpair, if_neg (Ne.symm hpair), List.append_nil]

/-- What was read before, and what is taken in on the way. -/
theorem HasRead.learns {before answers : List (CandleAnswer α)} {e e' : Engine σ α}
    (h : e.HasRead before) (hlearns : Learns Alike answers e e') :
    e'.HasRead (before ++ answers) := by
  induction hlearns generalizing before with
  | aside halike =>
    rw [List.append_nil]
    exact h.alike halike
  | refresh e symbol t => exact h.refresh symbol t
  | trans _ _ ih ih' =>
    rw [← List.append_assoc]
    exact ih' (ih h)

/-! ## Operations -/

section Operations

/-- The refreshes of several pairs are refreshes one after the other. -/
theorem Admits.refreshPairs {R : Engine σ α → Engine σ α → Prop} (hR : Admits R) (e : Engine σ α)
    (k : CandleFeed.Tick α) (pairs : List (Symbol × TimeFrame)) :
    let done := e.feed.refreshPairs e.market e.exchange k pairs
    R e { e with feed := done.2.1.1, market := done.2.1.2, exchange := done.2.2 } := by
  induction pairs generalizing e k with
  | nil => exact hR.refl
  | cons pair rest ih =>
    exact hR.trans (hR.refresh e pair.1 pair.2) (ih (e.refreshCandles pair.1 pair.2).1 _)

/-- So are ticks, if it is such a change that feeds end. -/
theorem Admits.ticks [Amount α] {R : Engine σ α → Engine σ α → Prop} (hR : Admits R)
    (hended : ∀ (e : Engine σ α) symbols,
      R e { e with feed := List.foldl CandleFeed.endSymbol e.feed symbols }) : Ticks R where
  ticked e := hR.trans (hR.refreshPairs e {} e.feed.duePairs) (hended _ _)
  refreshed := hR.refresh
  matched e := hR.beside (e.beside_matchAll true)

omit [Exchange σ α] in
/-- Polled data has nothing to do with candles. -/
theorem alike_recordPolled (e : Engine σ α) (symbol : Symbol) (payload : Payload α) :
    e.Alike { e with market := e.market.recordPolled symbol payload } := by
  have hwritten : ∀ f : Board α → Board α, (∀ b, (f b).series = b.series) →
      e.Alike { e with market := e.market.write symbol f } :=
    fun _ hf => ⟨rfl, rfl, e.market.series?_write hf symbol⟩
  cases payload with
  | ticker ticker => exact hwritten _ fun _ => rfl
  | book book => exact hwritten _ fun _ => rfl
  | trades trades => exact hwritten _ fun _ => rfl
  | _ => exact ⟨rfl, rfl, fun _ => rfl⟩

end Operations

end Engine

/-- What happens from outside leaves counts and series alone, unless it reads candles. -/
def SessionEvent.LeavesCandles : SessionEvent σ α → Prop
  | .change f _ => ∀ e : Engine σ α, e.Alike (f e)
  | _ => True

namespace Session

/-! ## At the beginning -/

/-- The wiring of tasks reads no candles. -/
theorem unread_wireTasks {e : Engine σ α} (h : e.Unread) (tasks : List TaskWiring) :
    (tasks.foldl wireTask e).Unread := by
  refine List.foldlRecOn (motive := Engine.Unread) tasks wireTask h fun e he task _ => ?_
  unfold wireTask
  split
  · exact he
  · exact ⟨he.counts_eq, fun pair => (e.market.series?_write (fun _ => rfl) _ pair).trans
      (he.series?_eq pair)⟩

/-! ## Whatever happens -/

variable [Exchange σ α] [Amount α] [Written α]

/-- Consumers and those outside take candles in by queries only. -/
def reading : Dealings Role (Engine σ α) where
  changes := Engine.MayLearn Engine.Alike
  subscribes _ := True
  handles _ := True

omit [Amount α] [Written α] in
/-- Taking in answers and leaving counts and series alone go together. -/
theorem admits_reading :
    Engine.Admits (reading : Dealings Role (Engine σ α)).changes :=
  Engine.admits_mayLearn fun _ _ => Engine.Beside.alike

/-- Whatever happens to a session takes candles in by queries only. -/
theorem leads_reading (s : Session σ α) {event : SessionEvent σ α} (h : event.LeavesCandles) :
    LeadsWithin reading (s.posts event) (calls event) s (s.happen event) := by
  have hticks : Engine.Ticks (reading : Dealings Role (Engine σ α)).changes :=
    admits_reading.ticks fun e _ => .aside ⟨Engine.counts_endSymbols _ e.feed, rfl, fun _ => rfl⟩
  refine leads_happen_within hticks trivial (fun _ => trivial) s (fun poller _ => ?_) ?_
  · exact leads_poll
      (fun p e => .aside (Engine.Beside.alike ⟨.poll p e.exchange, rfl, rfl, rfl⟩))
      (fun symbol payload _ e => .aside (e.alike_recordPolled symbol payload))
      (fun _ _ => .aside ⟨rfl, rfl, fun _ => rfl⟩)
  · rintro f hf rfl
    exact fun e => .aside (h e)

/-- Whatever happens to a session, meanwhile answers to queries for candles are taken in. -/
theorem mayLearn_after {events : List (SessionEvent σ α)}
    (hevents : ∀ event ∈ events, event.LeavesCandles) (s : Session σ α) :
    Engine.MayLearn Engine.Alike s.shared (s.after events).shared :=
  (leads_after_within (fun s event hevent => leads_reading s (hevents event hevent)) s).shared
    admits_reading.keepTo fun _ _ h => h

end Session

end MarketEngine
