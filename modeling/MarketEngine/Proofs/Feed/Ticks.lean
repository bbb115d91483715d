import MarketEngine.Feed.Candles
import MarketEngine.Proofs.Evaluation.Stages
import MarketEngine.Proofs.Market.CandleMerging
/-!
# What a tick does

On an exchange whose answers are laid out pair by pair (`CandleScript`), a tick takes one answer for
each pair that is due. What becomes of a pair depends on its own answer alone, whatever the other
pairs of the same tick are answered (`CandleScript.Ticked`).
-/

namespace MarketEngine

variable {σ α : Type} [Exchange σ α]

/-- The answers of an exchange to the queries for candles, pair by pair. Each query for a pair takes
the pair's next answer, however many candles it asks for, and queries of other kinds take none. -/
structure CandleScript (σ α : Type) [Exchange σ α] where
  /-- The answers for a pair, the first one at zero. -/
  answer : Symbol × TimeFrame → Nat → Answer (List (Candle α))
  /-- The pairs that were asked for so far, in order. -/
  asked : σ → List (Symbol × TimeFrame)
  candles_eq : ∀ (ex : σ) (symbol : Symbol) (t : TimeFrame) (limit : Nat),
    (Exchange.candles ex symbol t limit).1 =
      answer (symbol, t) ((asked ex).count (symbol, t))
  asked_candles : ∀ (ex : σ) (symbol : Symbol) (t : TimeFrame) (limit : Nat),
    asked (Exchange.candles ex symbol t limit).2 = asked ex ++ [(symbol, t)]
  asked_trades : ∀ (ex : σ) (symbol : Symbol) (limit : Nat),
    asked (Exchange.trades ex symbol limit).2 = asked ex
  asked_ticker : ∀ (ex : σ) (symbol : Symbol), asked (Exchange.ticker ex symbol).2 = asked ex
  asked_book : ∀ (ex : σ) (symbol : Symbol), asked (Exchange.book ex symbol).2 = asked ex
  asked_balances : ∀ ex : σ, asked (Exchange.balances ex).2 = asked ex
  asked_openOrders : ∀ (ex : σ) (symbol : Symbol),
    asked (Exchange.openOrders ex symbol).2 = asked ex

/-! ## Answers -/

namespace Answer

/-- Whether the answer says that the feed has ended. -/
def isEnd {β : Type} : Answer β → Bool
  | .error (.feedEnded _) => true
  | _ => false

/-- The latest candle of a batch. -/
def latest {α : Type} (answer : Answer (List (Candle α))) : Answer (Option (Candle α)) :=
  answer.map List.getLast?

end Answer

/-- What is published of the answer for a pair: its latest candle, if it has one. -/
def CandleFeed.update? {α : Type} (pair : Symbol × TimeFrame) :
    Answer (List (Candle α)) → Option (Message (CandleUpdate α))
  | .ok batch => batch.getLast?.map fun candle => ⟨key pair, ⟨pair.2, candle⟩⟩
  | .error _ => none

/-- What the answer for a pair makes of its series. -/
def Board.taken {α : Type} (mostCandles : Nat) (s : Option (CandleSeries α)) :
    Answer (List (Candle α)) → Option (CandleSeries α)
  | .ok (row :: rows) => extended mostCandles s (row :: rows)
  | _ => s

namespace Market

variable {α : Type}

/-- The series of a pair. -/
def series? (m : Market α) (pair : Symbol × TimeFrame) : Option (CandleSeries α) :=
  (m.board? pair.1).bind (·.series.get? pair.2)

/-- Takes in the answer for a pair. -/
def take (m : Market α) (pair : Symbol × TimeFrame) : Answer (List (Candle α)) → Market α
  | .ok batch => m.updateCandles pair.1 pair.2 batch
  | .error _ => m

/-- How many candles are kept is a setting. -/
theorem mostCandles_take (m : Market α) (pair : Symbol × TimeFrame)
    (answer : Answer (List (Candle α))) : (m.take pair answer).mostCandles = m.mostCandles := by
  cases answer <;> rfl

/-- A batch is merged into the series of its pair, and the others stay. -/
theorem series?_updateCandles (m : Market α) (pair pair' : Symbol × TimeFrame)
    (batch : List (Candle α)) : (m.updateCandles pair.1 pair.2 batch).series? pair' =
      if pair' = pair then Board.taken m.mostCandles (m.series? pair') (.ok batch)
      else m.series? pair' := by
  have hboard (symbol : Symbol) : (m.updateCandles pair.1 pair.2 batch).board? symbol =
      if symbol = pair.1 then
        some (((m.board? symbol).getD {}).updateCandles m.mostCandles pair.2 batch)
      else m.board? symbol := by
    simp only [board?, updateCandles, write, Table.get?_modify, beq_iff_eq]
    split
    · next h => rw [h]
    · rfl
  have hseries (b : Board α) (t : TimeFrame) :
      (b.updateCandles m.mostCandles pair.2 batch).series.get? t =
        if t = pair.2 then Board.taken m.mostCandles (b.series.get? t) (.ok batch)
        else b.series.get? t := by
    cases batch with
    | nil => simp [Board.updateCandles, Board.taken]
    | cons row rows =>
      simp only [Board.updateCandles, List.isEmpty_cons, Bool.false_eq_true, if_false,
        Table.get?_modify, beq_iff_eq]
      split
      · next h => rw [h]; rfl
      · rfl
  rw [series?, series?, hboard]
  simp only [Prod.ext_iff]
  by_cases hsymbol : pair'.1 = pair.1
  · rw [if_pos hsymbol, Option.bind_some, hseries]
    cases m.board? pair'.1 with
    | none => simp [hsymbol, Table.get?]
    | some b => simp [hsymbol]
  · simp [hsymbol]

/-- An answer changes the series of its pair at most. -/
theorem series?_take (m : Market α) (pair pair' : Symbol × TimeFrame)
    (answer : Answer (List (Candle α))) : (m.take pair answer).series? pair' =
      if pair' = pair then Board.taken m.mostCandles (m.series? pair') answer
      else m.series? pair' := by
  cases answer with
  | ok batch => exact m.series?_updateCandles pair pair' batch
  | error cause => simp [take, Board.taken]

end Market

/-! ## Reading pairs in turn -/

namespace CandleFeed

section TakeIn

variable {α : Type}

/-- Takes in the answer for a pair. -/
def take (f : CandleFeed) (pair : Symbol × TimeFrame) : Answer (List (Candle α)) → CandleFeed
  | .ok _ => f.noteRefresh pair.1 pair.2
  | .error _ => f

/-- An answer counts for its pair if it is candles. -/
theorem refreshedTimes_take (f : CandleFeed) (pair pair' : Symbol × TimeFrame)
    (answer : Answer (List (Candle α))) :
    (f.take pair answer).refreshedTimes pair'.1 pair'.2 =
      f.refreshedTimes pair'.1 pair'.2 + if pair = pair' ∧ answer.isOk then 1 else 0 := by
  cases answer with
  | ok batch =>
    refine (Engine.refreshedTimes_noteRefresh f pair.1 pair'.1 pair.2 pair'.2).trans ?_
    simp [List.count_singleton, Prod.ext_iff, Except.isOk, Except.toBool]
  | error cause => simp [take, Except.isOk, Except.toBool]

/-- The feed and the market in the midst of a tick, and what the tick noted. -/
abbrev Reading (α : Type) := Tick α × CandleFeed × Market α

/-- Takes in the answer for the next pair of a tick. -/
def Reading.take (r : Reading α) (pair : Symbol × TimeFrame) (answer : Answer (List (Candle α))) :
    Reading α :=
  (r.1.note pair answer.latest, r.2.1.take pair answer, r.2.2.take pair answer)

end TakeIn

end CandleFeed

namespace CandleScript

variable (script : CandleScript σ α)

/-- The answer that a pair gets next. -/
def next (ex : σ) (pair : Symbol × TimeFrame) : Answer (List (Candle α)) :=
  script.answer pair ((script.asked ex).count pair)

/-- Reading a pair takes its next answer in. -/
theorem refresh_eq (f : CandleFeed) (m : Market α) (ex : σ) (pair : Symbol × TimeFrame) :
    ∃ ex', f.refresh m ex pair.1 pair.2 =
        ((script.next ex pair).latest, (f.take pair (script.next ex pair),
          m.take pair (script.next ex pair)), ex') ∧
      script.asked ex' = script.asked ex ++ [pair] := by
  have hanswer := script.candles_eq ex pair.1 pair.2 f.limit
  have hasked := script.asked_candles ex pair.1 pair.2 f.limit
  rw [CandleFeed.refresh, next, ← hanswer]
  generalize Exchange.candles ex pair.1 pair.2 f.limit = answered at hasked
  obtain ⟨answer, ex'⟩ := answered
  cases answer with
  | ok batch => exact ⟨ex', rfl, hasked⟩
  | error cause => exact ⟨ex', rfl, hasked⟩

/-- Pairs that are read in turn, each once, get the answers that were their next ones before. -/
theorem refreshPairs_eq {answer : Symbol × TimeFrame → Answer (List (Candle α))}
    {pairs : List (Symbol × TimeFrame)} (hnodup : pairs.Nodup) {ex : σ}
    (hnext : ∀ pair ∈ pairs, script.next ex pair = answer pair) (r : CandleFeed.Reading α) :
    ∃ ex', r.2.1.refreshPairs r.2.2 ex r.1 pairs =
        ((pairs.foldl (fun r pair => r.take pair (answer pair)) r).1,
          (pairs.foldl (fun r pair => r.take pair (answer pair)) r).2, ex') ∧
      script.asked ex' = script.asked ex ++ pairs := by
  induction pairs generalizing r ex with
  | nil => exact ⟨ex, rfl, (List.append_nil _).symm⟩
  | cons pair rest ih =>
    rw [List.nodup_cons] at hnodup
    obtain ⟨ex₁, hrefresh, hasked₁⟩ := script.refresh_eq r.2.1 r.2.2 ex pair
    -- the query for the first pair leaves the answers of the others where they are
    have hrest : ∀ other ∈ rest, script.next ex₁ other = answer other := by
      intro other hother
      have hne : pair ≠ other := fun h => hnodup.1 (h ▸ hother)
      rw [← hnext other (List.mem_cons_of_mem _ hother), next, next, hasked₁, List.count_append,
        List.count_singleton, if_neg (by simpa using hne), Nat.add_zero]
    rw [hnext pair List.mem_cons_self] at hrefresh
    obtain ⟨ex', hrefreshRest, hasked⟩ := ih hnodup.2 hrest (r.take pair (answer pair))
    refine ⟨ex', ?_, by rw [hasked, hasked₁, List.append_assoc, List.singleton_append]⟩
    rw [CandleFeed.refreshPairs, hrefresh]
    exact hrefreshRest

end CandleScript

/-! ## What the answers come to -/

namespace CandleFeed

section Answers

variable {α : Type}

/-- What a tick notes of an answer: one more refresh and one more update, one that its feed has
ended, or nothing. -/
theorem note_latest (k : Tick α) (pair : Symbol × TimeFrame) (answer : Answer (List (Candle α))) :
    k.note pair answer.latest =
      { refreshed := k.refreshed + if answer.isOk then 1 else 0
        updates := k.updates ++ (update? pair answer).toList
        ended := k.ended ++ if answer.isEnd then [pair.1] else [] } := by
  cases answer with
  | ok batch =>
    show k.note pair (.ok batch.getLast?) = _
    cases hlast : batch.getLast? with
    | none => simp [Tick.note, Answer.isEnd, update?, hlast, Except.isOk, Except.toBool]
    | some candle => simp [Tick.note, Answer.isEnd, update?, hlast, Except.isOk, Except.toBool]
  | error cause =>
    show k.note pair (.error cause) = _
    cases cause <;> simp [Tick.note, Answer.isEnd, update?, Except.isOk, Except.toBool]

/-- What all the answers of a tick come to together. -/
theorem foldl_take (answer : Symbol × TimeFrame → Answer (List (Candle α)))
    (pairs : List (Symbol × TimeFrame)) (r : Reading α) :
    ∃ updates counts fresh m, pairs.foldl (fun r pair => r.take pair (answer pair)) r =
      ({ refreshed := r.1.refreshed + pairs.countP fun pair => (answer pair).isOk
         updates
         ended := r.1.ended ++ (pairs.filter fun pair => (answer pair).isEnd).map (·.1) },
        { r.2.1 with counts, fresh }, m) := by
  induction pairs generalizing r with
  | nil => exact ⟨r.1.updates, r.2.1.counts, r.2.1.fresh, r.2.2, by simp⟩
  | cons pair rest ih =>
    obtain ⟨updates, counts, fresh, m, hrest⟩ := ih (r.take pair (answer pair))
    refine ⟨updates, counts, fresh, m, hrest.trans ?_⟩
    rw [Reading.take, note_latest, List.countP_cons, List.filter_cons]
    congr 2
    · show r.1.refreshed + _ + _ = _
      omega
    · cases (answer pair).isEnd <;> simp
    · cases answer pair <;> rfl

/-- Feeds that end are noted as such, and nothing else changes. -/
theorem foldl_endSymbol (symbols : List Symbol) (f : CandleFeed) :
    ∃ ended, symbols.foldl endSymbol f = { f with ended } ∧
      ∀ symbol, symbol ∈ ended ↔ symbol ∈ f.ended ∨ symbol ∈ symbols := by
  induction symbols generalizing f with
  | nil => exact ⟨f.ended, rfl, by simp⟩
  | cons symbol rest ih =>
    obtain ⟨ended, hrest, hended⟩ := ih (f.endSymbol symbol)
    refine ⟨ended, ?_, fun other => ?_⟩
    · rw [List.foldl_cons, hrest, endSymbol]
      split <;> rfl
    · rw [hended, endSymbol, List.mem_cons, or_left_comm]
      split
      · next hsymbol =>
        rw [List.contains_iff_mem] at hsymbol
        constructor
        · exact .inr
        · rintro (rfl | h)
          · exact .inl hsymbol
          · exact h
      · rw [List.mem_cons, or_assoc]

end Answers

end CandleFeed

/-! ## What becomes of a pair -/

/-- What has become of a pair in a tick. -/
structure Fate (α : Type) where
  /-- What is to be published of the pair. -/
  updates : List (Message (CandleUpdate α))
  refreshedTimes : Nat
  series : Option (CandleSeries α)

namespace Fate

variable {α : Type}

/-- How an answer is treated: a batch is counted and merged into the series of its pair, and its
latest candle is published; anything else changes nothing. -/
def after (fate : Fate α) (pair : Symbol × TimeFrame) (mostCandles : Nat)
    (answer : Answer (List (Candle α))) : Fate α where
  updates := fate.updates ++ (CandleFeed.update? pair answer).toList
  refreshedTimes := fate.refreshedTimes + if answer.isOk then 1 else 0
  series := Board.taken mostCandles fate.series answer

/-- An error leaves a pair as it is. -/
@[simp] theorem after_error (fate : Fate α) (pair : Symbol × TimeFrame) (mostCandles : Nat)
    (cause : ExchangeError) : fate.after pair mostCandles (.error cause) = fate := by
  simp [after, CandleFeed.update?, Board.taken, Except.isOk, Except.toBool]

end Fate

namespace CandleFeed

section Fates

variable {α : Type}

/-- Different pairs have different keys. -/
theorem key_injective {pair pair' : Symbol × TimeFrame} (h : key pair = key pair') :
    pair = pair' := by
  simp only [key, RoutingKey.mk.injEq, Option.some.injEq] at h
  exact Prod.ext h.1 h.2

/-- What has become of a pair so far. -/
def Reading.fate (r : Reading α) (pair : Symbol × TimeFrame) : Fate α where
  updates := r.1.updates.filter (·.key = key pair)
  refreshedTimes := r.2.1.refreshedTimes pair.1 pair.2
  series := r.2.2.series? pair

/-- What is published of a pair goes under its key. -/
theorem key_of_mem_update? {pair : Symbol × TimeFrame} {answer : Answer (List (Candle α))}
    {m : Message (CandleUpdate α)} (hm : m ∈ (update? pair answer).toList) : m.key = key pair := by
  cases answer with
  | ok batch =>
    obtain ⟨candle, -, rfl⟩ := Option.map_eq_some_iff.1 (Option.mem_toList.1 hm)
    rfl
  | error cause => cases hm

/-- An answer has its effect on its own pair. -/
theorem fate_take (r : Reading α) (pair : Symbol × TimeFrame)
    (answer : Answer (List (Candle α))) :
    (r.take pair answer).fate pair = (r.fate pair).after pair r.2.2.mostCandles answer := by
  have hupdates : (update? pair answer).toList.filter (·.key = key pair) =
      (update? pair answer).toList :=
    List.filter_eq_self.2 fun m hm => by simpa using key_of_mem_update? hm
  rw [Reading.fate, Reading.take, refreshedTimes_take, Market.series?_take, if_pos rfl, note_latest,
    List.filter_append, hupdates]
  simp [Reading.fate, Fate.after]

/-- An answer has no effect on other pairs. -/
theorem fate_take_of_ne (r : Reading α) {pair pair' : Symbol × TimeFrame} (hne : pair' ≠ pair)
    (answer : Answer (List (Candle α))) : (r.take pair' answer).fate pair = r.fate pair := by
  have hupdates : (update? pair' answer).toList.filter (·.key = key pair) = [] := by
    refine List.filter_eq_nil_iff.2 fun m hm => ?_
    rw [key_of_mem_update? hm, decide_eq_true_eq]
    exact fun h => hne (key_injective h)
  rw [Reading.fate, Reading.take, refreshedTimes_take, Market.series?_take, if_neg hne.symm,
    note_latest, List.filter_append, hupdates]
  simp [Reading.fate, hne]

/-- How many candles are kept stays the same in the midst of a tick. -/
theorem mostCandles_take (r : Reading α) (pair : Symbol × TimeFrame)
    (answer : Answer (List (Candle α))) :
    (r.take pair answer).2.2.mostCandles = r.2.2.mostCandles :=
  r.2.2.mostCandles_take pair answer

/-- Each pair is touched by its own answer alone. -/
theorem fate_foldl_take (answer : Symbol × TimeFrame → Answer (List (Candle α)))
    {pairs : List (Symbol × TimeFrame)} (hnodup : pairs.Nodup) (r : Reading α)
    (pair : Symbol × TimeFrame) :
    (pairs.foldl (fun r pair => r.take pair (answer pair)) r).fate pair =
      if pair ∈ pairs then (r.fate pair).after pair r.2.2.mostCandles (answer pair)
      else r.fate pair := by
  induction pairs generalizing r with
  | nil => simp
  | cons pair' rest ih =>
    rw [List.nodup_cons] at hnodup
    rw [List.foldl_cons, ih hnodup.2, mostCandles_take]
    by_cases hpair : pair' = pair
    · subst hpair
      rw [if_neg hnodup.1, if_pos List.mem_cons_self, fate_take]
    · rw [fate_take_of_ne r hpair]
      simp [Ne.symm hpair]

end Fates

/-! ## Ticks -/

/-- Distinct symbols and time frames make distinct pairs that are due. -/
theorem nodup_duePairs {f : CandleFeed} (hsymbols : f.symbols.Nodup)
    (htimeFrames : f.timeFrames.Nodup) : f.duePairs.Nodup := by
  rw [duePairs, List.nodup_flatMap]
  refine ⟨fun symbol _ => ?_, ?_⟩
  · exact (htimeFrames.map fun t t' h => (Prod.mk.inj h).2).filter _
  · refine (hsymbols.filter _).imp fun hne => ?_
    intro pair hfirst hsecond
    obtain ⟨t, -, rfl⟩ := List.mem_map.1 (List.mem_filter.1 hfirst).1
    obtain ⟨t', -, h⟩ := List.mem_map.1 (List.mem_filter.1 hsecond).1
    exact hne (Prod.mk.inj h).1.symm

/-- In a replay, the pairs of the symbols that have not ended are due. -/
theorem mem_duePairs {f : CandleFeed} (hreplays : f.replays = true) {pair : Symbol × TimeFrame} :
    pair ∈ f.duePairs ↔ pair.1 ∈ f.symbols ∧ pair.2 ∈ f.timeFrames ∧ pair.1 ∉ f.ended := by
  have hdue : f.isDue = fun _ => true := funext fun _ => by rw [isDue, hreplays, Bool.true_or]
  have hopen (symbol : Symbol) : symbol ∈ f.symbols.filter (!f.ended.contains ·) ↔
      symbol ∈ f.symbols ∧ symbol ∉ f.ended := by
    simp
  rw [duePairs, hdue, List.mem_flatMap]
  constructor
  · rintro ⟨symbol, hsymbol, hpair⟩
    obtain ⟨t, ht, rfl⟩ := List.mem_map.1 (List.mem_filter.1 hpair).1
    exact ⟨((hopen symbol).1 hsymbol).1, ht, ((hopen symbol).1 hsymbol).2⟩
  · rintro ⟨hsymbol, ht, hended⟩
    exact ⟨pair.1, (hopen _).2 ⟨hsymbol, hended⟩,
      List.mem_filter.2 ⟨List.mem_map.2 ⟨pair.2, ht, rfl⟩, rfl⟩⟩

end CandleFeed

namespace CandleScript

variable (script : CandleScript σ α)

/-- What a tick comes to: each pair that is due is asked for once, and is treated by its own answer
alone. -/
structure Ticked (f : CandleFeed) (m : Market α) (ex : σ)
    (done : CandleFeed.Tick α × (CandleFeed × Market α) × σ) : Prop where
  asked_eq : script.asked done.2.2 = script.asked ex ++ f.duePairs
  refreshed_eq : done.1.refreshed = f.duePairs.countP fun pair => (script.next ex pair).isOk
  feed_eq : ∃ counts fresh ended, done.2.1.1 = { f with counts, fresh, ended }
  mem_ended : ∀ symbol, symbol ∈ done.2.1.1.ended ↔ symbol ∈ f.ended ∨
    ∃ t, (symbol, t) ∈ f.duePairs ∧ (script.next ex (symbol, t)).isEnd = true
  fate_eq : ∀ pair, CandleFeed.Reading.fate (done.1, done.2.1) pair =
    if pair ∈ f.duePairs then
      (CandleFeed.Reading.fate ({}, f, m) pair).after pair m.mostCandles (script.next ex pair)
    else CandleFeed.Reading.fate ({}, f, m) pair

/-- A tick asks for each due pair once, and each is treated by its own answer: the answers for other
pairs take none of its answers away and leave its fate alone. -/
theorem tick_spec {f : CandleFeed} (hnodup : f.duePairs.Nodup) (m : Market α) (ex : σ) :
    script.Ticked f m ex (f.tick m ex) := by
  have hnext : ∀ pair ∈ f.duePairs, script.next ex pair = script.next ex pair := fun _ _ => rfl
  obtain ⟨ex', hrefresh, hasked⟩ := script.refreshPairs_eq hnodup hnext ({}, f, m)
  obtain ⟨updates, counts, fresh, m', hread⟩ :=
    CandleFeed.foldl_take (script.next ex) f.duePairs ({}, f, m)
  have hfate := CandleFeed.fate_foldl_take (script.next ex) hnodup ({}, f, m)
  rw [hread] at hrefresh hfate
  obtain ⟨ended, hends, hended⟩ := CandleFeed.foldl_endSymbol
    ((f.duePairs.filter fun pair => (script.next ex pair).isEnd).map (·.1)) { f with counts, fresh }
  rw [CandleFeed.tick, hrefresh]
  simp only [List.nil_append, Nat.zero_add, hends]
  refine ⟨hasked, rfl, ⟨counts, fresh, ended, rfl⟩, fun symbol => ?_, hfate⟩
  rw [hended]
  simp

end CandleScript

end MarketEngine
