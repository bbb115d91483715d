import MarketEngine.Proofs.Feed.Rounds
import Mathlib.Data.Nat.Find
import Mathlib.Order.Bounds.Basic
/-!
# Replays end with their feeds

In a replay, a symbol is asked for until one of its time frames answers that the feed has ended, at
the tick `p` say (`CandleScript.Ends`). The other time frames of the symbol still get their answer
in that tick, and none in a later one. So the loop of the feed ends after as many ticks as the last
symbol takes, whatever errors come in between (`Session.runFeed_exact`).
-/

namespace MarketEngine

variable {σ α : Type} [Exchange σ α]

namespace CandleScript

variable (script : CandleScript σ α)

/-! ## Where feeds end -/

/-- The positions, counted from one, at which some time frame of a symbol answers that its feed has
ended. -/
def endings (timeFrames : List TimeFrame) (symbol : Symbol) : Set Nat :=
  {p | ∃ t ∈ timeFrames, ∃ n, p = n + 1 ∧ (script.answer (symbol, t) n).isEnd = true}

/-- The first of these positions. -/
def Ends (timeFrames : List TimeFrame) (symbol : Symbol) (p : Nat) : Prop :=
  IsLeast (script.endings timeFrames symbol) p

/-- How many of the first answers for a pair are candles. -/
def successes (pair : Symbol × TimeFrame) (n : Nat) : Nat :=
  (List.range n).countP fun i => (script.answer pair i).isOk

/-- One more answer counts if it is candles. -/
theorem successes_succ (pair : Symbol × TimeFrame) (n : Nat) :
    script.successes pair (n + 1) =
      script.successes pair n + if (script.answer pair n).isOk then 1 else 0 := by
  rw [successes, List.range_succ, List.countP_append, List.countP_singleton, successes]

variable {script} {timeFrames : List TimeFrame} {symbol : Symbol} {k p : Nat}

/-- If some position is an end there is a first one. -/
theorem exists_ends_le (h : p ∈ script.endings timeFrames symbol) :
    ∃ q ≤ p, script.Ends timeFrames symbol q := by
  classical
  have hex : ∃ q, q ∈ script.endings timeFrames symbol := ⟨p, h⟩
  exact ⟨Nat.find hex, Nat.find_le h, Nat.find_spec hex, fun q hq => Nat.find_le hq⟩

variable (script timeFrames symbol) in
/-- Whether a feed of the symbol has ended within so many ticks. -/
def EndedBy (k : Nat) : Prop := ∃ p ≤ k, script.Ends timeFrames symbol p

/-- No feed has ended before the first tick. -/
theorem not_endedBy_zero : ¬script.EndedBy timeFrames symbol 0 := by
  rintro ⟨p, hp, ⟨t, -, n, rfl, -⟩, -⟩
  omega

/-- A feed has ended with one more tick if it had before or if this tick finds an end. -/
theorem endedBy_succ : script.EndedBy timeFrames symbol (k + 1) ↔
    script.EndedBy timeFrames symbol k ∨
      ∃ t ∈ timeFrames, (script.answer (symbol, t) k).isEnd = true := by
  constructor
  · rintro ⟨p, hp, hends⟩
    rcases Nat.le_succ_iff.1 hp with hle | rfl
    · exact .inl ⟨p, hle, hends⟩
    · obtain ⟨t, ht, n, hn, hend⟩ := hends.1
      obtain rfl := Nat.succ.inj hn
      exact .inr ⟨t, ht, hend⟩
  · rintro (⟨p, hp, hends⟩ | ⟨t, ht, hend⟩)
    · exact ⟨p, Nat.le_succ_of_le hp, hends⟩
    · exact exists_ends_le ⟨t, ht, k, rfl, hend⟩

/-- A symbol is open at a tick unless it ended before. -/
theorem not_endedBy_iff : ¬script.EndedBy timeFrames symbol k ↔
    ∀ p, script.Ends timeFrames symbol p → k + 1 ≤ p := by
  constructor
  · exact fun h p hp => Nat.not_le.1 fun hle => h ⟨p, hle, hp⟩
  · rintro h ⟨p, hle, hp⟩
    exact absurd (h p hp) (Nat.not_le.2 (Nat.lt_succ_of_le hle))

/-- A symbol ends with a tick if some time frame answers so then, and none did before. -/
theorem ends_succ_iff : script.Ends timeFrames symbol (k + 1) ↔
    (∃ t ∈ timeFrames, (script.answer (symbol, t) k).isEnd = true) ∧
      ∀ n < k, ∀ t ∈ timeFrames, (script.answer (symbol, t) n).isEnd = false := by
  constructor
  · rintro ⟨⟨t, ht, n, hn, hend⟩, hleast⟩
    obtain rfl := Nat.succ.inj hn
    refine ⟨⟨t, ht, hend⟩, fun n hn t ht => Bool.eq_false_iff.2 fun hend => ?_⟩
    have hle := hleast ⟨t, ht, n, rfl, hend⟩
    omega
  · rintro ⟨⟨t, ht, hend⟩, hbefore⟩
    refine ⟨⟨t, ht, k, rfl, hend⟩, ?_⟩
    rintro p ⟨t, ht, n, rfl, hend⟩
    by_contra hlt
    rw [hbefore n (by omega) t ht] at hend
    exact Bool.false_ne_true hend

/-! ## The state after some ticks -/

variable (script timeFrames symbol) in
/-- Of the first `k` ticks, `n` ask for the symbol: all of them, or those up to its end. -/
def Turns (k n : Nat) : Prop :=
  ¬script.EndedBy timeFrames symbol k ∧ n = k ∨ n ≤ k ∧ script.Ends timeFrames symbol n

/-- As long as no feed has ended every tick asks for the symbol. -/
theorem Turns.eq_of_open {n : Nat} (h : script.Turns timeFrames symbol k n)
    (hopen : ¬script.EndedBy timeFrames symbol k) : n = k := by
  rcases h with ⟨-, rfl⟩ | ⟨hle, hends⟩
  · rfl
  · exact absurd ⟨n, hle, hends⟩ hopen

/-- After the end the symbol was asked for up to its end. -/
theorem Turns.eq_of_ends {n : Nat} (h : script.Turns timeFrames symbol k n)
    (hends : script.Ends timeFrames symbol p) (hp : p ≤ k) : n = p := by
  rcases h with ⟨hopen, rfl⟩ | ⟨-, hends'⟩
  · exact absurd ⟨p, hp, hends⟩ hopen
  · exact hends'.unique hends

/-- Before the end one more tick asks once more. -/
theorem Turns.succ_of_open {n : Nat} (h : script.Turns timeFrames symbol k n)
    (hopen : ¬script.EndedBy timeFrames symbol k) :
    script.Turns timeFrames symbol (k + 1) (n + 1) := by
  obtain rfl := h.eq_of_open hopen
  by_cases hended : script.EndedBy timeFrames symbol (n + 1)
  · obtain ⟨p, hp, hends⟩ := hended
    obtain rfl : p = n + 1 := Nat.le_antisymm hp (not_endedBy_iff.1 hopen p hends)
    exact .inr ⟨Nat.le_refl _, hends⟩
  · exact .inl ⟨hended, rfl⟩

/-- After the end one more tick asks no more. -/
theorem Turns.succ_of_ended {n : Nat} (h : script.Turns timeFrames symbol k n)
    (hended : script.EndedBy timeFrames symbol k) : script.Turns timeFrames symbol (k + 1) n := by
  rcases h with ⟨hopen, -⟩ | ⟨hle, hends⟩
  · exact absurd hended hopen
  · exact .inr ⟨Nat.le_succ_of_le hle, hends⟩

variable (script) in
/-- The engine of a replay after `k` ticks of its feed. -/
structure Stands (symbols : List Symbol) (timeFrames : List TimeFrame) (k : Nat)
    (e : Engine σ α) : Prop where
  symbols_eq : e.feed.symbols = symbols
  timeFrames_eq : e.feed.timeFrames = timeFrames
  replays : e.feed.replays = true
  mem_ended : ∀ symbol ∈ symbols, symbol ∈ e.feed.ended ↔ script.EndedBy timeFrames symbol k
  turns : ∀ symbol ∈ symbols, ∀ t ∈ timeFrames,
    script.Turns timeFrames symbol k ((script.asked e.exchange).count (symbol, t))
  refreshedTimes_eq : ∀ symbol ∈ symbols, ∀ t ∈ timeFrames, e.feed.refreshedTimes symbol t =
    script.successes (symbol, t) ((script.asked e.exchange).count (symbol, t))

/-- At the start nobody was asked, nothing has ended and nothing was counted. -/
theorem stands_start {symbols : List Symbol} {limit : Nat} {e : Engine σ α}
    (hfeed : e.feed = { symbols, timeFrames, limit, replays := true })
    (hasked : script.asked e.exchange = []) : script.Stands symbols timeFrames 0 e where
  symbols_eq := by rw [hfeed]
  timeFrames_eq := by rw [hfeed]
  replays := by rw [hfeed]
  mem_ended symbol _ := by
    rw [hfeed]
    exact iff_of_false List.not_mem_nil not_endedBy_zero
  turns symbol _ t _ := by
    rw [hasked]
    exact .inl ⟨not_endedBy_zero, rfl⟩
  refreshedTimes_eq symbol _ t _ := by
    rw [hfeed, hasked]
    rfl

namespace Stands

variable {symbols : List Symbol} {e : Engine σ α}

/-- How a replay stands is read off its feed and off whom it asked. -/
theorem of_eq {e' : Engine σ α} (h : script.Stands symbols timeFrames k e)
    (hfeed : e'.feed = e.feed) (hasked : script.asked e'.exchange = script.asked e.exchange) :
    script.Stands symbols timeFrames k e' where
  symbols_eq := by rw [hfeed, h.symbols_eq]
  timeFrames_eq := by rw [hfeed, h.timeFrames_eq]
  replays := by rw [hfeed, h.replays]
  mem_ended := by
    rw [hfeed]
    exact h.mem_ended
  turns := by
    rw [hasked]
    exact h.turns
  refreshedTimes_eq := by
    rw [hfeed, hasked]
    exact h.refreshedTimes_eq

/-- The pairs that are due are those of the symbols that have not ended. -/
theorem mem_duePairs (h : script.Stands symbols timeFrames k e) {t : TimeFrame} :
    (symbol, t) ∈ e.feed.duePairs ↔
      symbol ∈ symbols ∧ t ∈ timeFrames ∧ ¬script.EndedBy timeFrames symbol k := by
  rw [CandleFeed.mem_duePairs h.replays, h.symbols_eq, h.timeFrames_eq]
  refine and_congr_right fun hsymbol => and_congr_right fun _ => ?_
  rw [h.mem_ended symbol hsymbol]

/-- Whoever is asked for gets the answer of this tick. -/
theorem next_eq (h : script.Stands symbols timeFrames k e) {pair : Symbol × TimeFrame}
    (hpair : pair ∈ e.feed.duePairs) : script.next e.exchange pair = script.answer pair k := by
  obtain ⟨symbol, t⟩ := pair
  obtain ⟨hsymbol, ht, hopen⟩ := h.mem_duePairs.1 hpair
  rw [next, (h.turns symbol hsymbol t ht).eq_of_open hopen]

/-- A replay is finished when a feed of every symbol has ended. -/
theorem finished_iff (h : script.Stands symbols timeFrames k e) :
    e.feed.finished = true ↔ ∀ symbol ∈ symbols, script.EndedBy timeFrames symbol k := by
  rw [CandleFeed.finished, List.all_eq_true, h.symbols_eq]
  refine forall_congr' fun symbol => imp_congr_right fun hsymbol => ?_
  rw [List.contains_iff_mem, h.mem_ended symbol hsymbol]

/-- What a tick of the feed comes to. -/
theorem ticked (h : script.Stands symbols timeFrames k e) (hsymbols : symbols.Nodup)
    (htimeFrames : timeFrames.Nodup) :
    script.Ticked e.feed e.market e.exchange (e.feed.tick e.market e.exchange) :=
  script.tick_spec (CandleFeed.nodup_duePairs (h.symbols_eq ▸ hsymbols)
    (h.timeFrames_eq ▸ htimeFrames)) e.market e.exchange

/-- A tick asks once for every pair that is due, and for no other. -/
theorem count_ticked (h : script.Stands symbols timeFrames k e) (hsymbols : symbols.Nodup)
    (htimeFrames : timeFrames.Nodup) (pair : Symbol × TimeFrame) :
    (script.asked e.ticked.exchange).count pair =
      (script.asked e.exchange).count pair + if pair ∈ e.feed.duePairs then 1 else 0 := by
  have hnodup := CandleFeed.nodup_duePairs (h.symbols_eq ▸ hsymbols)
    (h.timeFrames_eq ▸ htimeFrames)
  have hasked : script.asked e.ticked.exchange = script.asked e.exchange ++ e.feed.duePairs :=
    (h.ticked hsymbols htimeFrames).asked_eq
  rw [hasked, List.count_append, hnodup.count]

/-- One tick more. -/
theorem tick (h : script.Stands symbols timeFrames k e) (hsymbols : symbols.Nodup)
    (htimeFrames : timeFrames.Nodup) : script.Stands symbols timeFrames (k + 1) e.ticked := by
  have hticked := h.ticked hsymbols htimeFrames
  obtain ⟨counts, fresh, ended, hfeed⟩ := hticked.feed_eq
  have hfeed : e.ticked.feed = { e.feed with counts, fresh, ended } := hfeed
  have hpairs (symbol : Symbol) (hsymbol : symbol ∈ symbols) (t : TimeFrame) (ht : t ∈ timeFrames) :
      script.Turns timeFrames symbol (k + 1) ((script.asked e.ticked.exchange).count (symbol, t)) ∧
      e.ticked.feed.refreshedTimes symbol t =
        script.successes (symbol, t) ((script.asked e.ticked.exchange).count (symbol, t)) := by
    have hturns := h.turns symbol hsymbol t ht
    have htimes := congrArg Fate.refreshedTimes (hticked.fate_eq (symbol, t))
    rw [h.count_ticked hsymbols htimeFrames]
    -- after its end a pair is left alone, and before that it is asked once
    by_cases hended : script.EndedBy timeFrames symbol k
    · have hidle : (symbol, t) ∉ e.feed.duePairs := fun hdue => (h.mem_duePairs.1 hdue).2.2 hended
      rw [if_neg hidle] at htimes ⊢
      exact ⟨hturns.succ_of_ended hended, htimes.trans (h.refreshedTimes_eq symbol hsymbol t ht)⟩
    · have hdue : (symbol, t) ∈ e.feed.duePairs := h.mem_duePairs.2 ⟨hsymbol, ht, hended⟩
      rw [if_pos hdue, h.next_eq hdue] at htimes
      have hbefore := h.refreshedTimes_eq symbol hsymbol t ht
      have hcount := hturns.eq_of_open hended
      rw [hcount] at hturns hbefore ⊢
      rw [if_pos hdue, successes_succ, ← hbefore]
      exact ⟨hturns.succ_of_open hended, htimes⟩
  refine ⟨by rw [hfeed, h.symbols_eq], by rw [hfeed, h.timeFrames_eq], by rw [hfeed, h.replays],
    fun symbol hsymbol => ?_, fun symbol hsymbol t ht => (hpairs symbol hsymbol t ht).1,
    fun symbol hsymbol t ht => (hpairs symbol hsymbol t ht).2⟩
  -- a symbol has ended if it had before, or if one of its pairs is told so now
  refine (hticked.mem_ended symbol).trans ?_
  rw [h.mem_ended symbol hsymbol, endedBy_succ]
  refine or_congr_right' fun hopen => exists_congr fun t => ?_
  constructor
  · rintro ⟨hdue, hend⟩
    rw [h.next_eq hdue] at hend
    exact ⟨(h.mem_duePairs.1 hdue).2.1, hend⟩
  · rintro ⟨ht, hend⟩
    have hdue := h.mem_duePairs.2 ⟨hsymbol, ht, hopen⟩
    rw [h.next_eq hdue]
    exact ⟨hdue, hend⟩

end Stands

end CandleScript

/-! ## Rounds -/

namespace Session

variable [Amount α] [Written α]

/-- A round is one tick of the feed: what the consumers do about it asks nobody for candles. -/
theorem stands_round {script : CandleScript σ α} {symbols : List Symbol}
    {timeFrames : List TimeFrame} {k : Nat} {s : Session σ α}
    (h : script.Stands symbols timeFrames k s.shared) (hsymbols : symbols.Nodup)
    (htimeFrames : timeFrames.Nodup) (halone : s.AsksAlone script) :
    script.Stands symbols timeFrames (k + 1) s.round.shared :=
  (h.tick hsymbols htimeFrames).of_eq (round_eq halone).1 halone

/-- Round after round the replay stands as the script says. -/
theorem stands_iterate {script : CandleScript σ α} {symbols : List Symbol}
    {timeFrames : List TimeFrame} {s : Session σ α}
    (h : script.Stands symbols timeFrames 0 s.shared) (hsymbols : symbols.Nodup)
    (htimeFrames : timeFrames.Nodup) {n : Nat}
    (halone : ∀ k < n, (round^[k] s).AsksAlone script) :
    ∀ k ≤ n, script.Stands symbols timeFrames k (round^[k] s).shared := by
  intro k hk
  induction k with
  | zero => exact h
  | succ k ih =>
    rw [Function.iterate_succ_apply']
    exact stands_round (ih (Nat.le_of_succ_le hk)) hsymbols htimeFrames (halone k hk)

/-- Where the loop of the feed finds that all feeds have ended after `last` rounds, and not before,
it ends then. -/
theorem runFeed_eq {s : Session σ α} (hup : s.isUp .candles = true) {last : Nat}
    (hbefore : ∀ k < last, (round^[k + 1] s).shared.feed.finished = false)
    (hlast : (round^[last + 1] s).shared.feed.finished = true) (ticks : Nat) :
    s.runFeed ticks = round^[min ticks (last + 1)] s := by
  induction ticks generalizing s last with
  | zero => rw [Nat.zero_min]; rfl
  | succ ticks ih =>
    have hround : s.runFeed (ticks + 1) =
        if s.round.shared.feed.finished then s.round else s.round.runFeed ticks := by
      rw [runFeed, if_pos hup]
      rfl
    rw [hround, Nat.add_min_add_right, Function.iterate_succ_apply]
    cases last with
    | zero =>
      have hended : s.round.shared.feed.finished = true := hlast
      rw [if_pos hended, Nat.min_zero]
      rfl
    | succ last =>
      have hopen : ¬s.round.shared.feed.finished = true := by
        rw [Bool.not_eq_true]
        exact hbefore 0 (Nat.succ_pos _)
      rw [if_neg hopen]
      exact ih (isUp_round hup) (fun k hk => hbefore (k + 1) (Nat.succ_lt_succ hk)) hlast

/-- The loop of a replay's feed ends with the last of its symbols. -/
theorem runFeed_of_isGreatest {script : CandleScript σ α} {symbols : List Symbol}
    {timeFrames : List TimeFrame} {s : Session σ α} (hup : s.isUp .candles = true) {last : Nat}
    (h : ∀ k ≤ last, script.Stands symbols timeFrames k (round^[k] s).shared)
    (hends : ∀ symbol ∈ symbols, ∃ p, script.Ends timeFrames symbol p)
    (hgreatest : IsGreatest {p | ∃ symbol ∈ symbols, script.Ends timeFrames symbol p} last)
    (ticks : Nat) : s.runFeed ticks = round^[min ticks last] s := by
  obtain ⟨⟨latest, hlatest, hend⟩, hlargest⟩ := hgreatest
  obtain ⟨m, rfl⟩ : ∃ m, last = m + 1 := by
    obtain ⟨t, -, m, hm, -⟩ := hend.1
    exact ⟨m, hm⟩
  refine runFeed_eq hup (fun k hk => ?_) ((h _ (Nat.le_refl _)).finished_iff.2 ?_) ticks
  · -- the last symbol has not ended yet
    rw [← Bool.not_eq_true, (h (k + 1) (by omega)).finished_iff]
    intro hall
    obtain ⟨p, hp, hendsp⟩ := hall latest hlatest
    have hsame := hendsp.unique hend
    omega
  · intro symbol hsymbol
    obtain ⟨p, hp⟩ := hends symbol hsymbol
    exact ⟨p, hlargest ⟨symbol, hsymbol, hp⟩, hp⟩

/-- What is known of a pair. -/
def fate (s : Session σ α) (pair : Symbol × TimeFrame) : Fate α :=
  CandleFeed.Reading.fate ({}, s.shared.feed, s.shared.market) pair

/-- What the next round makes of a pair, with what its tick publishes of it. -/
def nextFate (s : Session σ α) (pair : Symbol × TimeFrame) : Fate α :=
  CandleFeed.Reading.fate ((s.shared.feed.tick s.shared.market s.shared.exchange).1,
    s.round.shared.feed, s.round.shared.market) pair

/-- In a round a pair that is due gets its next answer, and any other keeps what is known of it. -/
theorem nextFate_eq {script : CandleScript σ α} {symbols : List Symbol}
    {timeFrames : List TimeFrame} {k : Nat} {s : Session σ α}
    (h : script.Stands symbols timeFrames k s.shared) (hsymbols : symbols.Nodup)
    (htimeFrames : timeFrames.Nodup) (halone : s.AsksAlone script) (pair : Symbol × TimeFrame) :
    s.nextFate pair =
      if pair ∈ s.shared.feed.duePairs then
        (s.fate pair).after pair s.shared.market.mostCandles (script.answer pair k)
      else s.fate pair := by
  obtain ⟨hfeed, hmarket⟩ := round_eq halone
  have hfate := (h.ticked hsymbols htimeFrames).fate_eq pair
  rw [nextFate, hfeed, hmarket]
  refine hfate.trans ?_
  split
  · next hdue => rw [h.next_eq hdue]; rfl
  · rfl

/-- Let a session begin a replay of distinct symbols and time frames on an exchange that answers
from a script, and let nobody but its ticks ask for candles in the first `n` rounds.

* A tick asks once for each pair whose symbol has not ended at an earlier tick, and for no other.
* All feeds have ended after `k` ticks if and only if each symbol has ended by then. So the loop
  of the feed ends after exactly as many ticks as the last symbol takes, and then each pair was
  refreshed as often as it was answered with candles up to the end of its symbol.
* What becomes of a pair in a tick follows from its own answer alone, and it stays as it is where
  the answer is an error, or the symbol ended before. -/
theorem runFeed_exact (script : CandleScript σ α) {s : Session σ α} {symbols : List Symbol}
    {timeFrames : List TimeFrame} {limit : Nat}
    (hfeed : s.shared.feed = { symbols, timeFrames, limit, replays := true })
    (hsymbols : symbols.Nodup) (htimeFrames : timeFrames.Nodup)
    (hasked : script.asked s.shared.exchange = []) (hup : s.isUp .candles = true) {n : Nat}
    (halone : ∀ k < n, (round^[k] s).AsksAlone script) :
    (∀ k ≤ n, ∃ pairs, pairs.Nodup ∧
      script.asked (round^[k] s).shared.ticked.exchange =
        script.asked (round^[k] s).shared.exchange ++ pairs ∧
      (∀ symbol t, (symbol, t) ∈ pairs ↔ symbol ∈ symbols ∧ t ∈ timeFrames ∧
        ∀ p, script.Ends timeFrames symbol p → k + 1 ≤ p) ∧
      (round^[k] s).tick.2 = pairs.countP fun pair => (script.answer pair k).isOk) ∧
    (∀ k ≤ n, (round^[k] s).shared.feed.finished = true ↔
      ∀ symbol ∈ symbols, ∃ p ≤ k, script.Ends timeFrames symbol p) ∧
    (∀ last ≤ n, (∀ symbol ∈ symbols, ∃ p, script.Ends timeFrames symbol p) →
      IsGreatest {p | ∃ symbol ∈ symbols, script.Ends timeFrames symbol p} last →
      (∀ ticks, s.runFeed ticks = round^[min ticks last] s) ∧
      ∀ symbol ∈ symbols, ∀ p, script.Ends timeFrames symbol p → ∀ t ∈ timeFrames,
        (round^[last] s).shared.feed.refreshedTimes symbol t = script.successes (symbol, t) p) ∧
    ∀ k < n, ∀ symbol ∈ symbols, ∀ t ∈ timeFrames,
      ((∀ p, script.Ends timeFrames symbol p → k + 1 ≤ p) →
        (round^[k] s).nextFate (symbol, t) = ((round^[k] s).fate (symbol, t)).after (symbol, t)
          (round^[k] s).shared.market.mostCandles (script.answer (symbol, t) k)) ∧
      ((∃ p ≤ k, script.Ends timeFrames symbol p) ∨
          (∃ cause, script.answer (symbol, t) k = .error cause) →
        (round^[k] s).nextFate (symbol, t) = (round^[k] s).fate (symbol, t)) := by
  have hstart := CandleScript.stands_start hfeed hasked
  -- where the feed stands after `k` rounds says all about the next one
  have hstands := stands_iterate hstart hsymbols htimeFrames halone
  refine ⟨fun k hk => ?_, fun k hk => (hstands k hk).finished_iff, fun last hlast hends hgreatest =>
    ⟨runFeed_of_isGreatest hup (fun k hk => hstands k (hk.trans hlast)) hends hgreatest, ?_⟩,
    fun k hk symbol hsymbol t ht => ⟨fun hopen => ?_, fun hquiet => ?_⟩⟩
  · have h := hstands k hk
    have hticked := h.ticked hsymbols htimeFrames
    refine ⟨_, CandleFeed.nodup_duePairs (h.symbols_eq ▸ hsymbols) (h.timeFrames_eq ▸ htimeFrames),
      hticked.asked_eq, fun symbol t => ?_, ?_⟩
    · rw [h.mem_duePairs, CandleScript.not_endedBy_iff]
    · refine hticked.refreshed_eq.trans ?_
      exact List.countP_congr fun pair hpair => by rw [h.next_eq hpair]
  · intro symbol hsymbol p hp t ht
    have h := hstands last hlast
    have hle : p ≤ last := hgreatest.2 ⟨symbol, hsymbol, hp⟩
    rw [h.refreshedTimes_eq symbol hsymbol t ht, (h.turns symbol hsymbol t ht).eq_of_ends hp hle]
  · have h := hstands k (Nat.le_of_lt hk)
    have hdue := h.mem_duePairs.2 ⟨hsymbol, ht, CandleScript.not_endedBy_iff.2 hopen⟩
    rw [nextFate_eq h hsymbols htimeFrames (halone k hk), if_pos hdue]
  · have h := hstands k (Nat.le_of_lt hk)
    rw [nextFate_eq h hsymbols htimeFrames (halone k hk)]
    split
    · next hdue =>
      rcases hquiet with hended | ⟨cause, hcause⟩
      · exact absurd hended (h.mem_duePairs.1 hdue).2.2
      · rw [hcause, Fate.after_error]
    · rfl

end Session

/-! ## A replay -/

/-- The answers that an exchange gives for each pair, one after the other. -/
abbrev Tape (α : Type) := Symbol × TimeFrame → Nat → Answer (List (Candle α))

/-- An exchange that answers queries for candles from a tape, and knows nothing else. -/
structure TapedExchange {α : Type} (tape : Tape α) where
  /-- The pairs that were asked for, in order. -/
  asked : List (Symbol × TimeFrame) := []

instance {α : Type} (tape : Tape α) : Exchange (TapedExchange tape) α where
  candles ex symbol t _ :=
    (tape (symbol, t) (ex.asked.count (symbol, t)), ⟨ex.asked ++ [(symbol, t)]⟩)
  trades ex _ _ := (.ok [], ex)
  ticker ex symbol := (.error (.unavailable symbol), ex)
  book ex symbol := (.error (.unavailable symbol), ex)
  balances ex := (.ok [], ex)
  openOrders ex _ := (.ok [], ex)

/-- Any answers can be laid out. -/
def CandleScript.ofTape {α : Type} (tape : Tape α) : CandleScript (TapedExchange tape) α where
  answer := tape
  asked := TapedExchange.asked
  candles_eq _ _ _ _ := rfl
  asked_candles _ _ _ _ := rfl
  asked_trades _ _ _ := rfl
  asked_ticker _ _ := rfl
  asked_book _ _ := rfl
  asked_balances _ := rfl
  asked_openOrders _ _ := rfl

/-- Two symbols with time frames that end at different ticks, and an error in between. -/
def shortTape : Tape ℚ
  | ("BTC/USDT", .oneHour), 1 => .error (.unavailable "busy")
  | ("BTC/USDT", .fourHours), 2 => .error (.feedEnded "BTC/USDT")
  | ("ETH/USDT", .oneHour), 1 => .error (.feedEnded "ETH/USDT")
  | ("ETH/USDT", .fourHours), _ => .ok []
  | _, n => .ok [⟨n, 1, 1, 1, 1, 1⟩]

namespace Session

/-- A session that replays them, with a task that follows its candles. -/
def shortReplay : Session (TapedExchange shortTape) ℚ :=
  followTask
    { shared :=
        { exchangeName := "sim", exchange := {}, market := ⟨10, 10, []⟩
          feed := { symbols := ["BTC/USDT", "ETH/USDT"], timeFrames := [.oneHour, .fourHours]
                    limit := 10, replays := true }
          desk := ⟨.empty 1, ⟨[]⟩, ⟨0, 0⟩, 10, []⟩
          evaluations :=
            [{ symbol := "BTC/USDT", timeFrames := [.oneHour, .fourHours], strategies := [] }]
          tasks := [{ owner := 0, timeFrame := .oneHour, evaluators := [] }]
          exporter := { place := "" } }
      channels := freshChannels 1 1 } 0

/-- The loop ends after the three ticks that the first symbol takes. In its last one, the other time
frame of the symbol is still refreshed. -/
theorem runFeed_exact_short :
    (∀ ticks, shortReplay.runFeed ticks = round^[min ticks 3] shortReplay) ∧
      (round^[3] shortReplay).shared.feed.refreshedTimes "BTC/USDT" .oneHour = 2 ∧
      (round^[3] shortReplay).shared.feed.refreshedTimes "BTC/USDT" .fourHours = 2 ∧
      (round^[3] shortReplay).shared.feed.refreshedTimes "ETH/USDT" .oneHour = 1 ∧
      (round^[3] shortReplay).shared.feed.refreshedTimes "ETH/USDT" .fourHours = 2 := by
  have halone : ∀ k < 3, (round^[k] shortReplay).AsksAlone (.ofTape shortTape) := by
    decide +kernel
  have hfirst : (CandleScript.ofTape shortTape).Ends [.oneHour, .fourHours] "BTC/USDT" 3 :=
    CandleScript.ends_succ_iff.2 (by decide +kernel)
  have hsecond : (CandleScript.ofTape shortTape).Ends [.oneHour, .fourHours] "ETH/USDT" 2 :=
    CandleScript.ends_succ_iff.2 (by decide +kernel)
  have hgreatest : IsGreatest {p | ∃ symbol ∈ ["BTC/USDT", "ETH/USDT"],
      (CandleScript.ofTape shortTape).Ends [.oneHour, .fourHours] symbol p} 3 := by
    -- the symbols end after three and after two ticks
    refine ⟨⟨_, List.mem_cons_self, hfirst⟩, ?_⟩
    rintro p ⟨symbol, hsymbol, hp⟩
    rcases List.mem_pair.1 hsymbol with rfl | rfl
    · exact Nat.le_of_eq (hp.unique hfirst)
    · rw [hp.unique hsecond]
      decide
  have hfeed : shortReplay.shared.feed =
      { symbols := ["BTC/USDT", "ETH/USDT"], timeFrames := [.oneHour, .fourHours]
        limit := 10, replays := true } := rfl
  obtain ⟨-, -, hends, -⟩ := runFeed_exact (.ofTape shortTape) hfeed (by decide) (by decide) rfl
    (by decide +kernel) halone
  have hall : ∀ symbol ∈ ["BTC/USDT", "ETH/USDT"],
      ∃ p, (CandleScript.ofTape shortTape).Ends [.oneHour, .fourHours] symbol p := by
    intro symbol hsymbol
    rcases List.mem_pair.1 hsymbol with rfl | rfl
    · exact ⟨3, hfirst⟩
    · exact ⟨2, hsecond⟩
  obtain ⟨hloop, htimes⟩ := hends 3 (Nat.le_refl _) hall hgreatest
  exact ⟨hloop, htimes _ (by simp) _ hfirst _ (by simp), htimes _ (by simp) _ hfirst _ (by simp),
    htimes _ (by simp) _ hsecond _ (by simp), htimes _ (by simp) _ hsecond _ (by simp)⟩

end Session

end MarketEngine
