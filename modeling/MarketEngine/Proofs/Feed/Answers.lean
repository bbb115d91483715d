import MarketEngine.Proofs.Channel.Effects
import MarketEngine.Proofs.Evaluation.Posts
/-!
# Who asks for candles

Candles are asked for by ticks, by refreshes of a pair, and by the cycles of tasks that are forced
to read anew. What the consumers do besides leaves the candle feed, the market and the pollers
alone, and asks the exchange for other things only (`Engine.Beside`).

So whatever the consumers do, the feed and the market change by the answers to queries for candles,
taken in one after the other (`Engine.Learns`), and every way to change that admits such refreshes
and whatever happens beside them is kept to by the consumers (`Engine.Admits.keepTo`).
-/

namespace MarketEngine

variable {σ α : Type} [Exchange σ α]

/-! ## Other queries -/

/-- Queries for anything but candles lead an exchange from one state to the other. -/
inductive Exchange.Aside : σ → σ → Prop
  | refl (ex : σ) : Aside ex ex
  | trades {ex ex' : σ} (h : Aside ex ex') (symbol : Symbol) (limit : Nat) :
    Aside ex (Exchange.trades ex' symbol limit).2
  | ticker {ex ex' : σ} (h : Aside ex ex') (symbol : Symbol) :
    Aside ex (Exchange.ticker ex' symbol).2
  | book {ex ex' : σ} (h : Aside ex ex') (symbol : Symbol) :
    Aside ex (Exchange.book ex' symbol).2
  | balances {ex ex' : σ} (h : Aside ex ex') : Aside ex (Exchange.balances ex').2
  | openOrders {ex ex' : σ} (h : Aside ex ex') (symbol : Symbol) :
    Aside ex (Exchange.openOrders ex' symbol).2

namespace Exchange.Aside

variable {ex ex' ex'' : σ}

/-- Queries for anything but candles, one after the other. -/
theorem trans (h : Aside ex ex') (h' : Aside ex' ex'') : Aside ex ex'' := by
  induction h' with
  | refl => exact h
  | trades _ symbol limit ih => exact ih.trades symbol limit
  | ticker _ symbol ih => exact ih.ticker symbol
  | book _ symbol ih => exact ih.book symbol
  | balances _ ih => exact ih.balances
  | openOrders _ symbol ih => exact ih.openOrders symbol

/-- A trader that reads its orders asks for no candles. -/
theorem refreshOrders (t : Trader α) (ex : σ) (symbols : List Symbol) :
    Aside ex (t.refreshOrders ex symbols).2 := by
  induction symbols generalizing t ex with
  | nil => exact .refl ex
  | cons symbol rest ih =>
    have hasked : Aside ex (Exchange.openOrders ex symbol).2 := (refl ex).openOrders symbol
    rw [Trader.refreshOrders]
    split
    · next heq => rw [heq] at hasked; exact hasked
    · next heq => rw [heq] at hasked; exact hasked.trans (ih _ _)

/-- A forced refresh asks for orders and balances, not for candles. -/
theorem forceRefresh (t : Trader α) (p : Portfolio α) (ex : σ) :
    Aside ex (t.forceRefresh p ex).2 := by
  have hasked : Aside ex (Exchange.balances ex).2 := (refl ex).balances
  rw [Trader.forceRefresh]
  split
  · next heq => rw [heq] at hasked; exact hasked
  · next heq =>
    rw [heq] at hasked
    exact hasked.trans (refreshOrders _ _ _)

/-- The refreshes of several traders ask for no candles. -/
theorem refreshTraders (d : Desk α) (ex : σ) (names : List String) :
    Aside ex (d.refreshTraders ex names).2 := by
  induction names generalizing d ex with
  | nil => exact .refl ex
  | cons name rest ih =>
    rw [Desk.refreshTraders]
    refine trans ?_ (ih _ _)
    split
    · exact .refl ex
    · exact forceRefresh _ _ _

/-- Polls ask for anything but candles. -/
theorem poll (p : Poller) (ex : σ) : Aside ex (p.poll (α := α) ex).2 := by
  have hall : ∀ (symbols : List Symbol) (ex : σ),
      Aside ex (Poller.fetchAll (α := α) p.source ex symbols).2 := by
    intro symbols
    induction symbols with
    | nil => exact .refl
    | cons symbol rest ih =>
      intro ex
      rw [Poller.fetchAll]
      refine trans ?_ (ih _)
      cases p.source with
      | ticker => exact (refl ex).ticker symbol
      | book => exact (refl ex).book symbol
      | trades limit => exact (refl ex).trades symbol limit
      | balance => exact (refl ex).balances
      | orders => exact (refl ex).openOrders symbol
  exact hall _ _

variable [Amount α]

/-- Matching the orders of several symbols asks for no candles. -/
theorem matchSymbols (d : Desk α) (m : Market α) (ex : σ) (replayed : Bool)
    (symbols : List Symbol) : Aside ex (d.matchSymbols m ex replayed symbols).2 := by
  induction symbols generalizing d ex with
  | nil => exact .refl ex
  | cons symbol rest ih =>
    rw [Desk.matchSymbols]
    refine trans ?_ (ih _ _)
    rw [Desk.matchSymbol]
    split
    · exact .refl ex
    · exact refreshTraders _ _ _

/-- A pass that goes on asks for no candles. -/
theorem resume (w : SuspendedPass α) (d : Desk α) (ex : σ) : Aside ex (w.resume d ex).2 := by
  simp only [SuspendedPass.resume]
  split
  · exact refreshTraders _ _ _
  · exact .refl ex

end Exchange.Aside

/-! ## Answers taken in -/

/-- The answer to a query for the candles of a pair. -/
abbrev CandleAnswer (α : Type) := (Symbol × TimeFrame) × Answer (List (Candle α))

namespace Engine

/-- The feed, the market and the pollers are left alone, and nobody asked for candles. -/
structure Beside (e e' : Engine σ α) : Prop where
  exchange : Exchange.Aside e.exchange e'.exchange
  feed_eq : e'.feed = e.feed
  market_eq : e'.market = e.market
  pollers_eq : e'.pollers = e.pollers

/-- An engine that keeps its exchange has asked nobody. -/
theorem Beside.of_eq {e e' : Engine σ α} (hexchange : e'.exchange = e.exchange)
    (hfeed : e'.feed = e.feed) (hmarket : e'.market = e.market)
    (hpollers : e'.pollers = e.pollers) : e.Beside e' :=
  ⟨hexchange ▸ .refl _, hfeed, hmarket, hpollers⟩

theorem Beside.refl (e : Engine σ α) : e.Beside e := .of_eq rfl rfl rfl rfl

/-- The answer that a pair gets if it is asked for next. -/
def candleAnswer (e : Engine σ α) (symbol : Symbol) (t : TimeFrame) : CandleAnswer α :=
  ((symbol, t), (Exchange.candles e.exchange symbol t e.feed.limit).1)

/-- The one engine becomes the other while these answers are taken in, in this order. In between,
things happen that leave aside what `R` says. -/
inductive Learns (R : Engine σ α → Engine σ α → Prop) :
    List (CandleAnswer α) → Engine σ α → Engine σ α → Prop
  | aside {e e' : Engine σ α} (h : R e e') : Learns R [] e e'
  | refresh (e : Engine σ α) (symbol : Symbol) (t : TimeFrame) :
    Learns R [e.candleAnswer symbol t] e (e.refreshCandles symbol t).1
  | trans {answers answers' : List (CandleAnswer α)} {e e' e'' : Engine σ α}
    (h : Learns R answers e e') (h' : Learns R answers' e' e'') :
    Learns R (answers ++ answers') e e''

variable {R : Engine σ α → Engine σ α → Prop}

/-- The one engine becomes the other while some answers are taken in. -/
def MayLearn (R : Engine σ α → Engine σ α → Prop) (e e' : Engine σ α) : Prop :=
  ∃ answers, Learns R answers e e'

namespace MayLearn

variable {e e' e'' : Engine σ α}

/-- A change that leaves aside what it should takes in nothing. -/
theorem aside (h : R e e') : MayLearn R e e' := ⟨[], .aside h⟩

/-- A refresh takes in the answer for its pair. -/
theorem refresh (e : Engine σ α) (symbol : Symbol) (t : TimeFrame) :
    MayLearn R e (e.refreshCandles symbol t).1 := ⟨_, .refresh e symbol t⟩

/-- Answers are taken in one stretch after the other. -/
theorem trans (h : MayLearn R e e') (h' : MayLearn R e' e'') : MayLearn R e e'' :=
  let ⟨_, h⟩ := h
  let ⟨_, h'⟩ := h'
  ⟨_, h.trans h'⟩

end MayLearn

/-- Whatever leaves feed, market and pollers alone is such a change, and so are the refresh of a
pair and what several such changes come to. -/
structure Admits (R : Engine σ α → Engine σ α → Prop) : Prop where
  beside : ∀ {e e' : Engine σ α}, e.Beside e' → R e e'
  refresh : ∀ (e : Engine σ α) (symbol : Symbol) (t : TimeFrame), R e (e.refreshCandles symbol t).1
  trans : ∀ {e e' e'' : Engine σ α}, R e e' → R e' e'' → R e e''

/-- What stays as it is has been left alone. -/
theorem Admits.refl (hR : Admits R) {e : Engine σ α} : R e e := hR.beside (.refl e)

/-- A change that takes in some answers is made of refreshes, and of changes that leave feed, market
and pollers alone. -/
theorem Admits.of_mayLearn (hR : Admits R) {e e' : Engine σ α} (h : MayLearn Beside e e') :
    R e e' := by
  obtain ⟨answers, h⟩ := h
  induction h with
  | aside h => exact hR.beside h
  | refresh e symbol t => exact hR.refresh e symbol t
  | trans _ _ ih ih' => exact hR.trans ih ih'

/-- Taking in answers is itself such a change, whatever it leaves aside. -/
theorem admits_mayLearn (hR : ∀ e e' : Engine σ α, e.Beside e' → R e e') : Admits (MayLearn R) where
  beside h := .aside (hR _ _ h)
  refresh := .refresh
  trans := .trans

/-! ## Consumers -/

section Consumers

variable [Amount α]

/-- A matching that goes on asks for no candles. -/
theorem beside_goOnMatching (e : Engine σ α) (w : SuspendedPass α) :
    e.Beside (e.goOnMatching w).2 := by
  have hasked := Exchange.Aside.resume w e.desk e.exchange
  unfold goOnMatching resumePass
  generalize w.resume e.desk e.exchange = result at hasked
  obtain ⟨⟨desk, left⟩, exchange⟩ := result
  cases left <;> exact ⟨hasked, rfl, rfl, rfl⟩

/-- A matching of all orders asks for no candles. -/
theorem beside_matchAll (e : Engine σ α) (replayed : Bool) : e.Beside (e.matchAll replayed).1 :=
  ⟨.matchSymbols _ _ _ _ _, rfl, rfl, rfl⟩

variable [Written α]

/-- The end of a cycle asks nobody. -/
theorem beside_conclude (e : Engine σ α) (i : Nat) : e.Beside (e.conclude i).2 := by
  obtain ⟨failure, exporter, folder, h⟩ := e.conclude_eq i
  rw [h]
  exact .of_eq rfl rfl rfl rfl

/-- To hand on the verdicts asks nobody. -/
theorem beside_handOnVerdicts (e : Engine σ α) (i : Nat) (trigger : Trigger) :
    e.Beside (e.handOnVerdicts i trigger).2 := by
  rcases e.handOnVerdicts_cases i trigger with ⟨m, h⟩ | h
  · rw [h]
    exact .of_eq rfl rfl rfl rfl
  · rw [h]
    exact e.beside_conclude i

/-- A cycle reads the candles of its pair anew, if it is forced to, and nothing else. -/
theorem mayLearn_beginCycle (e : Engine σ α) (i : Nat) (trigger : Trigger) :
    MayLearn Beside e (e.beginCycle i trigger).2 := by
  have hrefl : MayLearn Beside e e := .aside (.refl e)
  unfold beginCycle
  split
  · exact hrefl
  · next t _ =>
    split
    · exact hrefl
    · next s _ =>
      split
      · have hread : MayLearn Beside e (if trigger.forceRefresh && t.refreshes then
            (e.refreshCandles s.symbol t.timeFrame).1 else e) := by
          split
          · exact .refresh e s.symbol t.timeFrame
          · exact hrefl
        have hevaluated : ∀ e : Engine σ α, MayLearn Beside e
            ((e.evaluateTask t s trigger.source).modifyTask i ({ · with started := true })) :=
          fun _ => .aside (.of_eq rfl rfl rfl rfl)
        have hbefore := hread.trans (hevaluated _)
        simp only
        split
        · exact hbefore
        · split
          · exact hbefore
          · exact hbefore.trans (.aside (beside_handOnVerdicts _ i trigger))
      · exact hrefl

/-- A consumer that begins with a message takes in candles at most. -/
theorem mayLearn_startMessage (role : Role) (m : Message (Payload α)) (e : Engine σ α) :
    MayLearn Beside e (startMessage role m e).2 := by
  have hrefl : MayLearn Beside e e := .aside (.refl e)
  unfold startMessage
  split
  · exact .aside (.of_eq rfl rfl rfl rfl)
  · split
    · exact hrefl
    · exact .aside (e.beside_goOnMatching _)
  · exact .aside (.of_eq rfl rfl rfl rfl)
  · exact .aside (.of_eq rfl rfl rfl rfl)
  · exact e.mayLearn_beginCycle _ _
  · unfold triggerTask
    simp only
    split <;> exact hrefl
  · exact hrefl

/-- A consumer that goes on with a message asks for no candles. -/
theorem beside_resumeStage (stage : Stage α) (e : Engine σ α) :
    e.Beside (resumeStage stage e).2 := by
  cases stage with
  | verdicts i trigger => exact e.beside_handOnVerdicts i trigger
  | conclusion i => exact e.beside_conclude i
  | matching w => exact e.beside_goOnMatching w
  | nothing => exact .refl e

/-- The consumers refresh pairs, and besides leave feed, market and pollers alone. -/
theorem Admits.keepTo (hR : Admits R) :
    (handlers : Handlers Role (Payload α) (Engine σ α) (Stage α)).KeepTo R where
  refl _ := hR.refl
  trans := hR.trans
  start role m e := hR.of_mayLearn (mayLearn_startMessage role m e)
  resume stage e := hR.beside (beside_resumeStage stage e)

end Consumers

end Engine

end MarketEngine
