import MarketEngine.Proofs.Channel.Live
import MarketEngine.Proofs.Evaluation.Stages
import MarketEngine.Proofs.Trading.Floor
/-!
# Where messages of an engine lead

Refreshed candles lead to triggers, triggers to the matrices and verdicts that are handed on, and
nothing leads on from there (`Engine.cascade`). While nobody holds an order, no consumer waits for
anything else, and the bounds on the steps of a message leave room for all its sends
(`Engine.governs`).
-/

namespace MarketEngine

variable {σ α : Type}

/-! ## Orders that nobody holds -/

section Free

variable [Amount α]

/-- A pass holds no order when it is over. -/
theorem Desk.isFree_pass {d : Desk α} (h : d.orders.isFree = true) (symbol : Symbol)
    (replayed : Bool) (window : List (Trade α)) :
    (d.pass symbol replayed window).desk.orders.isFree = true :=
  d.pass_induction (motive := fun p => p.desk.orders.isFree = true) symbol replayed window h
    fun _ hp handle => MatchingPass.isFree_foldl_cancelLinked
      (MatchingPass.isFree_turn hp replayed window handle) _

variable [Exchange σ α]

/-- Matching the orders of a symbol leaves none of them held. -/
theorem Desk.isFree_matchSymbol {d : Desk α} (h : d.orders.isFree = true) (m : Market α) (ex : σ)
    (symbol : Symbol) (replayed : Bool) :
    (d.matchSymbol m ex symbol replayed).1.1.orders.isFree = true := by
  unfold matchSymbol
  split
  · exact h
  · next window _ =>
    show ((d.pass symbol replayed window).desk.refreshTraders ex _).1.orders.isFree = true
    rw [orders_refreshTraders]
    exact isFree_pass h symbol replayed window

/-- Matching the orders of several symbols leaves none of them held. -/
theorem Desk.isFree_matchSymbols {d : Desk α} (h : d.orders.isFree = true) (m : Market α) (ex : σ)
    (replayed : Bool) (symbols : List Symbol) :
    (d.matchSymbols m ex replayed symbols).1.1.orders.isFree = true := by
  induction symbols generalizing d ex with
  | nil => exact h
  | cons symbol rest ih => exact ih (isFree_matchSymbol h m ex symbol replayed) _

end Free

namespace Engine

/-- How messages lead on to others. -/
def cascade : Cascade Role (Engine σ α) (Stage α) where
  rank
    | .candles => 2
    | .evaluation => 1
    | _ => 0
  placed topic
    | .listener => True
    | .matcher => topic = .recentTrade
    | .openOrders _ => topic = .orders
    | .balances => topic = .balance
    | .cycles _ => topic = .evaluation
    | .refreshes _ => topic = .candles
  left topic
    | .verdicts .. => topic = .evaluation
    | .conclusion _ => topic = .evaluation
    | .matching _ => False
    | .nothing => topic = .candles
  fits e := e.desk.orders.isFree = true

variable [Amount α] [Written α]

/-! ## The desk of a cycle -/

/-- The end of a cycle has nothing to do with orders. -/
theorem desk_conclude (e : Engine σ α) (i : Nat) : (e.conclude i).2.desk = e.desk := by
  obtain ⟨failure, exporter, folder, h⟩ := e.conclude_eq i
  rw [h]
  rfl

/-- To hand on the verdicts has nothing to do with orders. -/
theorem desk_handOnVerdicts (e : Engine σ α) (i : Nat) (trigger : Trigger) :
    (e.handOnVerdicts i trigger).2.desk = e.desk := by
  rcases e.handOnVerdicts_cases i trigger with ⟨m, hsend⟩ | hconclude
  · rw [hsend]
  · rw [hconclude, desk_conclude]

/-- A cycle has nothing to do with orders. -/
theorem desk_beginCycle [Exchange σ α] (e : Engine σ α) (i : Nat) (trigger : Trigger) :
    (e.beginCycle i trigger).2.desk = e.desk := by
  unfold beginCycle
  split
  · rfl
  · next t _ =>
    split
    · rfl
    · next s _ =>
      split
      · obtain ⟨read, hread⟩ : ∃ read, read = if (trigger.forceRefresh && t.refreshes) = true then
          (e.refreshCandles s.symbol t.timeFrame).1 else e := ⟨_, rfl⟩
        have hdesk : read.desk = e.desk := by
          rw [hread]
          split <;> rfl
        simp only [← hread]
        split
        · exact hdesk
        · split
          · exact hdesk
          · exact (desk_handOnVerdicts _ i trigger).trans hdesk
      · rfl

/-! ## Room for every send -/

variable [Exchange σ α] {population : Topic → Nat}

omit [Amount α] [Written α] [Exchange σ α] in
/-- Every message takes at least the two steps to be taken and to be finished. -/
theorem two_le_messageCost (population : Topic → Nat) (topic : Topic) :
    2 ≤ messageCost population topic := by
  unfold messageCost triggerCost plainCost
  split <;> omega

/-- The end of a cycle is done in two steps. -/
theorem descends_conclude {e : Engine σ α} (he : e.desk.orders.isFree = true) (i : Nat)
    {topic : Topic} {steps : Nat} (hsteps : 2 ≤ steps) :
    cascade.Descends handlers population topic steps (e.conclude i) := by
  obtain ⟨failure, hdone⟩ := (e.conclude_spec i).done
  have hdesk := e.desk_conclude i
  generalize e.conclude i = outcome at hdone hdesk ⊢
  obtain ⟨next, e'⟩ := outcome
  cases hdone
  refine .done failure ?_ hsteps
  show e'.desk.orders.isFree = true
  rw [show e'.desk = e.desk from hdesk]
  exact he

/-- To hand on the verdicts takes one send down the cascade, and then the end of the cycle. -/
theorem descends_handOnVerdicts {e : Engine σ α} (he : e.desk.orders.isFree = true) (i : Nat)
    (trigger : Trigger) {steps : Nat}
    (hsteps : stageCost population (.verdicts (α := α) i trigger) ≤ steps) :
    cascade.Descends handlers population .evaluation steps (e.handOnVerdicts i trigger) := by
  change 2 + (population .tradingMode * (plainCost + 2) + 4) ≤ steps at hsteps
  rcases e.handOnVerdicts_cases i trigger with ⟨m, hsend⟩ | hconclude
  · rw [hsend]
    refine .send m he Nat.one_pos rfl ?_
    show population .tradingMode * (plainCost + 2) + 2 + 4 ≤ steps
    omega
  · rw [hconclude]
    exact descends_conclude he i (by omega)

/-- A cycle sends down the cascade twice at most, first its matrix and then its verdicts. -/
theorem descends_beginCycle {e : Engine σ α} (he : e.desk.orders.isFree = true) (i : Nat)
    (trigger : Trigger) :
    cascade.Descends handlers population .evaluation (messageCost population .evaluation)
      (e.beginCycle i trigger) := by
  have hcost : messageCost population .evaluation
      = plainCost + (population .strategy * (plainCost + 2) + 4)
        + (population .tradingMode * (plainCost + 2) + 4) := rfl
  have hverdicts : stageCost population (.verdicts (α := α) i trigger)
      = 2 + (population .tradingMode * (plainCost + 2) + 4) := rfl
  have hplain : plainCost = 4 := rfl
  have hbegin := e.beginCycle_spec i trigger
  have hdesk := e.desk_beginCycle i trigger
  generalize e.beginCycle i trigger = outcome at hbegin hdesk ⊢
  generalize e.forced i trigger = read at hbegin
  cases hbegin with
  | dropped => exact .done none he (two_le_messageCost _ _)
  | @accepted _ e' _ _ _ _ _ houtcome =>
    rcases houtcome with ⟨m, rfl⟩ | rfl
    · have he' : e'.desk.orders.isFree = true := by
        rw [show e'.desk = e.desk from hdesk]
        exact he
      refine .send m he' Nat.one_pos rfl ?_
      show population .strategy * (plainCost + 2)
        + stageCost population (.verdicts (α := α) i trigger) + 4 ≤ _
      omega
    · rw [desk_handOnVerdicts] at hdesk
      exact descends_handOnVerdicts (by rw [hdesk]; exact he) i trigger (by omega)

/-- Fresh candles lead to one trigger, which is sent down the cascade. -/
theorem descends_triggerTask {e : Engine σ α} (he : e.desk.orders.isFree = true) (i : Nat) :
    cascade.Descends handlers population .candles (messageCost population .candles)
      (e.triggerTask i) := by
  unfold triggerTask
  simp only
  split
  · refine .send _ he (Nat.lt_succ_self 1) rfl ?_
    show population .evaluation * (triggerCost population + 2) + 2 + 4
      ≤ plainCost + (population .evaluation * (triggerCost population + 2) + 4)
    have hplain : plainCost = 4 := rfl
    omega
  · exact .done none he (two_le_messageCost _ _)

/-- Every consumer of an engine sends down the cascade only, within its bounds. -/
theorem governs : cascade.Governs (handlers (σ := σ) (α := α)) where
  start := by
    intro topic role hrole m e he population
    have hdone : ∀ {e' : Engine σ α}, e'.desk.orders.isFree = true →
        cascade.Descends handlers population topic (messageCost population topic) (.done, e') :=
      fun he' => .done none he' (two_le_messageCost _ _)
    show cascade.Descends handlers population topic (messageCost population topic)
      (startMessage role m e)
    unfold startMessage
    split
    · exact hdone he
    · split
      · exact hdone he
      -- nobody holds an order, so the pass goes through at once
      · next pass hpass =>
        have hresume := SuspendedPass.resume_of_isFree he hpass e.exchange
        unfold goOnMatching resumePass
        simp only [hresume]
        exact hdone (Desk.isFree_matchSymbol he e.market e.exchange m.key.symbol false)
    · exact hdone he
    · exact hdone he
    · next i trigger _ =>
      obtain rfl : topic = .evaluation := hrole
      exact descends_beginCycle he i trigger
    · next i =>
      obtain rfl : topic = .candles := hrole
      exact descends_triggerTask he i
    · exact hdone he
  resume := by
    intro topic stage hstage e he population
    show cascade.Descends handlers population topic (stageCost population stage)
      (resumeStage stage e)
    cases stage with
    | verdicts i trigger =>
      obtain rfl : topic = .evaluation := hstage
      exact descends_handOnVerdicts he i trigger (Nat.le_refl _)
    | conclusion i => exact descends_conclude he i (Nat.le_refl 2)
    | matching pass => exact absurd hstage id
    | nothing => exact .done none he (Nat.le_refl 2)

end Engine

end MarketEngine
