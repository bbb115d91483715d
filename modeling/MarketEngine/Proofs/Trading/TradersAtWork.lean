import MarketEngine.Proofs.Channel.Effects
import MarketEngine.Proofs.Evaluation.Posts
import MarketEngine.Proofs.Trading.OpenOrders
/-!
# Traders at work

Whatever happens to a session, to its traders it is a course of reports, tracked orders, refreshes
and other things that leave them what they know of the exchange's orders (`Session.meets_after`). So
what such a course tells them is all that they know (`Engine.knows_iff_stands`).
-/

namespace MarketEngine

variable {α : Type}

/-! ## What a pass leaves the traders -/

/-- Cancellations teach no trader anything. -/
theorem MatchingPass.knowledge_cancelInTurn (p : MatchingPass α) (ids : List String) :
    (p.cancelInTurn ids).1.desk.traders.map Trader.knowledge =
      p.desk.traders.map Trader.knowledge := by
  induction ids generalizing p with
  | nil => rfl
  | cons id rest ih =>
    rw [cancelInTurn]
    split
    · rfl
    · exact (ih _).trans (p.frame_cancelLinked id).knowledge_eq

/-- Visits teach no trader anything. -/
theorem MatchingPass.knowledge_visitInTurn [Amount α] (replayed : Bool) (window : List (Trade α))
    (p : MatchingPass α) (handles : List Nat) :
    (p.visitInTurn replayed window handles).1.desk.traders.map Trader.knowledge =
      p.desk.traders.map Trader.knowledge := by
  induction handles generalizing p with
  | nil => rfl
  | cons handle rest ih =>
    rw [visitInTurn]
    split
    · rfl
    · have hturn := (frame_turn replayed window p handle).knowledge_eq
      have hcancel := (p.turn replayed window handle).1.knowledge_cancelInTurn
        (p.turn replayed window handle).2
      simp only
      split
      · next heq => exact (ih _).trans ((heq ▸ hcancel).trans hturn)
      · next heq => exact (heq ▸ hcancel).trans hturn

/-- A pass that goes on teaches no trader anything. -/
theorem SuspendedPass.knowledge_goOn [Amount α] (w : SuspendedPass α) (d : Desk α) :
    (w.goOn d).1.desk.traders.map Trader.knowledge = d.traders.map Trader.knowledge := by
  have hcancel := (w.takeUp d).knowledge_cancelInTurn w.toCancel
  unfold goOn
  simp only
  split
  · exact (MatchingPass.knowledge_visitInTurn _ _ _ _).trans hcancel
  · exact hcancel

namespace Engine

variable {σ : Type} [Exchange σ α] [Amount α] [Written α]

/-! ## What the consumers do -/

/-- A course of fair events leads from one engine to another. -/
def Meets (e e' : Engine σ α) : Prop :=
  ∃ events : List (TraderEvent σ α), (∀ event ∈ events, event.IsFair) ∧ events.foldl meet e = e'

/-- Without any event the engine is where it was. -/
theorem Meets.refl (e : Engine σ α) : e.Meets e := ⟨[], by simp, rfl⟩

/-- A fair event is a course of its own. -/
theorem meets_event (e : Engine σ α) (event : TraderEvent σ α) (h : event.IsFair) :
    e.Meets (e.meet event) :=
  ⟨[event], by simpa using h, rfl⟩

/-- One course after the other. -/
theorem Meets.trans {e e' e'' : Engine σ α} (h : e.Meets e') (h' : e'.Meets e'') :
    e.Meets e'' := by
  obtain ⟨events, hfair, rfl⟩ := h
  obtain ⟨events', hfair', rfl⟩ := h'
  exact ⟨events ++ events', List.forall_mem_append.2 ⟨hfair, hfair'⟩, List.foldl_append⟩

/-- What leaves the traders as they are is an event of its own. -/
theorem meets_of_traders (e : Engine σ α) {f : Engine σ α → Engine σ α}
    (h : ∀ e, (f e).desk.traders = e.desk.traders) : e.Meets (f e) :=
  e.meets_event (.other f) fun e => congrArg _ (h e)

/-- The traders that a pass leaves to refresh themselves do so one after the other. -/
theorem meets_refreshTraders (e : Engine σ α) (names : List String) :
    e.Meets { e with
      desk := (e.desk.refreshTraders e.exchange names).1
      exchange := (e.desk.refreshTraders e.exchange names).2 } := by
  induction names generalizing e with
  | nil => exact .refl e
  | cons name rest ih =>
    rw [Desk.refreshTraders, Desk.refreshTrader, Desk.trader?]
    cases hi : latest? (·.name == name) e.desk.traders with
    | none => exact ih e
    | some i =>
      obtain ⟨t, ht, -⟩ := exists_of_latest? hi
      have hrefreshed : e.Meets (e.refreshTrader i).1 :=
        e.meets_event (.refresh i) trivial
      have hrest := hrefreshed.trans (ih _)
      simpa [refreshTrader_eq ht, ht, Fetch.forceRefresh_eq, Desk.modifyTrader, hi,
        List.set_eq_modify] using hrest

/-- A pass that keeps what the traders know, and then the refreshes that it leaves to them. -/
theorem meets_pass (e : Engine σ α) {pass : Desk α → Desk α}
    (hpass : ∀ d, (pass d).traders.map Trader.knowledge = d.traders.map Trader.knowledge)
    (names : List String) :
    e.Meets { e with
      desk := ((pass e.desk).refreshTraders e.exchange names).1
      exchange := ((pass e.desk).refreshTraders e.exchange names).2 } :=
  (e.meets_event (.other (·.modifyDesk pass)) fun e => hpass e.desk).trans
    ((e.modifyDesk pass).meets_refreshTraders names)

/-- Matching the orders of a symbol tells traders something by refreshes only. -/
theorem meets_matchSymbol (e : Engine σ α) (symbol : Symbol) (replayed : Bool) :
    e.Meets (e.matchSymbol symbol replayed).1 := by
  unfold matchSymbol Desk.matchSymbol
  cases e.desk.window? e.market symbol with
  | none => exact .refl e
  | some window =>
    exact e.meets_pass (fun d =>
      (MatchingPass.frame_foldl_visit replayed window { desk := d } _).knowledge_eq) _

/-- Matching all orders tells traders something by refreshes only. -/
theorem meets_matchAll (e : Engine σ α) (replayed : Bool) : e.Meets (e.matchAll replayed).1 := by
  have hall : ∀ (symbols : List Symbol) (e : Engine σ α), e.Meets { e with
      desk := (e.desk.matchSymbols e.market e.exchange replayed symbols).1.1
      exchange := (e.desk.matchSymbols e.market e.exchange replayed symbols).2 } := by
    intro symbols
    induction symbols with
    | nil => exact .refl
    | cons symbol rest ih =>
      exact fun e =>
        (e.meets_matchSymbol symbol replayed).trans (ih (e.matchSymbol symbol replayed).1)
  exact hall e.desk.orders.symbols e

/-- A matching that goes on tells traders something by refreshes only. -/
theorem meets_goOnMatching (e : Engine σ α) (w : SuspendedPass α) :
    e.Meets (e.goOnMatching w).2 := by
  have hpass := w.knowledge_goOn
  unfold goOnMatching resumePass SuspendedPass.resume
  by_cases hdone : (w.goOn e.desk).2.isDone
  · simp only [hdone, if_true]
    exact e.meets_pass hpass _
  · simp only [hdone, Bool.false_eq_true, if_false]
    exact e.meets_event (.other (·.modifyDesk fun d => (w.goOn d).1.desk))
      fun e => hpass e.desk

/-- Whatever a consumer does with a message is a course of such events. -/
theorem meets_startMessage (role : Role) (m : Message (Payload α)) (e : Engine σ α) :
    e.Meets (startMessage role m e).2 := by
  obtain ⟨key, payload⟩ := m
  unfold startMessage
  split
  · exact e.meets_of_traders (f := fun e => { e with heard := _ }) fun _ => rfl
  · split
    · exact .refl e
    · exact e.meets_goOnMatching _
  · exact e.meets_event (.report _ key _) trivial
  · exact e.meets_of_traders
      (f := fun e => { e with desk.portfolio := e.desk.portfolio.sync _ }) fun _ => rfl
  · exact e.meets_of_traders (f := fun e => (e.beginCycle _ _).2) fun e => by rw [desk_beginCycle]
  · unfold triggerTask
    simp only
    split <;> exact .refl e
  · exact .refl e

/-- Whatever a consumer does with the rest of a message is a course of such events. -/
theorem meets_resumeStage (stage : Stage α) (e : Engine σ α) :
    e.Meets (resumeStage stage e).2 := by
  cases stage with
  | verdicts i trigger =>
    exact e.meets_of_traders (f := fun e => (e.handOnVerdicts i trigger).2)
      fun e => by rw [desk_handOnVerdicts]
  | conclusion i =>
    exact e.meets_of_traders (f := fun e => (e.conclude i).2) fun e => by rw [desk_conclude]
  | matching w => exact e.meets_goOnMatching w
  | nothing => exact .refl e

/-- Consumers tell traders something by reports and by refreshes only. -/
theorem keepTo_meets :
    (handlers : Handlers Role (Payload α) (Engine σ α) (Stage α)).KeepTo Meets where
  refl := .refl
  trans := .trans
  start role m e := e.meets_startMessage role m
  resume stage e := e.meets_resumeStage stage

/-- Candles tell traders nothing, and matching does so by refreshes. -/
theorem ticks_meets : Ticks (Meets (σ := σ) (α := α)) where
  ticked e := e.meets_of_traders (f := ticked) fun _ => rfl
  refreshed e symbol t := e.meets_of_traders (f := fun e => (e.refreshCandles symbol t).1)
    fun _ => rfl
  matched e := e.meets_matchAll true

end Engine

/-! ## Sessions -/

/-- What somebody outside does to the engine is such a course as well. -/
def SessionEvent.LeavesTraders {σ : Type} [Exchange σ α] [Amount α] [Written α] :
    SessionEvent σ α → Prop
  | .change f _ => ∀ e : Engine σ α, e.Meets (f e)
  | _ => True

namespace Session

variable {σ : Type} [Exchange σ α] [Amount α] [Written α]

/-- Consumers and those outside do to the traders what such events do. -/
def meeting : Dealings Role (Engine σ α) where
  changes := Engine.Meets
  subscribes _ := True
  handles _ := True

/-- Whatever happens to a session, traders are told by notices only. -/
theorem leads_meeting (s : Session σ α) {event : SessionEvent σ α} (h : event.LeavesTraders) :
    LeadsWithin meeting (s.posts event) (calls event) s (s.happen event) := by
  have haside : ∀ {f : Engine σ α → Engine σ α},
      (∀ e : Engine σ α, (f e).desk.traders = e.desk.traders) → ∀ e : Engine σ α, e.Meets (f e) :=
    fun hf e => e.meets_of_traders hf
  refine leads_happen_within Engine.ticks_meets trivial (fun _ => trivial) s (fun poller _ => ?_) ?_
  · exact leads_poll (fun p => haside (f := fun e =>
        { e with exchange := (p.poll (α := α) e.exchange).2 }) fun _ => rfl)
      (fun symbol payload _ => haside (f := fun e =>
        { e with market := e.market.recordPolled symbol payload }) fun _ => rfl)
      (fun symbol => haside (f := fun e =>
        { e with pollers := e.pollers.modify poller (·.endSymbol symbol) }) fun _ => rfl)
  · rintro f hf rfl
    exact h

/-- Whatever happens to a session is a course of events to its traders. -/
theorem meets_after {events : List (SessionEvent σ α)}
    (hevents : ∀ event ∈ events, event.LeavesTraders) (s : Session σ α) :
    s.shared.Meets (s.after events).shared :=
  (leads_after_within (fun s event hevent => leads_meeting s (hevents event hevent)) s).shared
    Engine.keepTo_meets fun _ _ h => h

end Session

end MarketEngine
