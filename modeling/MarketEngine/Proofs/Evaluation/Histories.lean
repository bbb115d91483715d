import MarketEngine.Proofs.Evaluation.Building
import MarketEngine.Proofs.Evaluation.Process
/-!
# Sessions have histories

Whatever is done with a session that was built from settings, there is a history of its engine that
the session shows (`Session.exists_history`): calls, candles that are read for one pair or for all
that are due, messages that are published, and consumers at work.
-/

namespace MarketEngine

variable {σ α : Type}

/-- What is done with a session from outside. -/
inductive SessionStep (α : Type) where
  | process (i : Nat) (trigger : Trigger)
  | refreshPair (symbol : Symbol) (t : TimeFrame)
  | tick
  | publish (m : Message (Payload α))
  | settle

/-! ## Reading all pairs that are due -/

namespace Engine

/-- Feeds that end leave the counts of refreshes alone. -/
theorem counts_endSymbols (ended : List Symbol) (f : CandleFeed) :
    (ended.foldl CandleFeed.endSymbol f).counts = f.counts := by
  induction ended generalizing f with
  | nil => rfl
  | cons symbol rest ih =>
    rw [List.foldl_cons, ih, CandleFeed.endSymbol]
    split <;> rfl

/-- The feeds of symbols end without anything happening to a task. -/
theorem aside_endSymbols (ended : List Symbol) (e : Engine σ α) :
    e.Aside { e with feed := ended.foldl CandleFeed.endSymbol e.feed } :=
  ⟨rfl, counts_endSymbols ended e.feed, rfl⟩

/-- Matching has nothing to do with cycles. -/
theorem aside_matchAll [Amount α] [Exchange σ α] (replayed : Bool) (e : Engine σ α) :
    e.Aside (e.matchAll replayed).1 := ⟨rfl, rfl, rfl⟩

end Engine

namespace CycleRun

variable [Exchange σ α]

/-- The pairs of a tick are read one by one. -/
theorem run_refreshPairs [Amount α] [Written α] (r : CycleRun σ α) (k : CandleFeed.Tick α)
    (pairs : List (Symbol × TimeFrame)) :
    let done := r.engine.feed.refreshPairs r.engine.market r.engine.exchange k pairs
    let r' := r.run (pairs.map fun pair => .refresh pair.1 pair.2)
    r'.engine = { r.engine with feed := done.2.1.1, market := done.2.1.2, exchange := done.2.2 } ∧
      r'.underWay = r.underWay := by
  induction pairs generalizing r k with
  | nil => exact ⟨rfl, rfl⟩
  | cons pair rest ih =>
    -- what the rest begins with is what reading this pair left
    obtain ⟨hengine, hunderWay⟩ := ih (r.step (.refresh pair.1 pair.2))
      (k.note pair (r.engine.refreshCandles pair.1 pair.2).2)
    exact ⟨hengine, hunderWay⟩

/-- Everything that is due is read, and then symbols may end. -/
theorem exists_tick [Amount α] [Written α] (r : CycleRun σ α) :
    let done := r.engine.feed.tick r.engine.market r.engine.exchange
    ∃ events,
      (r.run events).engine
        = { r.engine with feed := done.2.1.1, market := done.2.1.2, exchange := done.2.2 } ∧
      (r.run events).underWay = r.underWay := by
  obtain ⟨hengine, hunderWay⟩ := r.run_refreshPairs {} r.engine.feed.duePairs
  refine ⟨r.engine.feed.duePairs.map (fun pair => .refresh pair.1 pair.2) ++
    [.aside _ (Engine.aside_endSymbols (r.engine.feed.refreshPairs r.engine.market
      r.engine.exchange {} r.engine.feed.duePairs).1.ended)], ?_, ?_⟩
  · rw [run_append]
    simp only [run, List.foldl_cons, List.foldl_nil, step] at hengine ⊢
    rw [hengine]
    rfl
  · rw [run_append]
    exact hunderWay

end CycleRun

namespace Session

section Operations

variable [Amount α] [Written α] [Exchange σ α] {r : CycleRun σ α} {s : Session σ α}
  {roles : Role → Prop}

omit [Amount α] [Written α] [Exchange σ α] in
/-- What leaves nothing to do may happen to the engine at any time. -/
theorem explains_shared (h : r.Explains s) (r' : CycleRun σ α)
    (hunderWay : r'.underWay = r.underWay) :
    r'.Explains ({ s with shared := r'.engine } : Session σ α) where
  engine_eq := rfl
  perm := by
    rw [hunderWay]
    exact h.perm
  orderly := h.orderly

/-- Messages that are sent together leave what consumers keep. -/
theorem holds_publishTogether {P : Engine σ α → List (Stage α) → Prop}
    (hP : Network.Keeps Engine.handlers roles P) (hs : Network.Holds roles P s)
    (ms : List (Message (Payload α))) : Network.Holds roles P (s.publishTogether ms) := by
  refine hP.await (hs.of_still ?_) _
  refine List.foldlRecOn (motive := fun sent : Session σ α × List Ticket => Network.Still s sent.1)
    ms _ (.refl s) ?_
  intro sent hsent m _
  have hsend := Network.still_send sent.1 m.payload.topic m
  exact (hsent.trans hsend).trans (Network.still_drive _ _)

/-- Where a history goes on to, there are events that lead there. -/
theorem exists_explains (h : Network.Holds roles (r.Continues roles) s) :
    ∃ events, (r.run events).Explains s := by
  obtain ⟨more, -, hexplains⟩ := explains_of_holds h
  exact ⟨more, hexplains⟩

/-- A history that explains a session goes on to it without any event. -/
theorem holds_continues (h : r.Explains s) :
    Network.Holds (fun _ => True) (r.Continues fun _ => True) s :=
  holds_of_explains h fun _ _ _ _ _ => trivial

/-- Reading the candles of a pair belongs to the history, and so does what the report leads to. -/
theorem explains_refreshPair (h : r.Explains s) (symbol : Symbol) (t : TimeFrame) :
    ∃ events, (r.run events).Explains (s.refreshPair symbol t).1 := by
  -- the reading comes first, and whatever is published sees it
  have hread := explains_shared h (r.step (.refresh symbol t)) rfl
  change CycleRun.Explains _ { s with shared := (r.engine.refreshCandles symbol t).1 } at hread
  rw [← h.engine_eq] at hread
  unfold refreshPair
  rcases hrefresh : s.shared.refreshCandles symbol t with ⟨e, answer⟩
  rw [hrefresh] at hread
  simp only
  cases answer with
  | error cause => exact ⟨[.refresh symbol t], hread⟩
  | ok candle =>
    cases candle with
    | none => exact ⟨[.refresh symbol t], hread⟩
    | some candle =>
      obtain ⟨more, hpublished⟩ := exists_explains
        ((CycleRun.keeps_continues _).sendAndAwait (holds_continues hread) _ _)
      exact ⟨.refresh symbol t :: more, hpublished⟩

/-- A tick reads what is due, publishes it and, in a replay, matches the orders. -/
theorem explains_tick (h : r.Explains s) : ∃ events, (r.run events).Explains s.tick.1 := by
  obtain ⟨events, hengine, hunderWay⟩ := r.exists_tick
  have hread := explains_shared h _ hunderWay
  rw [hengine, ← h.engine_eq] at hread
  obtain ⟨more, hpublished⟩ := exists_explains
    (holds_publishTogether (CycleRun.keeps_continues _) (holds_continues hread)
      ((s.shared.feed.tick s.shared.market s.shared.exchange).1.updates.map
        fun m => ⟨m.key, .candle m.payload⟩))
  rw [← CycleRun.run_append] at hpublished
  unfold tick
  simp only
  split
  · refine ⟨events ++ more ++ [.aside _ (Engine.aside_matchAll true)], ?_⟩
    rw [CycleRun.run_append]
    have hmatched := explains_shared hpublished
      ((r.run (events ++ more)).step (.aside _ (Engine.aside_matchAll true))) rfl
    change CycleRun.Explains _ { Session.publishTogether _ _ with
      shared := ((r.run (events ++ more)).engine.matchAll true).1 } at hmatched
    rw [← hpublished.engine_eq] at hmatched
    exact hmatched
  · exact ⟨events ++ more, hpublished⟩

/-- What a step comes to. -/
def act (s : Session σ α) : SessionStep α → Session σ α
  | .process i trigger => (s.process i trigger).1
  | .refreshPair symbol t => (s.refreshPair symbol t).1
  | .tick => s.tick.1
  | .publish m => s.publish m
  | .settle => s.settle

/-- Every step from outside is explained by some more events. -/
theorem explains_act (h : r.Explains s) (step : SessionStep α) :
    ∃ events, (r.run events).Explains (s.act step) := by
  cases step with
  | process i trigger =>
    obtain ⟨more, -, hexplains⟩ := explains_process h (holds_continues h).staffed i trigger
    exact ⟨_, hexplains⟩
  | refreshPair symbol t => exact explains_refreshPair h symbol t
  | tick => exact explains_tick h
  | publish m =>
    exact exists_explains (r.keeps_continues.sendAndAwait (holds_continues h) m.payload.topic m)
  | settle => exact exists_explains (r.keeps_continues.settle (holds_continues h))

/-- Steps from outside, one after the other, are explained by more and more events. -/
theorem explains_acts (h : r.Explains s) (steps : List (SessionStep α)) :
    ∃ events, (r.run events).Explains (steps.foldl act s) := by
  induction steps generalizing r s with
  | nil => exact ⟨[], h⟩
  | cons step rest ih =>
    obtain ⟨events, hact⟩ := explains_act h step
    obtain ⟨more, hrest⟩ := ih hact
    rw [← CycleRun.run_append] at hrest
    exact ⟨events ++ more, hrest⟩

end Operations

/-! ## Building -/

/-- A new task has not started. -/
theorem fresh_addTask (settings : Settings α) (plan : Plan α) (owner : Nat) (symbol : Symbol)
    (shared : List Nat) {e : Engine σ α} (h : CycleRun.Fresh e) (t : TimeFrame) :
    CycleRun.Fresh (addTask settings plan owner symbol shared e t) where
  counts_eq := h.counts_eq
  tasks_eq t' ht' := by
    rcases List.mem_append.1 ht' with hold | hnew
    · exact h.tasks_eq t' hold
    · rw [List.mem_singleton.1 hnew]
      exact ⟨rfl, rfl⟩

/-- The tasks of a symbol have no history. -/
theorem fresh_addSymbol (settings : Settings α) (plan : Plan α) {e : Engine σ α}
    (h : CycleRun.Fresh e) (symbol : Symbol) :
    CycleRun.Fresh (addSymbol settings plan e symbol) := by
  have htasks : ∀ (ts : List TimeFrame) (owner : Nat) (shared : List Nat) {e : Engine σ α},
      CycleRun.Fresh e →
        CycleRun.Fresh (ts.foldl (addTask settings plan owner symbol shared) e) := by
    intro ts owner shared
    induction ts with
    | nil => exact fun he => he
    | cons t rest ih => exact fun he => ih (fresh_addTask settings plan owner symbol shared he t)
  exact htasks _ _ _ ⟨h.counts_eq, h.tasks_eq⟩

/-- In a new engine no task has started, and no candles were read. -/
theorem fresh_engine (settings : Settings α) (plan : Plan α) (exchange : σ) (exporter : Exporter)
    (folder : Folder) : CycleRun.Fresh (engine settings plan exchange exporter folder) := by
  have hsymbols : ∀ (symbols : List Symbol) {e : Engine σ α}, CycleRun.Fresh e →
      CycleRun.Fresh (symbols.foldl (addSymbol settings plan) e) := by
    intro symbols
    induction symbols with
    | nil => exact fun he => he
    | cons symbol rest ih => exact fun he => ih (fresh_addSymbol settings plan he symbol)
  exact hsymbols _ ⟨rfl, by simp⟩

/-- A subscription leaves the engine and what is under way alone. -/
theorem calm_followTask (s : Session σ α) (i : Nat) : Network.Calm s (followTask s i) := by
  unfold followTask
  simp only
  split
  · exact .refl s
  · exact (Network.calm_modify s _ _).trans (Network.calm_modify _ _ _)

/-- Subscriptions leave the engine and what is under way alone. -/
theorem calm_foldl_followTask (s : Session σ α) (tasks : List Nat) :
    Network.Calm s (tasks.foldl followTask s) := by
  induction tasks generalizing s with
  | nil => exact .refl s
  | cons i rest ih => exact (calm_followTask s i).trans (ih _)

/-- Matching, the trader and the tasks follow their channels, and nothing else happens. -/
theorem calm_follow (s : Session σ α) (tasks : List Nat) :
    Network.Calm s (tasks.foldl followTask ((followTrades s).followTrader 0)) := by
  have htrades : Network.Calm s (followTrades s) := Network.calm_modify s _ _
  have htrader : Network.Calm (followTrades s) ((followTrades s).followTrader 0) :=
    (Network.calm_modify _ _ _).trans (Network.calm_modify _ _ _)
  exact (htrades.trans htrader).trans (calm_foldl_followTask _ tasks)

section Built

variable [Amount α] {settings : Settings α} {plan : Plan α} {exchange : σ} {exporter : Exporter}
  {folder : Folder} {s : Session σ α}

/-- A session that is built has no history, and nobody is in the midst of anything. -/
theorem fresh_build (h : build settings plan exchange exporter folder = .ok s) :
    CycleRun.Fresh s.shared ∧ s.pending = [] := by
  obtain ⟨-, rfl⟩ := build_eq_ok_iff.1 h
  have hfollow := calm_follow
    { shared := engine settings plan exchange exporter folder
      channels := freshChannels settings.queueSize settings.tradeFilterSize }
    (List.range (engine settings plan exchange exporter folder).tasks.length)
  rw [hfollow.shared_eq, hfollow.pending_eq]
  exact ⟨fresh_engine settings plan exchange exporter folder, rfl⟩

/-- Whatever is done with a session that was built, there is a history that it shows. -/
theorem exists_history [Written α] [Exchange σ α]
    (h : build settings plan exchange exporter folder = .ok s) (steps : List (SessionStep α)) :
    CycleRun.Fresh s.shared ∧
      ∃ events, (({ engine := s.shared } : CycleRun σ α).run events).Explains
        (steps.foldl act s) := by
  obtain ⟨hfresh, hpending⟩ := fresh_build h
  exact ⟨hfresh, explains_acts (explains_fresh hpending) steps⟩

end Built

end Session

end MarketEngine
