import MarketEngine.Proofs.Evaluation.Triggers
import MarketEngine.Proofs.Feed.Readings
/-!
# Polls

Each poll asks for every target that has not ended, and treats every target by its own answer alone.
So whatever else happens to a session, the poller's channel carries the answers with data, target by
target in order; the market keeps the last of them for each symbol; and a symbol whose feed has
ended is asked for no more (`Session.polls_isolated`).
-/

namespace MarketEngine

variable {σ α : Type}

/-! ## Polled data -/

/-- What a board keeps of the data of a topic. -/
def Board.kept (b : Board α) : Topic → Option (Payload α)
  | .ticker => b.ticker.map .ticker
  | .orderBook => b.book.map .book
  | .recentTrade => some (.trades b.trades)
  | _ => none

/-- What the market keeps of the data of a topic for a symbol. -/
def Market.kept (m : Market α) (topic : Topic) (symbol : Symbol) : Option (Payload α) :=
  ((m.board? symbol).getD {}).kept topic

/-- What is kept of polled data: of trades the newest, as many as there is room for. -/
def Payload.kept (mostTrades : Nat) : Payload α → Option (Payload α)
  | .ticker data => some (.ticker data)
  | .book data => some (.book data)
  | .trades data => some (.trades (data.drop (data.length - max mostTrades 1)))
  | _ => none

namespace Market

/-- A change to one symbol's board is seen for that symbol only. -/
theorem kept_write (m : Market α) (f : Board α → Board α) (topic : Topic)
    (symbol symbol' : Symbol) : (m.write symbol f).kept topic symbol' =
      if symbol' = symbol then (f ((m.board? symbol).getD {})).kept topic
      else m.kept topic symbol' := by
  simp only [kept, board?, write, Table.get?_modify, beq_iff_eq]
  split <;> rfl

/-- Polled data is kept under its own symbol and topic, and what is kept elsewhere stays. -/
theorem kept_recordPolled (m : Market α) (topic : Topic) (symbol symbol' : Symbol)
    (payload : Payload α) : (m.recordPolled symbol payload).kept topic symbol' =
      if symbol' = symbol ∧ payload.topic = topic then payload.kept m.mostTrades
      else m.kept topic symbol' := by
  -- three kinds of data are written to a board, each to its own place there
  have hwritten : ∀ f : Board α → Board α,
      (∀ b, (f b).kept topic = if payload.topic = topic then payload.kept m.mostTrades
        else b.kept topic) →
      (m.write symbol f).kept topic symbol' =
        if symbol' = symbol ∧ payload.topic = topic then payload.kept m.mostTrades
        else m.kept topic symbol' := by
    intro f hf
    rw [kept_write, hf]
    by_cases hsymbol : symbol' = symbol
    · simp only [hsymbol, true_and, if_true]
      rfl
    · simp only [hsymbol, false_and, if_false]
  cases payload with
  | ticker data =>
    refine hwritten _ fun b => ?_
    cases topic <;> simp [Board.kept, Payload.kept, Payload.topic]
  | book data =>
    refine hwritten _ fun b => ?_
    cases topic <;> simp [Board.kept, Payload.kept, Payload.topic]
  | trades data =>
    refine hwritten _ fun b => ?_
    cases topic <;> simp [Board.kept, Payload.kept, Payload.topic, Board.updateTrades]
  | _ =>
    simp only [recordPolled]
    split
    · next h =>
      rw [← h.2]
      rfl
    · rfl

/-- The room for trades is a setting. -/
theorem mostTrades_recordPolled (m : Market α) (symbol : Symbol) (payload : Payload α) :
    (m.recordPolled symbol payload).mostTrades = m.mostTrades := by
  cases payload <;> rfl

/-- Candles are kept apart. -/
theorem kept_take (m : Market α) (pair : Symbol × TimeFrame)
    (answer : Answer (List (Candle α))) (topic : Topic) (symbol : Symbol) :
    (m.take pair answer).kept topic symbol = m.kept topic symbol := by
  cases answer with
  | error cause => rfl
  | ok batch =>
    have hboard : ∀ b : Board α,
        (b.updateCandles m.mostCandles pair.2 batch).kept topic = b.kept topic := by
      intro b
      unfold Board.updateCandles
      split <;> rfl
    refine (m.kept_write _ topic pair.1 symbol).trans ?_
    rw [hboard]
    split
    · next h => rw [h]; rfl
    · rfl

/-- Candles leave the room for trades alone. -/
theorem mostTrades_take (m : Market α) (pair : Symbol × TimeFrame)
    (answer : Answer (List (Candle α))) : (m.take pair answer).mostTrades = m.mostTrades := by
  cases answer <;> rfl

end Market

/-! ## Answers to a poller -/

/-- An answer for a target of a poller. -/
abbrev PollAnswer (α : Type) := Symbol × Answer (Payload α)

/-- The data that a target was answered, in order. -/
def successes (target : Symbol) (answers : List (PollAnswer α)) : List (Payload α) :=
  answers.filterMap fun answer => if answer.1 = target then answer.2.toOption else none

/-- The feed of a target has ended. -/
def HasEnded (answers : List (PollAnswer α)) (target : Symbol) : Prop :=
  ∃ answer, (target, answer) ∈ answers ∧ answer.isEnd = true

instance (answers : List (PollAnswer α)) (target : Symbol) : Decidable (HasEnded answers target) :=
  decidable_of_iff (∃ answer ∈ answers, answer.1 = target ∧ answer.2.isEnd = true) (by
    simp [HasEnded])

/-- Everything but the balances is polled symbol by symbol. -/
theorem PollSource.isPerSymbol_iff {source : PollSource} :
    source.isPerSymbol = true ↔ source ≠ .balance := by
  cases source <;> simp [isPerSymbol]

/-- The targets of a poller that got these answers so far: all symbols whose feeds have not ended,
or the wildcard, which has no end. -/
def Poller.targetsAfter (p : Poller) (answers : List (PollAnswer α)) : List Symbol :=
  if p.source.isPerSymbol then p.symbols.filter fun symbol => ¬ HasEnded answers symbol
  else [Symbol.wildcard]

/-- The data of more answers comes after that of those before. -/
theorem successes_append (target : Symbol) (answers more : List (PollAnswer α)) :
    successes target (answers ++ more) = successes target answers ++ successes target more :=
  List.filterMap_append

/-- A feed has ended with one more answer if it had before or if this answer says so. -/
theorem hasEnded_concat {answers : List (PollAnswer α)} {answer : PollAnswer α} {target : Symbol} :
    HasEnded (answers ++ [answer]) target ↔
      HasEnded answers target ∨ answer.1 = target ∧ answer.2.isEnd = true := by
  obtain ⟨symbol, answer⟩ := answer
  simp only [HasEnded, List.mem_append, List.mem_singleton, Prod.mk.injEq]
  constructor
  · rintro ⟨answer', hmem | ⟨rfl, rfl⟩, hend⟩
    · exact .inl ⟨answer', hmem, hend⟩
    · exact .inr ⟨rfl, hend⟩
  · rintro (⟨answer', hmem, hend⟩ | ⟨rfl, hend⟩)
    · exact ⟨answer', .inl hmem, hend⟩
    · exact ⟨answer, .inr ⟨rfl, rfl⟩, hend⟩

/-- What is published of more answers comes after what was published before. -/
theorem Session.answerPosts_append (answers more : List (PollAnswer α)) :
    answerPosts (answers ++ more) = answerPosts answers ++ answerPosts more :=
  List.filterMap_append

/-- The messages for a target carry what it was answered. -/
theorem Session.payloads_answerPosts (target : Symbol) (answers : List (PollAnswer α)) :
    ((answerPosts answers).filter (·.key.symbol = target)).map (·.payload) =
      successes target answers := by
  induction answers with
  | nil => rfl
  | cons answer rest ih =>
    obtain ⟨symbol, answer⟩ := answer
    cases answer with
    | error cause => simpa [answerPosts, successes, Except.toOption] using ih
    | ok payload =>
      by_cases hsymbol : symbol = target <;>
        simpa [answerPosts, successes, hsymbol, Except.toOption] using ih

/-- A poller gets an answer for every target that it asks for, in their order. -/
theorem Poller.map_fst_fetchAll [Exchange σ α] (source : PollSource) (ex : σ)
    (symbols : List Symbol) : (fetchAll (α := α) source ex symbols).1.map (·.1) = symbols := by
  induction symbols generalizing ex with
  | nil => rfl
  | cons symbol rest ih => rw [fetchAll, List.map_cons, ih]

/-- The end of a feed leaves the sources of all pollers alone. -/
theorem Poller.sources_endSymbol (pollers : List Poller) (i : Nat) (symbol : Symbol) :
    (pollers.modify i (·.endSymbol symbol)).map (·.source) = pollers.map (·.source) :=
  map_modify (g := Poller.source) (f := (·.endSymbol symbol)) (fun _ => rfl) pollers i

/-! ## What a poller has done -/

namespace Engine

/-- The poller with the number `i`, the sources of all pollers and what the market keeps of the data
of a topic are left alone. -/
structure KeepsPolled (i : Nat) (topic : Topic) (e e' : Engine σ α) : Prop where
  poller_eq : e'.pollers[i]? = e.pollers[i]?
  sources_eq : e'.pollers.map (·.source) = e.pollers.map (·.source)
  mostTrades_eq : e'.market.mostTrades = e.market.mostTrades
  kept_eq : ∀ symbol, e'.market.kept topic symbol = e.market.kept topic symbol

/-- Left alone twice is left alone. -/
theorem KeepsPolled.trans {i : Nat} {topic : Topic} {e e' e'' : Engine σ α}
    (h : e.KeepsPolled i topic e') (h' : e'.KeepsPolled i topic e'') :
    e.KeepsPolled i topic e'' where
  poller_eq := h'.poller_eq.trans h.poller_eq
  sources_eq := h'.sources_eq.trans h.sources_eq
  mostTrades_eq := h'.mostTrades_eq.trans h.mostTrades_eq
  kept_eq symbol := (h'.kept_eq symbol).trans (h.kept_eq symbol)

/-- The poller with the number `i` was `p`, without any answer, when the engine was `e₀`, and got
these answers since. Each symbol has the last data that it was answered. -/
structure HasPolled (i : Nat) (p : Poller) (answers : List (PollAnswer α)) (e₀ e : Engine σ α) :
    Prop where
  poller_eq : ∃ ended, e.pollers[i]? = some { p with ended } ∧
    ∀ symbol, symbol ∈ ended ↔ HasEnded answers symbol
  sources_eq : e.pollers.map (·.source) = e₀.pollers.map (·.source)
  mostTrades_eq : e.market.mostTrades = e₀.market.mostTrades
  kept_eq : ∀ symbol, e.market.kept p.source.topic symbol =
    (successes symbol answers).getLast?.elim (e₀.market.kept p.source.topic symbol)
      (·.kept e₀.market.mostTrades)

namespace HasPolled

variable {i : Nat} {p : Poller} {e₀ e e' : Engine σ α} {answers : List (PollAnswer α)}

/-- At first a poller has no answers. -/
theorem nil (hp : e₀.pollers[i]? = some p) (hended : p.ended = []) : e₀.HasPolled i p [] e₀ where
  poller_eq := ⟨[], by rw [hp, ← hended], fun symbol => by simp [HasEnded]⟩
  sources_eq := rfl
  mostTrades_eq := rfl
  kept_eq _ := rfl

/-- What leaves the poller's data alone keeps what it has done. -/
theorem keeps (h : e₀.HasPolled i p answers e) (hkeeps : e.KeepsPolled i p.source.topic e') :
    e₀.HasPolled i p answers e' where
  poller_eq := by
    rw [hkeeps.poller_eq]
    exact h.poller_eq
  sources_eq := hkeeps.sources_eq.trans h.sources_eq
  mostTrades_eq := hkeeps.mostTrades_eq.trans h.mostTrades_eq
  kept_eq symbol := (hkeeps.kept_eq symbol).trans (h.kept_eq symbol)

/-- The targets of the next poll. -/
theorem targets_eq (h : e₀.HasPolled i p answers e) :
    ∃ ended, e.pollers[i]? = some { p with ended } ∧
      { p with ended }.targets = p.targetsAfter answers := by
  obtain ⟨ended, hp, hmem⟩ := h.poller_eq
  refine ⟨ended, hp, ?_⟩
  have hfilter : ∀ symbol, (!ended.contains symbol) = decide (¬ HasEnded answers symbol) := by
    intro symbol
    by_cases hsymbol : symbol ∈ ended <;> simp [hsymbol, ← hmem]
  unfold Poller.targets Poller.targetsAfter
  simp only [hfilter]

/-- Data are taken in. -/
theorem record (h : e₀.HasPolled i p answers e) (symbol : Symbol) {payload : Payload α}
    (htopic : payload.topic = p.source.topic) :
    e₀.HasPolled i p (answers ++ [(symbol, .ok payload)])
      { e with market := e.market.recordPolled symbol payload } where
  poller_eq := by
    obtain ⟨ended, hp, hmem⟩ := h.poller_eq
    refine ⟨ended, hp, fun symbol' => ?_⟩
    rw [hasEnded_concat, hmem]
    simp [Answer.isEnd]
  sources_eq := h.sources_eq
  mostTrades_eq := (e.market.mostTrades_recordPolled symbol payload).trans h.mostTrades_eq
  kept_eq symbol' := by
    refine (e.market.kept_recordPolled _ symbol symbol' payload).trans ?_
    rw [successes_append, h.mostTrades_eq, h.kept_eq]
    by_cases hsymbol : symbol = symbol'
    · simp [successes, hsymbol, htopic, Except.toOption]
    · simp [successes, hsymbol, Ne.symm hsymbol]

/-- The feed of a target ends. -/
theorem endTarget (h : e₀.HasPolled i p answers e) (symbol of : Symbol) :
    e₀.HasPolled i p (answers ++ [(symbol, .error (.feedEnded of))])
      { e with pollers := e.pollers.modify i (·.endSymbol symbol) } where
  poller_eq := by
    obtain ⟨ended, hp, hmem⟩ := h.poller_eq
    refine ⟨symbol :: ended, by simp [hp, Poller.endSymbol], fun symbol' => ?_⟩
    rw [hasEnded_concat, List.mem_cons, hmem]
    simp [Answer.isEnd, or_comm, eq_comm]
  sources_eq := (Poller.sources_endSymbol e.pollers i symbol).trans h.sources_eq
  mostTrades_eq := h.mostTrades_eq
  kept_eq symbol' := by
    refine (h.kept_eq symbol').trans ?_
    simp [successes, Except.toOption]

/-- A target could not be asked. -/
theorem fail (h : e₀.HasPolled i p answers e) (symbol : Symbol) {cause : ExchangeError}
    (hcause : Answer.isEnd (.error cause : Answer (Payload α)) = false) :
    e₀.HasPolled i p (answers ++ [(symbol, .error cause)]) e where
  poller_eq := by
    obtain ⟨ended, hp, hmem⟩ := h.poller_eq
    refine ⟨ended, hp, fun symbol' => ?_⟩
    rw [hasEnded_concat, hmem]
    simp [hcause]
  sources_eq := h.sources_eq
  mostTrades_eq := h.mostTrades_eq
  kept_eq symbol' := by
    refine (h.kept_eq symbol').trans ?_
    simp [successes, Except.toOption]

end HasPolled

variable [Exchange σ α]

/-- Candles, and whatever consumers do, leave a poller's data alone. -/
theorem admits_keepsPolled (i : Nat) (topic : Topic) :
    Admits (KeepsPolled (σ := σ) (α := α) i topic) where
  beside h := ⟨by rw [h.pollers_eq], by rw [h.pollers_eq], by rw [h.market_eq],
    fun _ => by rw [h.market_eq]⟩
  refresh e symbol t := by
    rw [refreshCandles_eq]
    exact ⟨rfl, rfl, e.market.mostTrades_take _ _, e.market.kept_take _ _ topic⟩
  trans := .trans

end Engine

/-- What happens from outside leaves the poller's data alone: nobody else publishes on its topic. -/
def SessionEvent.LeavesPolled (topic : Topic) : SessionEvent σ α → Prop
  | .send m => m.payload.topic ≠ topic
  | .change f _ => ∀ (i : Nat) (e : Engine σ α), e.KeepsPolled i topic (f e)
  | _ => True

namespace Session

variable [Exchange σ α] [Amount α] [Written α]

/-! ## One poll -/

/-- Bounds on what somebody outside does besides the poller. -/
def keepingPolled (i : Nat) (topic : Topic) : Dealings Role (Engine σ α) where
  changes := Engine.KeepsPolled i topic
  subscribes _ := True
  handles _ := True

/-- A message that is published changes nothing of what is polled. -/
theorem keepsPolled_publish (i : Nat) (topic : Topic) (s : Session σ α)
    (m : Message (Payload α)) : s.shared.KeepsPolled i topic (s.publish m).shared :=
  (leads_publish (D := keepingPolled i topic) s m).shared (Engine.admits_keepsPolled i topic).keepTo
    fun _ _ h => h

/-- A poll takes the answers in one by one, whatever the consumers do with what is published. -/
theorem hasPolled_takeAnswers {i : Nat} {p : Poller} {e₀ : Engine σ α}
    {answers more : List (PollAnswer α)}
    (htopic : ∀ symbol payload, (symbol, .ok payload) ∈ more → payload.topic = p.source.topic)
    {s : Session σ α} (h : e₀.HasPolled i p answers s.shared) :
    e₀.HasPolled i p (answers ++ more) (takeAnswers i s more).1.shared := by
  induction more generalizing s answers with
  | nil =>
    rw [List.append_nil]
    exact h
  | cons answer rest ih =>
    obtain ⟨symbol, answer⟩ := answer
    have hrest : ∀ {s : Session σ α},
        e₀.HasPolled i p (answers ++ [(symbol, answer)]) s.shared →
        e₀.HasPolled i p (answers ++ (symbol, answer) :: rest) (takeAnswers i s rest).1.shared := by
      intro s hs
      rw [← List.singleton_append, ← List.append_assoc]
      exact ih (fun symbol' payload hmem => htopic symbol' payload (.tail _ hmem)) hs
    cases answer with
    | ok payload =>
      have hrecorded := h.record symbol (htopic symbol payload List.mem_cons_self)
      exact hrest (hrecorded.keeps (keepsPolled_publish i p.source.topic (s.modifyEngine
        fun e => { e with market := e.market.recordPolled symbol payload }) _))
    | error cause =>
      cases cause with
      | feedEnded of => exact hrest (h.endTarget symbol of)
      | _ =>
        rw [takeAnswers]
        · exact hrest (h.fail symbol rfl)
        · simp

/-- A poll answers with the number of targets that were answered data. -/
theorem snd_takeAnswers (i : Nat) (s : Session σ α) (answers : List (PollAnswer α)) :
    (takeAnswers i s answers).2 = answers.countP (·.2.isOk) := by
  induction answers generalizing s with
  | nil => rfl
  | cons answer rest ih =>
    obtain ⟨symbol, answer⟩ := answer
    cases answer with
    | ok payload => simp [takeAnswers, ih, Except.isOk, Except.toBool]
    | error cause =>
      cases cause <;> simp [takeAnswers, ih, Except.isOk, Except.toBool]

/-! ## Whatever else happens -/

section Polls

variable {i : Nat} {p : Poller} {e₀ : Engine σ α}

/-- The answers that the poller gets in an event, if it asks. -/
def pollRound? (s : Session σ α) (i : Nat) : SessionEvent σ α → Option (List (PollAnswer α))
  | .poll j => if j = i then some (s.pollAnswers i) else none
  | _ => none

omit [Amount α] [Written α] in
/-- Only its own polls get a poller answers. -/
theorem pollRound?_eq_some {s : Session σ α} {event : SessionEvent σ α}
    {round : List (PollAnswer α)} :
    s.pollRound? i event = some round ↔ event = .poll i ∧ s.pollAnswers i = round := by
  unfold pollRound?
  split
  · next j =>
    by_cases hj : j = i <;> simp [hj]
  · next hother => simpa using fun h => absurd h (hother i)

/-- The answers that the poller gets each time it asks. -/
def pollRounds (i : Nat) : Session σ α → List (SessionEvent σ α) → List (List (PollAnswer α))
  | _, [] => []
  | s, event :: rest => (s.pollRound? i event).toList ++ pollRounds i (s.happen event) rest

/-- Nobody else polls data of the poller's topic. -/
def PollsAlone (e₀ : Engine σ α) (i : Nat) (p : Poller) : Prop :=
  ∀ (j : Nat) (source : PollSource), (e₀.pollers.map (·.source))[j]? = some source →
    source.topic = p.source.topic → j = i

omit [Exchange σ α] [Amount α] [Written α] in
/-- As sources stay, nobody comes to poll the poller's topic besides itself. -/
theorem PollsAlone.eq_of_topic (halone : PollsAlone e₀ i p) {e : Engine σ α}
    {answers : List (PollAnswer α)} (h : e₀.HasPolled i p answers e) {j : Nat} {q : Poller}
    (hq : e.pollers[j]? = some q) (htopic : q.source.topic = p.source.topic) : j = i := by
  refine halone j q.source ?_ htopic
  rw [← h.sources_eq, List.getElem?_map, hq]
  rfl

/-- In an event other than a poll, the poller's data are left alone. -/
theorem keepsPolled_happen (halone : PollsAlone e₀ i p) {s : Session σ α}
    {answers : List (PollAnswer α)} (h : e₀.HasPolled i p answers s.shared)
    {event : SessionEvent σ α} (hevent : event.LeavesPolled p.source.topic)
    (hround : s.pollRound? i event = none) :
    s.shared.KeepsPolled i p.source.topic (s.happen event).shared := by
  have hadmits := Engine.admits_keepsPolled (σ := σ) (α := α) i p.source.topic
  have hticks :
      Engine.Ticks (keepingPolled i p.source.topic : Dealings Role (Engine σ α)).changes :=
    hadmits.ticks fun _ _ => ⟨rfl, rfl, rfl, fun _ => rfl⟩
  have hleads : LeadsWithin (keepingPolled i p.source.topic) (s.posts event) (calls event) s
      (s.happen event) := by
    refine leads_happen_within hticks trivial (fun _ => trivial) s (fun j hj => ?_) ?_
    · have hne : j ≠ i := by
        rintro rfl
        simp [hj, pollRound?] at hround
      refine leads_poll (fun q e => hadmits.beside ⟨.poll q e.exchange, rfl, rfl, rfl⟩)
        (fun symbol payload hpayload e => ?_) (fun symbol e => ?_)
      · obtain ⟨q, hq, htopic⟩ := topic_pollAnswers hpayload
        have hother : payload.topic ≠ p.source.topic := fun heq =>
          hne (halone.eq_of_topic h hq (htopic.symm.trans heq))
        refine ⟨rfl, rfl, e.market.mostTrades_recordPolled symbol payload, fun symbol' => ?_⟩
        rw [Market.kept_recordPolled, if_neg fun hboth => hother hboth.2]
      · exact ⟨by simp [hne], Poller.sources_endSymbol e.pollers j symbol, rfl, fun _ => rfl⟩
    · rintro f hf rfl e
      exact hevent i e
  exact hleads.shared hadmits.keepTo fun _ _ h => h

/-- A poll asks for all targets first, and then takes in the answers. -/
theorem poll_eq {s : Session σ α} {q : Poller} (hq : s.shared.pollers[i]? = some q) :
    s.poll i = takeAnswers i
      (s.modifyEngine ({ · with exchange := (q.poll (α := α) s.shared.exchange).2 }))
      (s.pollAnswers i) := by
  unfold poll pollAnswers
  rw [hq]
  rfl

/-- One event: the poller takes in what it is answered, if it asks, and otherwise nothing. -/
theorem hasPolled_happen (halone : PollsAlone e₀ i p) {s : Session σ α}
    {answers : List (PollAnswer α)} (h : e₀.HasPolled i p answers s.shared)
    {event : SessionEvent σ α} (hevent : event.LeavesPolled p.source.topic) :
    e₀.HasPolled i p (answers ++ (s.pollRound? i event).getD []) (s.happen event).shared := by
  cases hround : s.pollRound? i event with
  | none =>
    rw [Option.getD_none, List.append_nil]
    exact h.keeps (keepsPolled_happen halone h hevent hround)
  | some round =>
    obtain ⟨rfl, rfl⟩ := pollRound?_eq_some.1 hround
    obtain ⟨ended, hq, -⟩ := h.poller_eq
    have hasked : e₀.HasPolled i p answers
        { s.shared with exchange := (Poller.poll (α := α) { p with ended } s.shared.exchange).2 } :=
      h.keeps ((Engine.admits_keepsPolled i p.source.topic).beside
        ⟨.poll { p with ended } s.shared.exchange, rfl, rfl, rfl⟩)
    show e₀.HasPolled i p _ (s.poll i).1.shared
    rw [poll_eq hq]
    refine hasPolled_takeAnswers (fun symbol payload hpayload => ?_) hasked
    exact topic_fetchAll (by rwa [pollAnswers, hq] at hpayload)

omit [Amount α] [Written α] in
/-- On the poller's topic it alone posts what it is answered. -/
theorem filter_posts (halone : PollsAlone e₀ i p) {s : Session σ α} {answers : List (PollAnswer α)}
    (h : e₀.HasPolled i p answers s.shared) {event : SessionEvent σ α}
    (hevent : event.LeavesPolled p.source.topic) :
    (s.posts event).filter (·.payload.topic = p.source.topic) =
      answerPosts ((s.pollRound? i event).getD []) := by
  have htopics : ∀ {j m}, m ∈ s.posts (.poll j) → ∃ q, s.shared.pollers[j]? = some q ∧
      m.payload.topic = q.source.topic := fun hm => by
    rw [posts_poll] at hm
    obtain ⟨symbol, hanswer⟩ := exists_of_mem_answerPosts hm
    exact topic_pollAnswers hanswer
  cases hround : s.pollRound? i event with
  | some round =>
    obtain ⟨rfl, rfl⟩ := pollRound?_eq_some.1 hround
    rw [Option.getD_some, ← posts_poll, List.filter_eq_self]
    intro m hm
    obtain ⟨q, hq, htopic⟩ := htopics hm
    obtain ⟨ended, hp, -⟩ := h.poller_eq
    obtain rfl := Option.some.inj (hp.symm.trans hq)
    exact decide_eq_true htopic
  | none =>
    rw [Option.getD_none, show answerPosts (α := α) [] = [] from rfl, List.filter_eq_nil_iff]
    intro m hm
    rw [decide_eq_true_eq]
    have hother (hpoll : ∀ j, event ≠ .poll j) (hsend : ∀ m, event ≠ .send m) :
        m.payload.topic ≠ p.source.topic := by
      rcases s.topic_posts_of_ne hpoll hsend hm with htopic | htopic <;> rw [htopic] <;>
        cases p.source <;> nofun
    cases event with
    | poll j =>
      obtain ⟨q, hq, htopic⟩ := htopics hm
      intro heq
      obtain rfl := halone.eq_of_topic h hq (htopic.symm.trans heq)
      simp [pollRound?] at hround
    | send m' =>
      rw [List.mem_singleton.1 hm]
      exact hevent
    | _ => exact hother (by simp) (by simp)

/-- The channel of the poller carries what it is answered. -/
theorem carries_happen (halone : PollsAlone e₀ i p) {s : Session σ α}
    {answers : List (PollAnswer α)} (h : e₀.HasPolled i p answers s.shared)
    {event : SessionEvent σ α} (hevent : event.LeavesPolled p.source.topic)
    {ms : List (Message (Payload α))} (hms : s.Carries p.source.topic ms) :
    (s.happen event).Carries p.source.topic
      (ms ++ answerPosts ((s.pollRound? i event).getD [])) := by
  have hsilent : (Engine.handlers : Handlers Role (Payload α) (Engine σ α) (Stage α)).SilentOn
      p.source.topic := Engine.silentOn (by cases p.source <;> simp [PollSource.topic])
  -- what is done to the engine does not matter to the messages
  have hleads : LeadsWithin ⟨fun _ _ => True, fun _ => True, fun _ => True⟩ (s.posts event)
      (calls event) s (s.happen event) := by
    refine leads_happen_within ⟨fun _ => trivial, fun _ _ _ => trivial, fun _ => trivial⟩ trivial
      (fun _ => trivial) s (fun _ _ => ?_) fun _ _ _ _ => trivial
    exact leads_poll (fun _ _ => trivial) (fun _ _ _ _ => trivial) fun _ _ => trivial
  have hcarries := hleads.carries hsilent hms
  rw [← filter_posts halone h hevent]
  simpa [List.filter_map, Function.comp_def] using hcarries

/-- Any course of events, from where the poller got some answers already. -/
theorem hasPolled_after (halone : PollsAlone e₀ i p) {events : List (SessionEvent σ α)}
    (hevents : ∀ event ∈ events, event.LeavesPolled p.source.topic) {s : Session σ α}
    {answers : List (PollAnswer α)} (h : e₀.HasPolled i p answers s.shared) :
    let rounds := pollRounds i s events
    e₀.HasPolled i p (answers ++ rounds.flatten) (s.after events).shared ∧
    (∀ ms, s.Carries p.source.topic ms →
      (s.after events).Carries p.source.topic (ms ++ answerPosts rounds.flatten)) ∧
    ∀ before round later, rounds = before ++ round :: later → ∃ ex : σ,
      round = (Poller.fetchAll p.source ex (p.targetsAfter (answers ++ before.flatten))).1 := by
  induction events generalizing s answers with
  | nil =>
    refine ⟨?_, fun ms hms => ?_, fun before round later hsplit => ?_⟩
    · rw [pollRounds, List.flatten_nil, List.append_nil]
      exact h
    · rw [pollRounds, List.flatten_nil, show answerPosts (α := α) [] = [] from rfl, List.append_nil]
      exact hms
    · simp [pollRounds] at hsplit
  | cons event rest ih =>
    rw [List.forall_mem_cons] at hevents
    have hnext := hasPolled_happen halone h hevents.1
    obtain ⟨hpolled, hcarries, htargets⟩ := ih hevents.2 hnext
    have hflatten : (pollRounds i s (event :: rest)).flatten =
        (s.pollRound? i event).getD [] ++ (pollRounds i (s.happen event) rest).flatten := by
      rw [pollRounds, List.flatten_append]
      cases s.pollRound? i event <;> simp
    refine ⟨?_, fun ms hms => ?_, fun before round later hsplit => ?_⟩
    · rw [hflatten, ← List.append_assoc]
      exact hpolled
    · rw [hflatten, answerPosts_append, ← List.append_assoc]
      exact hcarries _ (carries_happen halone h hevents.1 hms)
    · rw [pollRounds] at hsplit
      cases hround : s.pollRound? i event with
      | none =>
        rw [hround, Option.toList_none, List.nil_append] at hsplit
        obtain ⟨ex, hex⟩ := htargets before round later hsplit
        rw [hround, Option.getD_none, List.append_nil] at hex
        exact ⟨ex, hex⟩
      | some first =>
        rw [hround, Option.toList_some, List.singleton_append] at hsplit
        -- the round is the one of this event, or one of the events after it
        cases before with
        | nil =>
          obtain ⟨rfl, -⟩ := List.cons.inj hsplit
          obtain ⟨rfl, rfl⟩ := pollRound?_eq_some.1 hround
          obtain ⟨ended, hq, htargets⟩ := h.targets_eq
          refine ⟨s.shared.exchange, ?_⟩
          rw [List.flatten_nil, List.append_nil, ← htargets, pollAnswers, hq]
          rfl
        | cons first' before =>
          obtain ⟨rfl, hrest⟩ := List.cons.inj hsplit
          obtain ⟨ex, hex⟩ := htargets before round later hrest
          rw [hround, Option.getD_some, List.append_assoc] at hex
          exact ⟨ex, hex⟩

end Polls

/-- Take any poller that has not asked yet, in any session where nobody else polls data of its topic
or publishes on it, and let anything happen. Of all that the poller was answered,

* its channel carries the data, and nothing else since: for each target, what it was answered with
  data, in order;
* a poll answers with the number of targets that were answered data;
* the market keeps for each symbol the last data that it was answered, of trades the newest, and
  what it had before if there were none, whatever else was answered for this symbol or another;
* each poll asked for all symbols whose feeds had not ended before, each of them in turn, and for no
  other; but the balances are asked for once in every poll, on the wildcard. -/
theorem polls_isolated {s₀ : Session σ α} {i : Nat} {p : Poller}
    (hp : s₀.shared.pollers[i]? = some p) (hended : p.ended = [])
    (halone : PollsAlone s₀.shared i p) {events : List (SessionEvent σ α)}
    (hevents : ∀ event ∈ events, event.LeavesPolled p.source.topic) :
    let s := s₀.after events
    let rounds := pollRounds i s₀ events
    let answers := rounds.flatten
    (∀ ms, s₀.Carries p.source.topic ms →
      s.Carries p.source.topic (ms ++ answerPosts answers)) ∧
    (∀ target, ((answerPosts answers).filter (·.key.symbol = target)).map (·.payload) =
      successes target answers) ∧
    (s.poll i).2 = (s.pollAnswers i).countP (·.2.isOk) ∧
    (∀ symbol, s.shared.market.kept p.source.topic symbol =
      (successes symbol answers).getLast?.elim (s₀.shared.market.kept p.source.topic symbol)
        (·.kept s₀.shared.market.mostTrades)) ∧
    ∀ before round later, rounds = before ++ round :: later →
      (∃ ex : σ, round = (Poller.fetchAll p.source ex (round.map (·.1))).1) ∧
      (p.source ≠ .balance →
        round.map (·.1) = p.symbols.filter fun symbol => ¬ HasEnded before.flatten symbol) ∧
      (p.source = .balance → round.map (·.1) = [Symbol.wildcard]) := by
  intro s rounds answers
  obtain ⟨hpolled, hcarries, htargets⟩ := hasPolled_after halone hevents (.nil hp hended)
  obtain ⟨ended, hq, -⟩ := hpolled.poller_eq
  refine ⟨hcarries, fun target => payloads_answerPosts target answers, ?_, hpolled.kept_eq,
    fun before round later hsplit => ?_⟩
  · rw [poll_eq hq]
    exact snd_takeAnswers i _ _
  · obtain ⟨ex, hex⟩ := htargets before round later hsplit
    -- who was asked follows from the answers of the rounds before
    have hasked : round.map (·.1) = p.targetsAfter before.flatten := by
      rw [hex, Poller.map_fst_fetchAll]
      rfl
    refine ⟨⟨ex, by rw [hasked]; exact hex⟩, fun hsource => ?_, fun hsource => ?_⟩
    · rw [hasked, Poller.targetsAfter, if_pos (PollSource.isPerSymbol_iff.2 hsource)]
    · rw [hasked, Poller.targetsAfter, hsource]
      rfl

/-! ## A poll that fails -/

/-- Recent trades of two symbols are polled. The first query fails, and one of the feeds ends. -/
def polledWiring : Wiring (ScriptedExchange ℚ) ℚ :=
  { crowdedWiring with
    engine := { crowdedWiring.engine with
      exchange := (((ScriptedExchange.queueTrades {} "BTC/USDT" [⟨1, 1, 0⟩]).queueTrades "ETH/USDT"
        [⟨2, 1, 0⟩]).endFeeds "ETH/USDT").addMishap .trades (.unavailable "down")
      pollers := [{ source := .trades 5, symbols := ["BTC/USDT", "ETH/USDT"] }] } }

/-- Three polls. -/
def threePolls : List (SessionEvent (ScriptedExchange ℚ) ℚ) := List.replicate 3 (.poll 0)

/-- The first poll brings trades of one symbol and the second one of the other, and the third asks
for that other symbol alone. -/
theorem polls_isolated_trades :
    let s := (wire polledWiring).after threePolls
    (pollRounds 0 (wire polledWiring) threePolls).map (·.map (·.1)) =
      [["BTC/USDT", "ETH/USDT"], ["BTC/USDT", "ETH/USDT"], ["BTC/USDT"]] ∧
    (∃ ms, s.Carries .recentTrade ms ∧ ms = [⟨⟨"ETH/USDT", none⟩, .trades [⟨2, 1, 0⟩]⟩,
      ⟨⟨"BTC/USDT", none⟩, .trades [⟨1, 1, 0⟩]⟩, ⟨⟨"BTC/USDT", none⟩, .trades [⟨1, 1, 0⟩]⟩]) ∧
    (s.poll 0).2 = 1 ∧
    s.shared.market.kept .recentTrade "ETH/USDT" = some (.trades [⟨2, 1, 0⟩]) := by
  have halone : PollsAlone (wire polledWiring).shared 0
      { source := .trades 5, symbols := ["BTC/USDT", "ETH/USDT"] } := by
    rintro (_ | j) source hsource -
    · rfl
    · cases hsource
  have hevents : ∀ event ∈ threePolls, event.LeavesPolled .recentTrade := by
    intro event hevent
    rw [List.eq_of_mem_replicate hevent]
    trivial
  obtain ⟨hcarries, -, hcount, hkept, -⟩ := polls_isolated rfl rfl halone hevents
  refine ⟨by decide +kernel, ⟨_, hcarries [] ⟨_, rfl, rfl⟩, rfl⟩,
    hcount.trans (by decide +kernel), ?_⟩
  exact (hkept "ETH/USDT").trans rfl

end Session

end MarketEngine
