import MarketEngine.Proofs.Channel.Story
import MarketEngine.Proofs.Evaluation.Histories
import MarketEngine.Proofs.Evaluation.NoDeadlock
/-!
# The story of a session

The messages that an event posts are known when it begins (`Session.posts`), consumers do what they
do, and apart from what they do the cycles of all tasks are spared (`Session.leads_happen`). So
whatever happens to a session goes on with the story that it tells.
-/

namespace MarketEngine

variable {σ α : Type}

namespace Engine

/-- Who is wired to whom: the evaluation, the time frame and the export of every task, and the
symbol, the time frames and the producers of every evaluation. -/
def roster (e : Engine σ α) :
    List (Nat × TimeFrame × Bool) × List (Symbol × List TimeFrame × Bool) :=
  (e.tasks.map fun t => (t.owner, t.timeFrame, t.exports),
    e.evaluations.map fun s => (s.symbol, s.timeFrames, s.publishes))

/-- A change under which everybody stays wired and no read candles are forgotten. -/
structure Grows (e e' : Engine σ α) : Prop where
  roster_eq : e'.roster = e.roster
  counts_le : ∀ symbol t, e.feed.refreshedTimes symbol t ≤ e'.feed.refreshedTimes symbol t

/-- Where nothing changes everybody stays wired. -/
theorem Grows.refl (e : Engine σ α) : e.Grows e := ⟨rfl, fun _ _ => Nat.le_refl _⟩

/-- Two such changes in a row make one. -/
theorem Grows.trans {e e' e'' : Engine σ α} (h : e.Grows e') (h' : e'.Grows e'') :
    e.Grows e'' where
  roster_eq := h'.roster_eq.trans h.roster_eq
  counts_le symbol t := Nat.le_trans (h.counts_le symbol t) (h'.counts_le symbol t)

/-- What was exported. -/
def archive (e : Engine σ α) : Exporter × Folder := (e.exporter, e.folder)

/-- Besides, nothing is exported. -/
structure Spares (e e' : Engine σ α) : Prop extends e.Grows e' where
  archive_eq : e'.archive = e.archive

/-- Nothing is exported in two changes that export nothing. -/
theorem Spares.trans {e e' e'' : Engine σ α} (h : e.Spares e') (h' : e'.Spares e'') :
    e.Spares e'' where
  toGrows := h.toGrows.trans h'.toGrows
  archive_eq := h'.archive_eq.trans h.archive_eq

/-- Neither tasks nor evaluations nor exports are touched. -/
theorem Spares.of_eq {e e' : Engine σ α} (htasks : e'.tasks = e.tasks)
    (hevaluations : e'.evaluations = e.evaluations) (hexporter : e'.exporter = e.exporter)
    (hfolder : e'.folder = e.folder)
    (hcounts : ∀ symbol t, e.feed.refreshedTimes symbol t ≤ e'.feed.refreshedTimes symbol t) :
    e.Spares e' where
  roster_eq := by rw [roster, htasks, hevaluations, roster]
  counts_le := hcounts
  archive_eq := by rw [archive, hexporter, hfolder, archive]

section Reading

variable [Exchange σ α]

/-- Reading candles exports nothing, and counts one more refresh or none. -/
theorem spares_refreshCandles (e : Engine σ α) (symbol : Symbol) (t : TimeFrame) :
    e.Spares (e.refreshCandles symbol t).1 := by
  obtain ⟨hreads, htasks, hevaluations⟩ := e.refreshCandles_spec symbol t
  refine .of_eq htasks hevaluations rfl rfl fun symbol' t' => ?_
  rw [hreads]
  exact Nat.le_add_right _ _

/-- The engine after a tick of its feed. -/
def ticked (e : Engine σ α) : Engine σ α :=
  let done := e.feed.tick e.market e.exchange
  { e with feed := done.2.1.1, market := done.2.1.2, exchange := done.2.2 }

/-- Refreshes of some pairs only ever add to the counts. -/
theorem refreshedTimes_le_refreshPairs (f : CandleFeed) (m : Market α) (ex : σ)
    (k : CandleFeed.Tick α) (pairs : List (Symbol × TimeFrame)) (symbol : Symbol) (t : TimeFrame) :
    f.refreshedTimes symbol t ≤ (f.refreshPairs m ex k pairs).2.1.1.refreshedTimes symbol t := by
  induction pairs generalizing f m ex k with
  | nil => exact Nat.le_refl _
  | cons pair rest ih =>
    rw [CandleFeed.refreshPairs]
    rcases refresh_cases f m ex pair.1 pair.2 with ⟨cause, ex', h⟩ | ⟨last, m', ex', h⟩
    · rw [h]
      exact ih f m ex' _
    · rw [h]
      refine Nat.le_trans ?_ (ih (f.noteRefresh pair.1 pair.2) m' ex' _)
      rw [refreshedTimes_noteRefresh]
      exact Nat.le_add_right _ _

/-- A tick of the feed exports nothing and forgets no candles. -/
theorem spares_ticked (e : Engine σ α) : e.Spares e.ticked := by
  refine .of_eq rfl rfl rfl rfl fun symbol t => ?_
  have hpairs := refreshedTimes_le_refreshPairs e.feed e.market e.exchange {} e.feed.duePairs
    symbol t
  -- that feeds end does not change the counts
  simp only [ticked, CandleFeed.tick]
  rw [CandleFeed.refreshedTimes, CandleFeed.refreshedTimes, counts_endSymbols]
  exact hpairs

/-- What is done with the candles from outside is within these bounds. -/
structure Ticks [Amount α] (R : Engine σ α → Engine σ α → Prop) : Prop where
  ticked : ∀ e, R e e.ticked
  refreshed : ∀ e symbol t, R e (e.refreshCandles symbol t).1
  matched : ∀ e, R e (e.matchAll true).1

/-- What is done with the candles from outside spares the cycles. -/
theorem ticks_spares [Amount α] : Ticks (Spares (σ := σ) (α := α)) where
  ticked := spares_ticked
  refreshed := spares_refreshCandles
  matched _ := .of_eq rfl rfl rfl rfl fun _ _ => Nat.le_refl _

end Reading

end Engine

namespace Session

variable [Amount α] [Written α] [Exchange σ α]

/-- Somebody outside changes the engine in ways that spare the cycles, listens, and calls tasks. -/
def dealings : Dealings Role (Engine σ α) where
  changes := Engine.Spares
  subscribes role := role = .listener
  handles role := ∃ i, role = .cycles i

/-- The one session becomes the other while these messages are posted and these are handled on the
spot, and whatever else somebody outside does is within these bounds. -/
abbrev LeadsWithin (D : Dealings Role (Engine σ α)) (posts : List (Message (Payload α)))
    (calls : List (Role × Message (Payload α))) (s s' : Session σ α) : Prop :=
  Network.Leads Engine.handlers D (posts.map fun m => (m.payload.topic, m)) calls s s'

/-- The one session becomes the other while these messages are posted and tasks are called so. -/
abbrev LeadsCalling (posts : List (Message (Payload α))) (calls : List (Role × Message (Payload α)))
    (s s' : Session σ α) : Prop :=
  Network.Leads Engine.handlers dealings (posts.map fun m => (m.payload.topic, m)) calls s s'

/-- The one session becomes the other while these messages are posted. -/
abbrev Leads (posts : List (Message (Payload α))) (s s' : Session σ α) : Prop :=
  s.LeadsCalling posts [] s'

variable {D : Dealings Role (Engine σ α)}

/-- Messages that are posted on the way to a session and on the way from it are posted on the whole
way. -/
theorem LeadsWithin.next {posts posts' : List (Message (Payload α))} {s s' s'' : Session σ α}
    (h : LeadsWithin D posts [] s s') (h' : LeadsWithin D posts' [] s' s'') :
    LeadsWithin D (posts ++ posts') [] s s'' := by
  rw [LeadsWithin, List.map_append]
  exact h.trans h'

/-! ## Operations -/

/-- A message that is published is posted. -/
theorem leads_publish (s : Session σ α) (m : Message (Payload α)) :
    LeadsWithin D [m] [] s (s.publish m) :=
  Network.Leads.sendAndAwait s m.payload.topic m

/-- Messages are sent together: each is sent and carried on as far as it goes before the next. -/
theorem leads_publishTogether (s : Session σ α) (ms : List (Message (Payload α))) :
    LeadsWithin D ms [] s (s.publishTogether ms) := by
  have hsent : ∀ (s : Session σ α) (tickets : List Ticket), LeadsWithin D ms [] s (ms.foldl
      (fun sent m =>
        let next := Network.send sent.1 m.payload.topic m
        (next.1.drive next.2, sent.2 ++ [next.2]))
      (s, tickets)).1 := by
    induction ms with
    | nil => exact fun s _ => Network.Leads.refl s
    | cons m rest ih =>
      intro s tickets
      have hsend : LeadsWithin D [m] [] s (Network.send s m.payload.topic m).1 := .send s _ m
      have hdriven : Network.Leads Engine.handlers D [] []
          (Network.send s m.payload.topic m).1
          ((Network.send s m.payload.topic m).1.drive (Network.send s m.payload.topic m).2) :=
        .moves fun hI hn => hI.drive hn _
      exact (hsend.trans hdriven).trans (ih _ _)
  unfold publishTogether
  exact (hsent s []).last (.moves fun hI hn => hI.await hn _)

/-- Something happens to the engine. -/
theorem leads_modifyEngine (s : Session σ α) (f : Engine σ α → Engine σ α)
    (hf : ∀ e : Engine σ α, D.changes e (f e)) : LeadsWithin D [] [] s (s.modifyEngine f) :=
  .change s hf

/-- A tick posts the candles that its refreshes brought. -/
theorem leads_tick (hD : Engine.Ticks D.changes) (s : Session σ α) :
    LeadsWithin D ((s.shared.feed.tick s.shared.market s.shared.exchange).1.updates.map
      fun m => ⟨m.key, .candle m.payload⟩) [] s s.tick.1 := by
  have hread := leads_modifyEngine s Engine.ticked hD.ticked
  have hpublished := hread.next (leads_publishTogether (s.modifyEngine Engine.ticked)
    ((s.shared.feed.tick s.shared.market s.shared.exchange).1.updates.map
      fun m => ⟨m.key, .candle m.payload⟩))
  rw [List.nil_append] at hpublished
  unfold tick
  simp only
  split
  · exact hpublished.last (leads_modifyEngine _ (fun e => (e.matchAll true).1) hD.matched)
  · exact hpublished

/-- The message with the latest candle, where there is one. -/
def refreshPost (symbol : Symbol) (t : TimeFrame) :
    Answer (Option (Candle α)) → List (Message (Payload α))
  | .ok (some candle) => [⟨CandleFeed.key (symbol, t), .candle ⟨t, candle⟩⟩]
  | _ => []

/-- A refresh of a pair posts its latest candle if it succeeds and there is one. -/
theorem leads_refreshPair (hD : Engine.Ticks D.changes) (s : Session σ α) (symbol : Symbol)
    (t : TimeFrame) :
    LeadsWithin D (refreshPost symbol t (s.shared.refreshCandles symbol t).2) [] s
      (s.refreshPair symbol t).1 := by
  have hread := leads_modifyEngine s (fun e => (e.refreshCandles symbol t).1)
    fun e => hD.refreshed e symbol t
  simp only [modifyEngine] at hread
  unfold refreshPair
  generalize s.shared.refreshCandles symbol t = answered at hread ⊢
  obtain ⟨e, answer⟩ := answered
  cases answer with
  | error cause => exact hread
  | ok candle =>
    cases candle with
    | none => exact hread
    | some candle => exact hread.next (leads_publish _ _)

/-- The messages with what was answered. -/
def answerPosts (answers : List (Symbol × Answer (Payload α))) : List (Message (Payload α)) :=
  answers.filterMap fun
    | (symbol, .ok payload) => some ⟨{ symbol }, payload⟩
    | (_, .error _) => none

/-- Recording what was answered, and noting that feeds ended, is within the bounds. -/
theorem leads_takeAnswers {poller : Nat} {answers : List (Symbol × Answer (Payload α))}
    (hrecorded : ∀ symbol payload, (symbol, .ok payload) ∈ answers → ∀ e : Engine σ α,
      D.changes e { e with market := e.market.recordPolled symbol payload })
    (hended : ∀ (symbol : Symbol) (e : Engine σ α),
      D.changes e { e with pollers := e.pollers.modify poller (·.endSymbol symbol) })
    (s : Session σ α) :
    LeadsWithin D (answerPosts answers) [] s (takeAnswers poller s answers).1 := by
  induction answers generalizing s with
  | nil => exact Network.Leads.refl s
  | cons answer rest ih =>
    obtain ⟨symbol, answer⟩ := answer
    have hrest := ih fun symbol payload hmem => hrecorded symbol payload (.tail _ hmem)
    cases answer with
    | ok payload =>
      rw [takeAnswers]
      have hrecord := leads_modifyEngine s _ (hrecorded symbol payload List.mem_cons_self)
      exact (hrecord.next (leads_publish _ ⟨{ symbol }, payload⟩)).next (hrest _)
    | error cause =>
      cases cause with
      | feedEnded _ =>
        rw [takeAnswers]
        exact (leads_modifyEngine s _ (hended symbol)).next (hrest _)
      | _ =>
        rw [takeAnswers]
        · exact hrest s
        · simp

/-- The answers that a poller gets when it asks next. -/
def pollAnswers (s : Session σ α) (poller : Nat) : List (Symbol × Answer (Payload α)) :=
  (s.shared.pollers[poller]?).elim [] fun p => (p.poll s.shared.exchange).1

/-- A poll posts what the exchange answered. -/
theorem leads_poll {s : Session σ α} {poller : Nat}
    (hpolled : ∀ (p : Poller) (e : Engine σ α),
      D.changes e { e with exchange := (p.poll (α := α) e.exchange).2 })
    (hrecorded : ∀ symbol payload, (symbol, .ok payload) ∈ s.pollAnswers poller →
      ∀ e : Engine σ α, D.changes e { e with market := e.market.recordPolled symbol payload })
    (hended : ∀ (symbol : Symbol) (e : Engine σ α),
      D.changes e { e with pollers := e.pollers.modify poller (·.endSymbol symbol) }) :
    LeadsWithin D ((s.shared.pollers[poller]?).elim []
      fun p => answerPosts (p.poll s.shared.exchange).1) [] s (s.poll poller).1 := by
  unfold poll
  unfold pollAnswers at hrecorded
  cases hp : s.shared.pollers[poller]? with
  | none => exact Network.Leads.refl s
  | some p =>
    rw [hp] at hrecorded
    have hasked := leads_modifyEngine s (fun e => { e with exchange := (p.poll e.exchange).2 })
      (hpolled p)
    exact hasked.next (leads_takeAnswers hrecorded hended _)

/-- A notification posts a trigger for each time frame. -/
theorem leads_notify (s : Session σ α) (symbol : Symbol) (ts : List TimeFrame)
    (trigger : Trigger) :
    LeadsWithin D (ts.map (Engine.triggerMessage symbol · trigger)) [] s
      (s.notify symbol ts trigger) := by
  induction ts generalizing s with
  | nil => exact Network.Leads.refl s
  | cons t rest ih => exact (leads_publish s (Engine.triggerMessage symbol t trigger)).next (ih _)

/-! ## A cycle from outside -/

/-- A cycle of an outside caller ends after so many messages. -/
abbrev EndsIn (sends : Nat) (outcome : Engine.Outcome σ α) : Prop :=
  Network.EndsIn (Engine.handlers : Handlers Role (Payload α) (Engine σ α) (Stage α)) sends
    outcome.1

/-- The end of a cycle sends nothing more. -/
theorem endsIn_conclude (sends : Nat) (e : Engine σ α) (i : Nat) :
    EndsIn sends (e.conclude i) := by
  unfold EndsIn
  obtain ⟨failure, hdone⟩ := (e.conclude_spec i).done
  rw [hdone]
  cases sends <;> trivial

/-- Handing on the verdicts takes one message. -/
theorem endsIn_handOnVerdicts (sends : Nat) (e : Engine σ α) (i : Nat) (trigger : Trigger) :
    EndsIn (sends + 1) (e.handOnVerdicts i trigger) := by
  rcases e.handOnVerdicts_cases i trigger with ⟨m, hsend⟩ | hconclude
  · rw [hsend]
    exact fun e => endsIn_conclude sends e i
  · rw [hconclude]
    exact endsIn_conclude _ e i

/-- A cycle sends two messages at most: the matrix, and the verdicts. -/
theorem endsIn_beginCycle (e : Engine σ α) (i : Nat) (trigger : Trigger) :
    EndsIn 2 (e.beginCycle i trigger) := by
  have hbegin := e.beginCycle_spec i trigger
  generalize e.beginCycle i trigger = outcome at hbegin ⊢
  generalize e.forced i trigger = read at hbegin
  cases hbegin with
  | dropped => trivial
  | accepted _ _ _ _ houtcome =>
    rcases houtcome with ⟨m, rfl⟩ | rfl
    · exact fun e => endsIn_handOnVerdicts 0 e i trigger
    · exact endsIn_handOnVerdicts 1 _ i trigger

/-- A trigger that somebody outside hands to a task. -/
def call (i : Nat) (trigger : Trigger) : Role × Message (Payload α) :=
  (.cycles i, ⟨{ symbol := Symbol.wildcard }, .trigger trigger⟩)

/-- A trigger that is handed to a task is handled on the spot. -/
theorem leads_process (s : Session σ α) {i : Nat} (hcalls : D.handles (.cycles i))
    (trigger : Trigger) :
    LeadsWithin D [] [call i trigger] s (s.process i trigger).1 := by
  rw [process_eq]
  exact Network.Leads.handle 2 s hcalls _ (endsIn_beginCycle s.shared i trigger)

/-! ## Whatever happens -/

/-- The messages that an event posts. -/
def posts (s : Session σ α) : SessionEvent σ α → List (Message (Payload α))
  | .tick => (s.shared.feed.tick s.shared.market s.shared.exchange).1.updates.map
      fun m => ⟨m.key, .candle m.payload⟩
  | .poll poller => (s.shared.pollers[poller]?).elim []
      fun p => answerPosts (p.poll s.shared.exchange).1
  | .notify symbol ts trigger => ts.map (Engine.triggerMessage symbol · trigger)
  | .notifyTask i trigger => ((s.shared.tasks[i]?).bind fun t => (s.shared.ownerOf? t).map
      fun owner => Engine.triggerMessage owner.symbol t.timeFrame trigger).toList
  | .interrupt symbol source =>
    ((s.shared.evaluation? symbol).elim s.shared.feed.timeFrames (·.timeFrames)).map
      (Engine.triggerMessage symbol · { source, interruption := true })
  | .refreshPair symbol t => refreshPost symbol t (s.shared.refreshCandles symbol t).2
  | .send m => [m]
  | .process .. | .listen .. | .change .. | .turn _ => []

omit [Amount α] [Written α] [Exchange σ α] in
/-- The triggers that an event hands to tasks on the spot. -/
def calls : SessionEvent σ α → List (Role × Message (Payload α))
  | .process i trigger => [call i trigger]
  | _ => []

end Session

/-- What happens to the engine from outside spares the cycles, and nobody but the cycles hands on
matrices and verdicts. -/
def SessionEvent.Proper : SessionEvent σ α → Prop
  | .change f _ => ∀ e : Engine σ α, e.Spares (f e)
  | .send m => m.payload.topic ≠ .strategy ∧ m.payload.topic ≠ .tradingMode
  | _ => True

namespace Session

variable [Amount α] [Written α] [Exchange σ α]

variable {D : Dealings Role (Engine σ α)}

/-- A notification of a task posts one trigger, if there is such a task. -/
theorem leads_notifyTask (s : Session σ α) (i : Nat) (trigger : Trigger) :
    LeadsWithin D (s.posts (.notifyTask i trigger)) [] s (s.notifyTask i trigger) := by
  simp only [posts, notifyTask]
  cases s.shared.tasks[i]? with
  | none => exact Network.Leads.refl s
  | some t =>
    simp only [Option.bind_some]
    cases s.shared.ownerOf? t with
    | none => exact Network.Leads.refl s
    | some owner => exact leads_notify s owner.symbol [t.timeFrame] trigger

/-- Whatever happens within the bounds. Polls are up to whoever asks for this. -/
theorem leads_happen_within (hD : Engine.Ticks D.changes) (hlistens : D.subscribes .listener)
    (hcalls : ∀ i, D.handles (.cycles i)) (s : Session σ α) {event : SessionEvent σ α}
    (hpoll : ∀ poller, event = .poll poller →
      LeadsWithin D (s.posts (.poll poller)) [] s (s.poll poller).1)
    (hchange : ∀ f hf, event = .change f hf → ∀ e : Engine σ α, D.changes e (f e)) :
    LeadsWithin D (s.posts event) (calls event) s (s.happen event) := by
  cases event with
  | tick => exact leads_tick hD s
  | poll poller => exact hpoll poller rfl
  | notify symbol ts trigger => exact leads_notify s symbol ts trigger
  | notifyTask i trigger => exact leads_notifyTask s i trigger
  | interrupt symbol source => exact leads_notify s symbol _ _
  | process i trigger => exact leads_process s (hcalls i) trigger
  | refreshPair symbol t => exact leads_refreshPair hD s symbol t
  | listen topic subscription => exact Network.Leads.subscribe s topic hlistens subscription
  | send m =>
    have hsend : LeadsWithin D [m] [] s (Network.send s m.payload.topic m).1 := .send s _ m
    have hlined : ∀ (n : Session σ α) (a : Actor), LeadsWithin D [] [] n (Network.enqueue n a) := by
      intro n a
      unfold Network.enqueue
      split
      · exact Network.Leads.refl n
      · exact Network.Leads.line n _ n.awaited
    exact hsend.last (hlined _ _)
  | change f hf => exact leads_modifyEngine s f (hchange f hf rfl)
  | turn place =>
    refine Network.Leads.moves fun hI hn => hI.step ?_
    rw [Network.prefer_eq]
    exact hI.line hn _ _

/-- Every proper event posts its messages, hands over its triggers, and spares the cycles besides.
-/
theorem leads_happen (s : Session σ α) {event : SessionEvent σ α} (hproper : event.Proper) :
    s.LeadsCalling (s.posts event) (calls event) (s.happen event) := by
  have hticks : Engine.Ticks (dealings : Dealings Role (Engine σ α)).changes := Engine.ticks_spares
  refine leads_happen_within hticks rfl (fun i => ⟨i, rfl⟩) s (fun poller _ => ?_) ?_
  · have hspares : ∀ f : Engine σ α → Engine σ α,
        (∀ e : Engine σ α, (f e).tasks = e.tasks ∧ (f e).evaluations = e.evaluations ∧
          (f e).exporter = e.exporter ∧ (f e).folder = e.folder ∧ (f e).feed = e.feed) →
        ∀ e : Engine σ α, e.Spares (f e) := fun f hf e => by
      obtain ⟨htasks, hevaluations, hexporter, hfolder, hfeed⟩ := hf e
      exact .of_eq htasks hevaluations hexporter hfolder fun _ _ => by rw [hfeed]
    exact leads_poll (fun p => hspares _ fun _ => ⟨rfl, rfl, rfl, rfl, rfl⟩)
      (fun _ _ _ => hspares _ fun _ => ⟨rfl, rfl, rfl, rfl, rfl⟩)
      (fun _ => hspares _ fun _ => ⟨rfl, rfl, rfl, rfl, rfl⟩)
  · rintro f hf rfl
    exact hproper

/-- The messages that events post, one after the other. -/
def allPosts (s : Session σ α) : List (SessionEvent σ α) → List (Message (Payload α))
  | [] => []
  | event :: rest => s.posts event ++ (s.happen event).allPosts rest

/-- Events each of which stays within the bounds, whatever session it finds. -/
theorem leads_after_within {events : List (SessionEvent σ α)}
    (h : ∀ (s : Session σ α), ∀ event ∈ events,
      LeadsWithin D (s.posts event) (calls event) s (s.happen event)) (s : Session σ α) :
    LeadsWithin D (s.allPosts events) (events.flatMap calls) s (s.after events) := by
  induction events generalizing s with
  | nil => exact Network.Leads.refl s
  | cons event rest ih =>
    have hfirst := h s event List.mem_cons_self
    have hnext := ih (fun s e he => h s e (List.mem_cons_of_mem _ he)) (s.happen event)
    rw [LeadsWithin, allPosts, List.map_append, List.flatMap_cons]
    exact hfirst.trans hnext

/-- Through any proper events, what is posted is what the events post, one after the other. -/
theorem leads_after (s : Session σ α) {events : List (SessionEvent σ α)}
    (hproper : ∀ event ∈ events, event.Proper) :
    s.LeadsCalling (s.allPosts events) (events.flatMap calls) (s.after events) :=
  leads_after_within (fun s event hevent => leads_happen s (hproper event hevent)) s

/-! ## What is posted -/

omit [Amount α] [Written α] in
/-- An answer is about what was asked for. -/
theorem topic_fetchAll {source : PollSource} {ex : σ} {symbols : List Symbol} {symbol : Symbol}
    {payload : Payload α} (h : (symbol, .ok payload) ∈ (Poller.fetchAll source ex symbols).1) :
    payload.topic = source.topic := by
  induction symbols generalizing ex with
  | nil => simp [Poller.fetchAll] at h
  | cons first rest ih =>
    rw [Poller.fetchAll] at h
    rcases List.mem_cons.1 h with hfirst | hrest
    · have hmap : ∀ {β : Type} {f : β → Payload α} {answer : Answer β},
          .ok payload = answer.map f → (∀ x, (f x).topic = source.topic) →
          payload.topic = source.topic := by
        intro β f answer hanswer hf
        cases answer with
        | error cause => cases hanswer
        | ok x =>
          cases hanswer
          exact hf x
      have hanswer := (Prod.mk.inj hfirst).2
      cases source <;> exact hmap hanswer fun _ => rfl
    · exact ih hrest

omit [Amount α] [Written α] in
/-- A poll posts its answers. -/
theorem posts_poll (s : Session σ α) (poller : Nat) :
    s.posts (.poll poller) = answerPosts (s.pollAnswers poller) := by
  rw [posts, pollAnswers]
  cases s.shared.pollers[poller]? <;> rfl

omit [Amount α] [Written α] in
/-- What a poller is answered is about its source. -/
theorem topic_pollAnswers {s : Session σ α} {poller : Nat} {symbol : Symbol} {payload : Payload α}
    (h : (symbol, .ok payload) ∈ s.pollAnswers poller) :
    ∃ p, s.shared.pollers[poller]? = some p ∧ payload.topic = p.source.topic := by
  unfold pollAnswers at h
  cases hp : s.shared.pollers[poller]? with
  | none => simp [hp] at h
  | some p =>
    rw [hp] at h
    exact ⟨p, rfl, topic_fetchAll h⟩

omit [Exchange σ α] [Amount α] [Written α] in
/-- A message with an answer carries what was answered for some symbol. -/
theorem exists_of_mem_answerPosts {answers : List (Symbol × Answer (Payload α))}
    {m : Message (Payload α)} (hm : m ∈ answerPosts answers) :
    ∃ symbol, (symbol, .ok m.payload) ∈ answers := by
  obtain ⟨⟨symbol, answer⟩, hanswer, heq⟩ := List.mem_filterMap.1 hm
  cases answer with
  | error cause => simp at heq
  | ok payload =>
    obtain rfl := Option.some.inj heq
    exact ⟨symbol, hanswer⟩

omit [Amount α] [Written α] in
/-- Apart from what is polled and sent, candles and triggers are posted. -/
theorem topic_posts_of_ne (s : Session σ α) {event : SessionEvent σ α}
    (hpoll : ∀ poller, event ≠ .poll poller) (hsend : ∀ m, event ≠ .send m)
    {m : Message (Payload α)} (hm : m ∈ s.posts event) :
    m.payload.topic = .candles ∨ m.payload.topic = .evaluation := by
  cases event with
  | tick =>
    obtain ⟨update, -, rfl⟩ := List.mem_map.1 hm
    exact .inl rfl
  | poll poller => exact absurd rfl (hpoll poller)
  | notify symbol ts trigger =>
    obtain ⟨t, -, rfl⟩ := List.mem_map.1 hm
    exact .inr rfl
  | notifyTask i trigger =>
    obtain ⟨t, -, hm⟩ := Option.bind_eq_some_iff.1 (Option.mem_toList.1 hm)
    obtain ⟨owner, -, rfl⟩ := Option.map_eq_some_iff.1 hm
    exact .inr rfl
  | interrupt symbol source =>
    obtain ⟨t, -, rfl⟩ := List.mem_map.1 hm
    exact .inr rfl
  | refreshPair symbol t =>
    simp only [posts, refreshPost] at hm
    split at hm
    · rw [List.mem_singleton.1 hm]
      exact .inl rfl
    · exact absurd hm List.not_mem_nil
  | send m' => exact absurd rfl (hsend m')
  | _ => exact absurd hm List.not_mem_nil

omit [Amount α] [Written α] in
/-- Nobody but the cycles hands on matrices and verdicts. -/
theorem topic_posts (s : Session σ α) {event : SessionEvent σ α} (hproper : event.Proper)
    {m : Message (Payload α)} (hm : m ∈ s.posts event) :
    m.payload.topic ≠ .strategy ∧ m.payload.topic ≠ .tradingMode := by
  have hother (hpoll : ∀ poller, event ≠ .poll poller) (hsend : ∀ m, event ≠ .send m) :
      m.payload.topic ≠ .strategy ∧ m.payload.topic ≠ .tradingMode := by
    rcases s.topic_posts_of_ne hpoll hsend hm with htopic | htopic <;> simp [htopic]
  cases event with
  | poll poller =>
    rw [posts_poll] at hm
    obtain ⟨symbol, hanswer⟩ := exists_of_mem_answerPosts hm
    obtain ⟨p, -, htopic⟩ := topic_pollAnswers hanswer
    rw [htopic]
    cases p.source <;> exact ⟨nofun, nofun⟩
  | send m' =>
    rw [List.mem_singleton.1 hm]
    exact hproper
  | _ => exact hother (by simp) (by simp)

/-- No proper event posts a matrix or a verdict. -/
theorem topic_allPosts {s : Session σ α} {events : List (SessionEvent σ α)}
    (hproper : ∀ event ∈ events, event.Proper) {m : Message (Payload α)}
    (hm : m ∈ s.allPosts events) :
    m.payload.topic ≠ .strategy ∧ m.payload.topic ≠ .tradingMode := by
  induction events generalizing s with
  | nil => exact absurd hm List.not_mem_nil
  | cons event rest ih =>
    rcases List.mem_append.1 hm with hfirst | hrest
    · exact topic_posts s (hproper event List.mem_cons_self) hfirst
    · exact ih (fun e he => hproper e (List.mem_cons_of_mem _ he)) hrest

end Session

end MarketEngine
