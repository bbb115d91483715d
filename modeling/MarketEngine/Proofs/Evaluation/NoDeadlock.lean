import MarketEngine.Exchange.Scripted
import MarketEngine.Proofs.Channel.Completion
import MarketEngine.Proofs.Evaluation.Building
import MarketEngine.Proofs.Evaluation.Cascade
import MarketEngine.Proofs.Exact
/-!
# Sessions do not deadlock

Whatever is done with a session from outside and whoever goes first inside, its consumers come to
rest after as many turns as there is work, and at rest nothing is left to do: all queues are empty
and all sends are completed (`Session.no_deadlock`). It does not matter how small the queues are.
-/

namespace MarketEngine

variable {σ α : Type}

/-- What can happen to a session. Whoever waits until a message is sent lets the consumers work
meanwhile. An operation that others interrupt is a change, sends in the background and turns, each
an event of its own. -/
inductive SessionEvent (σ α : Type) where
  | tick
  | poll (poller : Nat)
  | notify (symbol : Symbol) (ts : List TimeFrame) (trigger : Trigger)
  | notifyTask (i : Nat) (trigger : Trigger)
  | interrupt (symbol : Symbol) (source : String)
  | process (i : Nat) (trigger : Trigger)
  | refreshPair (symbol : Symbol) (t : TimeFrame)
  /-- Somebody listens to a channel. -/
  | listen (topic : Topic) (subscription : Subscription)
  /-- A message is sent in the background. -/
  | send (m : Message (Payload α))
  /-- Something happens to the engine after which still nobody holds an order. -/
  | change (f : Engine σ α → Engine σ α)
    (hf : ∀ e : Engine σ α, e.desk.orders.isFree = true → (f e).desk.orders.isFree = true)
  /-- The activity at this place in line takes a step. -/
  | turn (place : Nat)

namespace Session

/-- A session at its beginning: wired part by part where nobody holds an order, or built from
settings. -/
inductive World [Amount α] : Session σ α → Prop
  | wired (w : Wiring σ α) (hfree : w.engine.desk.orders.isFree = true) : World (wire w)
  | built {settings : Settings α} {plan : Plan α} {exchange : σ} {exporter : Exporter}
    {folder : Folder} {s : Session σ α} (h : build settings plan exchange exporter folder = .ok s) :
    World s

/-- Nobody who can go on is forgotten, and nobody outside waits for a send. -/
abbrev Flowing (s : Session σ α) : Prop := Network.Flows Engine.cascade [] s

/-! ## At the beginning -/

/-- Where nothing was sent yet everybody can go on who has something to do, which is nobody. -/
theorem flowing_fresh {e : Engine σ α} (he : e.desk.orders.isFree = true)
    (queueSize tradeFilterSize : Nat) :
    Flowing { shared := e, channels := freshChannels queueSize tradeFilterSize } := by
  obtain ⟨s, hs⟩ : ∃ s : Session σ α,
    s = { shared := e, channels := freshChannels queueSize tradeFilterSize } := ⟨_, rfl⟩
  -- all channels are empty, and differ in nothing but the size of their filters
  have hchannel : ∀ topic, ∃ filterSize, Network.channel? s topic
      = some (Channel.withProducer (.empty queueSize filterSize)) := by
    intro topic
    rw [hs]
    cases topic <;> exact ⟨_, rfl⟩
  have hempty : ∀ topic, ∃ filterSize, Network.channelAt s topic
      = Channel.withProducer (.empty queueSize filterSize) := by
    intro topic
    obtain ⟨filterSize, htopic⟩ := hchannel topic
    exact ⟨filterSize, by rw [Network.channelAt, htopic, Option.getD_some]⟩
  have hpending : s.pending = [] := by rw [hs]
  have hready : s.ready = [] := by rw [hs]
  rw [← hs]
  refine ⟨⟨by rw [hs]; exact he, fun topic => ?_, fun topic => ?_, fun topic => ?_, fun topic => ?_,
    by simp [Network.Orderly, hpending], by simp [hpending], by simp [hpending], by simp [hready],
    List.forall_mem_nil _, by simp [hs], fun topic w hw => ?_⟩, fun a => ?_⟩
  · obtain ⟨filterSize, htopic⟩ := hchannel topic
    rw [Network.channelAt, htopic, Option.getD_some]
  · obtain ⟨filterSize, htopic⟩ := hempty topic
    rw [htopic]
    exact Channel.smooth_withProducer queueSize filterSize
  · obtain ⟨filterSize, htopic⟩ := hempty topic
    rw [htopic]
    rfl
  · obtain ⟨filterSize, htopic⟩ := hempty topic
    rw [htopic]
    exact List.forall_mem_nil _
  · obtain ⟨filterSize, htopic⟩ := hempty topic
    rw [htopic] at hw
    cases w with
    | consumer i =>
      obtain ⟨k, hk, -⟩ := hw
      simp [Channel.withProducer, Channel.empty] at hk
    | delivery d => exact absurd hw.1.1 (Nat.not_lt_zero d)
  · obtain ⟨filterSize, htopic⟩ := hempty a.topic
    rw [htopic]
    simp [Channel.holds, Channel.withProducer, Channel.empty, hpending]

/-- What each step keeps, all steps keep. -/
theorem flowing_foldl {β : Type} {f : Session σ α → β → Session σ α} {s : Session σ α}
    (h : s.Flowing) (hf : ∀ {s : Session σ α}, s.Flowing → ∀ b, (f s b).Flowing) (bs : List β) :
    (bs.foldl f s).Flowing := by
  induction bs generalizing s with
  | nil => exact h
  | cons b rest ih => exact ih (hf h b)

/-- The wiring of tasks has nothing to do with orders. -/
theorem isFree_wireTasks {e : Engine σ α} (he : e.desk.orders.isFree = true)
    (tasks : List TaskWiring) : (tasks.foldl wireTask e).desk.orders.isFree = true := by
  induction tasks generalizing e with
  | nil => exact he
  | cons w rest ih =>
    refine ih ?_
    unfold wireTask
    split
    · exact he
    · exact he

/-- A new engine has no orders that anybody could hold. -/
theorem isFree_engine (settings : Settings α) (plan : Plan α) (exchange : σ) (exporter : Exporter)
    (folder : Folder) :
    (engine settings plan exchange exporter folder).desk.orders.isFree = true := by
  have hsymbol : ∀ (e : Engine σ α) (symbol : Symbol),
      (addSymbol settings plan e symbol).desk = e.desk := by
    intro e symbol
    exact List.foldlRecOn (motive := fun e' : Engine σ α => e'.desk = e.desk) settings.timeFrames _
      rfl fun _ he' _ _ => he'
  unfold engine
  refine List.foldlRecOn (motive := fun e : Engine σ α => e.desk.orders.isFree = true)
    settings.symbols _ rfl fun e he symbol _ => ?_
  rw [hsymbol]
  exact he

/-- A session begins with fresh channels while nobody holds an order, and then consumers subscribe
where they belong. -/
theorem World.induction [Amount α] {P : Session σ α → Prop}
    (hfresh : ∀ {e : Engine σ α}, e.desk.orders.isFree = true → ∀ queueSize tradeFilterSize,
      P { shared := e, channels := freshChannels queueSize tradeFilterSize })
    (hsubscribe : ∀ {s : Session σ α}, P s → ∀ (topic : Topic) (role : Role),
      (Engine.cascade : Cascade Role (Engine σ α) (Stage α)).placed topic role →
      ∀ subscription, P (Network.subscribe s topic role subscription))
    {s : Session σ α} (h : World s) : P s := by
  have htrader : ∀ {s : Session σ α}, P s → ∀ trader, P (followTrader s trader) :=
    fun hs trader =>
      hsubscribe (hsubscribe hs .orders (.openOrders trader) rfl {}) .balance .balances rfl {}
  have htrades : ∀ {s : Session σ α}, P s → P (followTrades s) :=
    fun hs => hsubscribe hs .recentTrade .matcher rfl _
  have htasks : ∀ {s : Session σ α}, P s → ∀ tasks : List Nat, P (tasks.foldl followTask s) := by
    intro s hs tasks
    refine List.foldlRecOn (motive := P) tasks _ hs fun s hs i _ => ?_
    unfold followTask
    simp only
    split
    · exact hs
    · exact hsubscribe (hsubscribe hs .evaluation (.cycles i) rfl _) .candles (.refreshes i) rfl _
  cases h with
  -- traders, matcher and tasks subscribe in this order, and in a built session the matcher first
  | wired w hfree =>
    have htraders : ∀ traders : List Nat, P (traders.foldl followTrader
        { shared := w.tasks.foldl wireTask w.engine
          channels := freshChannels w.queueSize w.tradeFilterSize }) := fun traders =>
      List.foldlRecOn (motive := P) traders _ (hfresh (isFree_wireTasks hfree w.tasks) _ _)
        fun s hs trader _ => htrader hs trader
    unfold wire
    simp only
    refine htasks ?_ _
    split
    · exact htrades (htraders _)
    · exact htraders _
  | @built settings plan exchange exporter folder s h =>
    obtain ⟨-, rfl⟩ := build_eq_ok_iff.1 h
    exact htasks (htrader (htrades (hfresh (isFree_engine settings plan exchange exporter folder)
      _ _)) 0) _

/-- Every session flows at its beginning. -/
theorem World.flowing [Amount α] {s : Session σ α} (h : World s) : s.Flowing :=
  h.induction (fun he => flowing_fresh he) fun hs topic role hplaced subscription =>
    hs.subscribe topic role subscription hplaced

/-! ## Operations -/

variable [Amount α] [Written α] [Exchange σ α]

section Operations

variable {s : Session σ α}

/-- The session flows on when a message is published. -/
theorem flowing_publish (h : s.Flowing) (m : Message (Payload α)) : (s.publish m).Flowing :=
  h.sendAndAwait Engine.governs _ m

/-- The next of several messages is sent, and carried on as far as it goes. -/
theorem flows_sendNext {tickets : List Ticket} (h : Network.Flows Engine.cascade tickets s)
    (m : Message (Payload α)) :
    let sent := Network.send s m.payload.topic m
    Network.Flows Engine.cascade (tickets ++ [sent.2]) (sent.1.drive sent.2) := by
  intro sent
  have hsent := h.toLive.send (h := Engine.handlers) m.payload.topic m
  have hnext : Network.Flows Engine.cascade (sent.2 :: tickets) sent.1 :=
    ⟨hsent.live, hsent.engaged h.engaged⟩
  obtain ⟨hdriven, -⟩ := hnext.drive Engine.handlers List.mem_cons_self
  have hsame : ∀ t, t ∈ sent.2 :: tickets ↔ t ∈ tickets ++ [sent.2] := by
    intro t
    rw [List.mem_append, List.mem_singleton, List.mem_cons, or_comm]
  exact hdriven.flows.of_mem_iff hsame

/-- Messages are sent together: each is sent and carried on as far as it goes before the next. -/
theorem flowing_publishTogether (h : s.Flowing) (ms : List (Message (Payload α))) :
    (s.publishTogether ms).Flowing := by
  refine Network.Flows.await Engine.governs (List.foldlRecOn
    (motive := fun sent : Session σ α × List Ticket =>
      Network.Flows Engine.cascade sent.2 sent.1) ms _ h ?_)
  exact fun _ hsent m _ => flows_sendNext hsent m

omit [Amount α] [Written α] [Exchange σ α] in
/-- The engine changes, and the desk does not. -/
theorem flowing_shared (h : s.Flowing) {e : Engine σ α} (he : e.desk = s.shared.desk) :
    Flowing { s with shared := e } := by
  refine h.with_shared ?_
  show e.desk.orders.isFree = true
  rw [he]
  exact h.fits

/-- The session flows on when the feed ticks. -/
theorem flowing_tick (h : s.Flowing) : s.tick.1.Flowing := by
  rcases hticked : s.shared.feed.tick s.shared.market s.shared.exchange with
    ⟨k, ⟨feed, market⟩, exchange⟩
  have hread : Flowing { s with shared := { s.shared with feed, market, exchange } } :=
    flowing_shared h rfl
  have hpublished := flowing_publishTogether hread
    (k.updates.map fun m => ⟨m.key, .candle m.payload⟩)
  simp only [tick, hticked]
  generalize publishTogether { s with shared := { s.shared with feed, market, exchange } }
    (k.updates.map fun m => ⟨m.key, .candle m.payload⟩) = published at hpublished ⊢
  split
  · -- a replay, whose orders are matched
    refine hpublished.with_shared ?_
    show (published.shared.desk.matchAll _ _ true).1.1.orders.isFree = true
    exact Desk.isFree_matchSymbols hpublished.fits _ _ true _
  · exact hpublished

/-- The session flows on when the candles of a pair are read. -/
theorem flowing_refreshPair (h : s.Flowing) (symbol : Symbol) (t : TimeFrame) :
    (s.refreshPair symbol t).1.Flowing := by
  have hdesk : (s.shared.refreshCandles symbol t).1.desk = s.shared.desk := rfl
  unfold refreshPair
  generalize s.shared.refreshCandles symbol t = answered at hdesk ⊢
  obtain ⟨e, answer⟩ := answered
  have hread : Flowing { s with shared := e } := flowing_shared h hdesk
  cases answer with
  | error cause => exact hread
  | ok candle =>
    cases candle with
    | none => exact hread
    | some candle => exact flowing_publish hread _

/-- The session flows on when answers to a poll are taken in, one publication after the other. -/
theorem flowing_takeAnswers (h : s.Flowing) (poller : Nat)
    (answers : List (Symbol × Answer (Payload α))) : (takeAnswers poller s answers).1.Flowing := by
  induction answers generalizing s with
  | nil => exact h
  | cons answer rest ih =>
    obtain ⟨symbol, answer⟩ := answer
    have hmodified : ∀ f : Engine σ α → Engine σ α, (f s.shared).desk = s.shared.desk →
        (s.modifyEngine f).Flowing := fun f hf => flowing_shared h hf
    cases answer with
    | ok payload =>
      rw [takeAnswers]
      exact ih (flowing_publish (hmodified _ rfl) _)
    | error cause =>
      cases cause with
      | feedEnded _ =>
        rw [takeAnswers]
        exact ih (hmodified _ rfl)
      | _ =>
        rw [takeAnswers]
        · exact ih h
        · simp

/-- The session flows on when somebody polls. -/
theorem flowing_poll (h : s.Flowing) (poller : Nat) : (s.poll poller).1.Flowing := by
  unfold poll
  split
  · exact h
  · next p _ =>
    rcases p.poll s.shared.exchange with ⟨answers, exchange⟩
    have hasked : Flowing { s with shared := { s.shared with exchange } } := flowing_shared h rfl
    exact flowing_takeAnswers hasked poller answers

/-- The session flows on when triggers are sent for several time frames. -/
theorem flowing_notify (h : s.Flowing) (symbol : Symbol) (ts : List TimeFrame) (trigger : Trigger) :
    (s.notify symbol ts trigger).Flowing :=
  flowing_foldl h (fun hs _ => flowing_publish hs _) ts

/-- The session flows on when a task is notified. -/
theorem flowing_notifyTask (h : s.Flowing) (i : Nat) (trigger : Trigger) :
    (s.notifyTask i trigger).Flowing := by
  unfold notifyTask
  split
  · exact h
  · next t _ =>
    cases s.shared.ownerOf? t with
    | none => exact h
    | some owner => exact flowing_notify h _ _ trigger

/-- The session flows on when a task is called from outside. -/
theorem flowing_process (h : s.Flowing) (i : Nat) (trigger : Trigger) :
    (s.process i trigger).1.Flowing := by
  have hbegin : Engine.cascade.Descends Engine.handlers (Network.population s) .evaluation _
      (s.shared.beginCycle i trigger) := Engine.descends_beginCycle h.fits i trigger
  have hhandled := h.handle Engine.governs 2 hbegin
  unfold process
  simp only
  split
  · next s' hs' =>
    rw [hs'] at hhandled
    exact hhandled
  · next s' failure hs' =>
    rw [hs'] at hhandled
    exact hhandled

end Operations

/-! ## Whatever happens -/

/-- What an event comes to. -/
def happen (s : Session σ α) : SessionEvent σ α → Session σ α
  | .tick => s.tick.1
  | .poll poller => (s.poll poller).1
  | .notify symbol ts trigger => s.notify symbol ts trigger
  | .notifyTask i trigger => s.notifyTask i trigger
  | .interrupt symbol source => s.interrupt symbol source
  | .process i trigger => (s.process i trigger).1
  | .refreshPair symbol t => (s.refreshPair symbol t).1
  | .listen topic subscription => Network.subscribe s topic .listener subscription
  | .send m =>
    let (s, t) := Network.send s m.payload.topic m
    s.enqueue (.sender t)
  | .change f _ => s.modifyEngine f
  | .turn place => (Network.prefer s place).step Engine.handlers

/-- The session after some events. -/
def after (s : Session σ α) (events : List (SessionEvent σ α)) : Session σ α :=
  events.foldl happen s

/-- The session flows on whatever happens. -/
theorem flowing_happen {s : Session σ α} (h : s.Flowing) (event : SessionEvent σ α) :
    (s.happen event).Flowing := by
  cases event with
  | tick => exact flowing_tick h
  | poll poller => exact flowing_poll h poller
  | notify symbol ts trigger => exact flowing_notify h symbol ts trigger
  | notifyTask i trigger => exact flowing_notifyTask h i trigger
  | interrupt symbol source => exact flowing_notify h symbol _ _
  | process i trigger => exact flowing_process h i trigger
  | refreshPair symbol t => exact flowing_refreshPair h symbol t
  | listen topic subscription => exact h.subscribe topic .listener subscription trivial
  | send m => exact h.spawn Engine.handlers m.payload.topic m
  | change f hf => exact h.with_shared (hf s.shared h.fits)
  | turn place => exact (h.turns Engine.governs [place]).1

/-- In every state of every run nobody who can go on is forgotten. -/
theorem World.flowing_after {s₀ : Session σ α} (h : World s₀) (events : List (SessionEvent σ α)) :
    (s₀.after events).Flowing :=
  flowing_foldl h.flowing flowing_happen events

/-- Turns are events like others. -/
theorem after_turns (s : Session σ α) (places : List Nat) :
    s.after (places.map .turn) = Network.turns Engine.handlers s places := by
  rw [after, List.foldl_map]
  rfl

/-- Take any session, wired part by part while nobody holds an order or built from settings, with
queues of any size, and let anything happen to it: ticks, polls, notifications, interruptions,
forced refreshes, other messages, and turns of whoever stands in line, in any order. Then, whoever
goes first at each turn, after as many turns as there is work nobody can go on, and whenever nobody
can go on, no consumer is in the midst of a message, every send is completed, and on every channel
every queue is empty and no send waits for a place. -/
theorem no_deadlock {s₀ : Session σ α} (hworld : World s₀) (events : List (SessionEvent σ α)) :
    let s := s₀.after events
    (∀ places : List Nat, Network.work Engine.handlers s ≤ places.length →
      (Network.turns Engine.handlers s places).ready = [] ∧
        (Network.turns Engine.handlers s places).Drained) ∧
    (s.ready = [] → Network.Drained s) := by
  intro s
  have hflowing : s.Flowing := flowing_foldl hworld.flowing flowing_happen events
  refine ⟨fun places hplaces => ?_, fun hready => hflowing.drained hready (List.forall_mem_nil _)⟩
  obtain ⟨hturns, hrest⟩ := hflowing.turns Engine.governs places
  have hready := hrest hplaces
  exact ⟨hready, hturns.drained hready (List.forall_mem_nil _)⟩

/-! ## A crowd -/

/-- A task that refreshes its candles when told to, with queues for one message each. -/
def crowdedWiring : Wiring (ScriptedExchange ℚ) ℚ where
  engine :=
    { exchangeName := "sim"
      exchange := ({} : ScriptedExchange ℚ).queueCandles "BTC/USDT" .oneHour
        [⟨0, 1, 1, 1, 1, 1⟩, ⟨3600000, 2, 2, 2, 2, 1⟩]
      market := ⟨10, 10, []⟩
      feed := ⟨["BTC/USDT"], [.oneHour], 10, false, [], [], []⟩
      desk := ⟨.empty 1, ⟨[]⟩, ⟨0, 0⟩, 10, []⟩
      evaluations := [{ symbol := "BTC/USDT", timeFrames := [.oneHour], strategies := [] }]
      exporter := { place := "" } }
  tasks := [⟨"BTC/USDT", .oneHour, [], none, true, false⟩]
  queueSize := 1
  tradeFilterSize := 1
  tradersFollow := false
  matcherFollows := false
  tasksFollow := true

/-- Candles are refreshed, and then triggers are sent that nobody waits for. -/
def crowdedEvents : List (SessionEvent (ScriptedExchange ℚ) ℚ) :=
  .listen .strategy {} :: .refreshPair "BTC/USDT" .oneHour :: List.replicate 3
    (.send (Engine.triggerMessage "BTC/USDT" .oneHour { source := "manual", forceRefresh := true }))

/-- Three triggers crowd a queue for one message, and six activities stand in line. After a hundred
turns, in each of which the second in line goes first, nothing is left to do. -/
theorem no_deadlock_crowded :
    ((wire crowdedWiring).after crowdedEvents).ready.length = 6 ∧
      ((wire crowdedWiring).after (crowdedEvents ++ List.replicate 100 (.turn 1))).Drained := by
  have hworld : World (wire crowdedWiring) := .wired crowdedWiring rfl
  have hturns : (wire crowdedWiring).after (crowdedEvents ++ List.replicate 100 (.turn 1))
      = Network.turns Engine.handlers ((wire crowdedWiring).after crowdedEvents)
          (List.replicate 100 1) := by
    rw [after, List.foldl_append, ← List.map_replicate, List.foldl_map]
    rfl
  obtain ⟨hrest, -⟩ := no_deadlock hworld crowdedEvents
  obtain ⟨hready, -⟩ := hrest (List.replicate 100 1) (by decide +kernel)
  obtain ⟨-, hdrained⟩ := no_deadlock hworld (crowdedEvents ++ List.replicate 100 (.turn 1))
  exact ⟨by decide +kernel, hdrained (hturns ▸ hready)⟩

end Session

end MarketEngine
