import MarketEngine.Channel.Registry
import MarketEngine.Engine.Handlers
import MarketEngine.Settings.Basic
/-!
# Sessions

A session is an engine at work: its channels with their consumers, and the operations from outside
that change the engine and send messages.
-/

namespace MarketEngine

abbrev Session (σ α : Type) := Network Role (Payload α) (Engine σ α) (Stage α)

namespace Session

variable {σ α : Type}

/-! ## Building -/

/-- Changes the engine. -/
def modifyEngine (s : Session σ α) (f : Engine σ α → Engine σ α) : Session σ α :=
  { s with shared := f s.shared }

/-- A channel with a queue of some size, and with a filter if it is for reports of trades. -/
def channelFor (queueSize tradeFilterSize : Nat) (topic : Topic) : Channel Role (Payload α) :=
  .empty queueSize (if topic = .recentTrade then tradeFilterSize else 1)

/-- Registers the channels of all topics, and then issues the producers, which the parts of the
session share. -/
def openChannels (exchange : String) (queueSize tradeFilterSize : Nat) :
    Except (EngineError α) (Registry Role (Payload α)) := do
  let registry ← Topic.all.foldlM
    (fun r topic => r.register exchange topic (channelFor queueSize tradeFilterSize topic)) {}
  Topic.all.foldlM (fun r topic => r.issueProducer exchange topic) registry

/-- The channels of all topics, with their producers issued. -/
def freshChannels (queueSize tradeFilterSize : Nat) : Table Topic (Channel Role (Payload α)) :=
  Topic.all.map fun topic => (topic, (channelFor queueSize tradeFilterSize topic).withProducer)

/-- Lets a trader follow the polled orders and balances. -/
def followTrader (s : Session σ α) (trader : Nat) : Session σ α :=
  let s := Network.subscribe s .orders (.openOrders trader) {}
  Network.subscribe s .balance .balances {}

/-- Lets reports of trades be matched. -/
def followTrades (s : Session σ α) : Session σ α :=
  Network.subscribe s .recentTrade .matcher { rateLimited := true }

/-- Lets a task follow its triggers and its candles. -/
def followTask (s : Session σ α) (i : Nat) : Session σ α :=
  let pair : Option Subscription := do
    let t ← s.shared.tasks[i]?
    let owner ← s.shared.ownerOf? t
    return { symbol := owner.symbol, timeFrame := some t.timeFrame }
  match pair with
  | none => s
  | some pair =>
    let s := Network.subscribe s .evaluation (.cycles i) pair
    Network.subscribe s .candles (.refreshes i) pair

/-- Adds a listener to every channel. -/
def listen (s : Session σ α) : Session σ α :=
  Topic.all.foldl (fun s topic => Network.subscribe s topic .listener {}) s

/-- What a session evaluates its symbols with. -/
structure Plan (α : Type) where
  /-- The technical evaluators of a pair. -/
  technical : Symbol → TimeFrame → List (Evaluator α)
  /-- The evaluators that all time frames of a symbol share. -/
  shared : Symbol → List (Evaluator α)
  strategies : Symbol → List (Strategy α)

/-- Relative strength, and the mean of all notes. -/
def Plan.standard [Amount α] : Plan α where
  technical _ _ := [.momentum Evaluator.usualPeriod]
  shared _ := []
  strategies _ := [.weightedMean {}]

/-- Adds the task of a pair: its technical evaluators, and those shared by the symbol. -/
def addTask (settings : Settings α) (plan : Plan α) (owner : Nat) (symbol : Symbol)
    (shared : List Nat) (e : Engine σ α) (t : TimeFrame) : Engine σ α :=
  let technical := plan.technical symbol t
  let numbers := (List.range technical.length).map (e.evaluators.length + ·)
  { e with
    evaluators := e.evaluators ++ technical
    tasks := e.tasks ++ [{
      owner, timeFrame := t, evaluators := numbers ++ shared
      candleLimit := some settings.candleLimit, exports := settings.saveEvaluations }] }

/-- Adds the evaluation of a symbol and the tasks of its time frames. -/
def addSymbol (settings : Settings α) (plan : Plan α) (e : Engine σ α) (symbol : Symbol) :
    Engine σ α :=
  let owner := e.evaluations.length
  let evaluators := plan.shared symbol
  let shared := (List.range evaluators.length).map (e.evaluators.length + ·)
  let evaluation : SymbolEvaluation α :=
    { symbol, timeFrames := settings.timeFrames, strategies := plan.strategies symbol }
  settings.timeFrames.foldl (addTask settings plan owner symbol shared)
    { e with
      market := e.market.ensure symbol
      evaluations := e.evaluations ++ [evaluation]
      evaluators := e.evaluators ++ evaluators }

/-- The name of a session's trader. -/
def traderName : String := "simulator"

/-- The pollers, with the greatest number of trades to ask for. -/
def pollers (symbols : List Symbol) (tradeLimit : Nat) : List Poller :=
  [PollSource.ticker, .book, .trades tradeLimit, .balance, .orders].map ({ source := ·, symbols })

/-- The engine that settings ask for. -/
def engine (settings : Settings α) (plan : Plan α) (exchange : σ) (exporter : Exporter)
    (folder : Folder) : Engine σ α :=
  let start : Engine σ α :=
    { exchangeName := settings.exchangeName
      exchange
      market := { mostCandles := settings.mostCandles, mostTrades := settings.mostTrades }
      feed :=
        { symbols := settings.symbols, timeFrames := settings.timeFrames
          limit := settings.candleLimit, replays := settings.backtesting }
      pollers := pollers settings.symbols settings.mostTrades
      desk :=
        { orders := .empty settings.mostOrders
          portfolio := ⟨settings.startingBalances⟩
          fees := ⟨settings.makerFee, settings.takerFee⟩
          windowSize := settings.matchWindow
          traders := [{ name := traderName, symbols := settings.symbols }] }
      exporter, folder }
  settings.symbols.foldl (addSymbol settings plan) start

/-- Builds a session, unless its settings are refused or a channel or producer is refused. -/
def build [Amount α] (settings : Settings α) (plan : Plan α) (exchange : σ) (exporter : Exporter)
    (folder : Folder) : Except (EngineError α) (Session σ α) := do
  settings.validate
  let registry ←
    openChannels settings.exchangeName settings.queueSize settings.tradeFilterSize
  let e := engine settings plan exchange exporter folder
  let s : Session σ α := { shared := e, channels := registry.ofExchange settings.exchangeName }
  return (List.range e.tasks.length).foldl followTask ((followTrades s).followTrader 0)

/-- A task of parts that are wired one by one. -/
structure TaskWiring where
  symbol : Symbol
  timeFrame : TimeFrame
  evaluators : List Nat
  candleLimit : Option Nat
  refreshes : Bool
  exports : Bool

/-- The parts of a session that are wired one by one. -/
structure Wiring (σ α : Type) where
  engine : Engine σ α
  tasks : List TaskWiring
  queueSize : Nat
  tradeFilterSize : Nat
  /-- Whether the traders, the matcher and the tasks follow their channels. -/
  tradersFollow : Bool
  matcherFollows : Bool
  tasksFollow : Bool

/-- Adds a task to an engine that evaluates its symbol. -/
def wireTask (e : Engine σ α) (w : TaskWiring) : Engine σ α :=
  match e.evaluationOf? w.symbol with
  | none => e
  | some owner =>
    { e with
      market := e.market.ensure w.symbol
      tasks := e.tasks ++ [{
        owner, timeFrame := w.timeFrame, evaluators := w.evaluators, candleLimit := w.candleLimit
        refreshes := w.refreshes, exports := w.exports }] }

/-- Wires a session. -/
def wire (w : Wiring σ α) : Session σ α :=
  let e := w.tasks.foldl wireTask w.engine
  let numbers (follow : Bool) (n : Nat) : List Nat := if follow then List.range n else []
  let s : Session σ α := { shared := e, channels := freshChannels w.queueSize w.tradeFilterSize }
  let s := (numbers w.tradersFollow e.desk.traders.length).foldl followTrader s
  let s := if w.matcherFollows then followTrades s else s
  (numbers w.tasksFollow e.tasks.length).foldl followTask s

/-! ## Orders -/

/-- Holds the order with this id. -/
def hold (s : Session σ α) (id : String) : Session σ α :=
  s.modifyEngine fun e => { e with desk.orders := e.desk.orders.hold id }

/-- Lets go of the order with this id, so that those who wait for it can go on. -/
def release? (s : Session σ α) (id : String) : Option (Session σ α) :=
  (s.shared.desk.orders.release? id).map fun orders =>
    Network.rouse (s.modifyEngine fun e => { e with desk.orders := orders })

/-! ## Channels -/

/-- Whether a channel is running. -/
def isUp (s : Session σ α) (topic : Topic) : Bool := (s.channel? topic).any (·.running)

def stopAll (s : Session σ α) : Session σ α :=
  Topic.all.foldl (fun s topic => s.modify topic Channel.stop) s

def startAll (s : Session σ α) : Session σ α :=
  Topic.all.foldl (fun s topic => s.modify topic Channel.start) s

/-- The names of the channels, in the order of their characters. -/
def channelNames (s : Session σ α) : List String :=
  (s.channels.keys.map Topic.name).mergeSort (· ≤ ·)

/-! ## Operations from outside -/

variable [Amount α] [Written α] [Exchange σ α]

/-- Lets the consumers work until none of them can go on. -/
def settle (s : Session σ α) : Session σ α := Network.settle Engine.handlers s

/-- Sends a message and waits until it is sent. -/
def publish (s : Session σ α) (m : Message (Payload α)) : Session σ α :=
  s.sendAndAwait Engine.handlers m.payload.topic m

/-- Sends messages that do not wait for each other, and waits until all are sent. -/
def publishTogether (s : Session σ α) (ms : List (Message (Payload α))) : Session σ α :=
  let (s, tickets) := ms.foldl
    (fun (s, tickets) m =>
      let (s, ticket) := Network.send s m.payload.topic m
      (s.drive ticket, tickets ++ [ticket]))
    (s, [])
  s.await Engine.handlers tickets

/-- Refreshes all candles that are due and publishes the latest ones; in a replay the orders are
matched then. Also says how many series were refreshed. -/
def tick (s : Session σ α) : Session σ α × Nat :=
  let e := s.shared
  let (k, (feed, market), exchange) := e.feed.tick e.market e.exchange
  let s : Session σ α := { s with shared := { e with feed, market, exchange } }
  let s : Session σ α := publishTogether s (k.updates.map fun m => ⟨m.key, .candle m.payload⟩)
  let s : Session σ α :=
    if feed.replays && e.matchesReplays then s.modifyEngine fun e => (e.matchAll true).1 else s
  (s, k.refreshed)

/-- Refreshes the candles of a pair and publishes the latest one. -/
def refreshPair (s : Session σ α) (symbol : Symbol) (t : TimeFrame) : Session σ α × Answer Unit :=
  let (e, answer) := s.shared.refreshCandles symbol t
  let s : Session σ α := { s with shared := e }
  match answer with
  | .error cause => (s, .error cause)
  | .ok none => (s, .ok ())
  | .ok (some candle) => (s.publish ⟨CandleFeed.key (symbol, t), .candle ⟨t, candle⟩⟩, .ok ())

/-- Takes in the answers of a poll in turn: what was answered is recorded and published. Also
counts the messages. -/
def takeAnswers (poller : Nat) (s : Session σ α) :
    List (Symbol × Answer (Payload α)) → Session σ α × Nat
  | [] => (s, 0)
  | (symbol, .ok payload) :: rest =>
    let s := s.modifyEngine fun e => { e with market := e.market.recordPolled symbol payload }
    let (s, published) := takeAnswers poller (publish s ⟨{ symbol }, payload⟩) rest
    (s, published + 1)
  | (symbol, .error (.feedEnded _)) :: rest =>
    let s := s.modifyEngine fun e =>
      { e with pollers := e.pollers.modify poller (·.endSymbol symbol) }
    takeAnswers poller s rest
  | (_, .error _) :: rest => takeAnswers poller s rest

/-- Lets a poller ask once. Also says how many answers were published. -/
def poll (s : Session σ α) (poller : Nat) : Session σ α × Nat :=
  match s.shared.pollers[poller]? with
  | none => (s, 0)
  | some p =>
    let (answers, exchange) := p.poll s.shared.exchange
    takeAnswers poller (s.modifyEngine ({ · with exchange })) answers

/-- Runs a cycle of a task at once. Answers whether the trigger was accepted. -/
def process (s : Session σ α) (i : Nat) (trigger : Trigger) : Session σ α × Except String Bool :=
  let accepted : Option Bool := do
    let t ← s.shared.tasks[i]?
    let owner ← s.shared.ownerOf? t
    return t.accepts (s.shared.isInitialized owner) trigger
  match Network.handle Engine.handlers 2 s (s.shared.beginCycle i trigger) with
  | (s, none) => (s, .ok (accepted.getD false))
  | (s, some failure) => (s, .error failure)

/-- Triggers the task of each of some time frames of a symbol, one after the other. -/
def notify (s : Session σ α) (symbol : Symbol) (ts : List TimeFrame) (trigger : Trigger) :
    Session σ α :=
  ts.foldl (fun s t => publish s (Engine.triggerMessage symbol t trigger)) s

/-- Triggers a task. -/
def notifyTask (s : Session σ α) (i : Nat) (trigger : Trigger) : Session σ α :=
  match s.shared.tasks[i]? with
  | none => s
  | some t => (s.shared.ownerOf? t).elim s fun owner => s.notify owner.symbol [t.timeFrame] trigger

/-- Interrupts the tasks of all time frames of a symbol, in the name of an evaluator. -/
def interrupt (s : Session σ α) (symbol : Symbol) (source : String) : Session σ α :=
  let ts := (s.shared.evaluation? symbol).elim s.shared.feed.timeFrames (·.timeFrames)
  s.notify symbol ts { source, interruption := true }

/-- Updates the strategies of a symbol and hands its matrix on. -/
def updateStrategies (s : Session σ α) (i : Nat) : Session σ α :=
  let s := s.modifyEngine (·.modifyEvaluation i (·.updateStrategies))
  match s.shared.evaluations[i]? with
  | some evaluation =>
    if evaluation.publishes then s.publish (s.shared.matrixMessage evaluation) else s
  | none => s

/-- Hands the verdicts on a symbol on, once every time frame is initialized. Also says whether that
is so. -/
def finalize (s : Session σ α) (i : Nat) : Session σ α × Bool :=
  match s.shared.evaluations[i]? with
  | none => (s, false)
  | some evaluation =>
    match s.shared.verdictsOf? evaluation with
    | some m => (s.publish m, true)
    | none => (s, s.shared.isInitialized evaluation)

/-! ## Feeds at work -/

/-- Ticks while the channel of candles is running, until every feed has ended, and at most so many
times; after each tick the consumers work. -/
def runFeed (s : Session σ α) : (ticks : Nat) → Session σ α
  | 0 => s
  | ticks + 1 =>
    if s.isUp .candles then
      let s := (tick s).1.settle
      if s.shared.feed.finished then s else runFeed s ticks
    else s

/-- Whether the channel that a poller publishes on is running. -/
def canPoll (s : Session σ α) (poller : Nat) : Bool :=
  s.shared.pollers[poller]?.any (isUp s ·.source.topic)

/-- Polls while the poller's channel is running, until nothing is left to ask for, and at most so
many times. -/
def runPoller (s : Session σ α) (poller : Nat) : (polls : Nat) → Session σ α
  | 0 => s
  | polls + 1 =>
    if s.canPoll poller then
      let s := (poll s poller).1.settle
      if s.shared.pollers[poller]?.all (·.finished) then s else runPoller s poller polls
    else s

/-- Starts the feeds whose channels are running: candles are refreshed once, or in a replay until
every feed has ended, and each poller asks once. -/
def startFeeds (s : Session σ α) (ticks : Nat) : Session σ α :=
  let s : Session σ α := runFeed s 1
  let s := (List.range s.shared.pollers.length).foldl
    (fun s i => if canPoll s i then (poll s i).1 else s) s
  let s : Session σ α := settle s
  if s.shared.feed.replays && !s.shared.feed.finished then runFeed s ticks else s

/-- Starts a session that was not started before. -/
def start (s : Session σ α) (ticks : Nat) : Session σ α :=
  if s.shared.started then s
  else startFeeds (s.modifyEngine ({ · with started := true })) ticks

end Session

end MarketEngine
