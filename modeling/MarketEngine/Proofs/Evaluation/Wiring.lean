import MarketEngine.Proofs.Channel.Attendance
import MarketEngine.Proofs.Evaluation.Moments
/-!
# How a built session is wired

A session that is built from settings has an evaluation for each symbol and a task for each pair of
a symbol and a time frame (`Session.roster_engine`), and the task with the number of a pair follows
the triggers and the candles of that pair (`Session.opened_build`). Where the symbols and the time
frames are distinct, so are the pairs, and their subscriptions tell them apart
(`Settings.Distinct`).
-/

namespace MarketEngine

variable {σ α : Type}

/-- The pairs of a symbol and a time frame, symbol by symbol. -/
def Settings.pairs (settings : Settings α) : List (Symbol × TimeFrame) :=
  settings.symbols.flatMap fun symbol => settings.timeFrames.map (symbol, ·)

/-- What the task of a pair subscribes to. -/
def Subscription.ofPair (pair : Symbol × TimeFrame) : Subscription :=
  { symbol := pair.1, timeFrame := some pair.2 }

/-- The subscription of a pair covers what is headed for the pair, and nothing headed for
another. -/
theorem Subscription.covers_ofPair {pair : Symbol × TimeFrame}
    (hwildcard : pair.1 ≠ Symbol.wildcard) (symbol : Symbol) (t : TimeFrame) :
    (Subscription.ofPair pair).covers ⟨symbol, some t⟩ = true ↔ pair = (symbol, t) := by
  obtain ⟨symbol', t'⟩ := pair
  have hne : (symbol' == Symbol.wildcard) = false := beq_eq_false_iff_ne.2 hwildcard
  simp [covers, acceptsTimeFrame, ofPair, hne]

/-- The symbols of settings are distinct, each of them is one symbol, and the time frames are
distinct. -/
structure Settings.Distinct (settings : Settings α) : Prop where
  symbols : settings.symbols.Nodup
  wildcard : Symbol.wildcard ∉ settings.symbols
  timeFrames : settings.timeFrames.Nodup

namespace Settings

variable {settings : Settings α}

/-- A pair joins any symbol with any time frame. -/
theorem mem_pairs {pair : Symbol × TimeFrame} :
    pair ∈ settings.pairs ↔ pair.1 ∈ settings.symbols ∧ pair.2 ∈ settings.timeFrames := by
  obtain ⟨symbol, t⟩ := pair
  simp [pairs]

/-- Distinct symbols and time frames make distinct pairs. -/
theorem Distinct.pairs (h : settings.Distinct) : settings.pairs.Nodup := by
  rw [Settings.pairs, List.nodup_flatMap]
  refine ⟨fun symbol _ => h.timeFrames.map fun _ _ heq => (Prod.mk.inj heq).2,
    h.symbols.imp fun hne p hp hp' => ?_⟩
  obtain ⟨t, -, rfl⟩ := List.mem_map.1 hp
  obtain ⟨t', -, heq⟩ := List.mem_map.1 hp'
  exact hne (Prod.mk.inj heq).1.symm

/-- Every pair is about one symbol. -/
theorem Distinct.ne_wildcard (h : settings.Distinct) {pair : Symbol × TimeFrame}
    (hpair : pair ∈ settings.pairs) : pair.1 ≠ Symbol.wildcard :=
  fun heq => h.wildcard (heq ▸ (mem_pairs.1 hpair).1)

end Settings

namespace Engine

/-- The pairs of all tasks. -/
def pairs (e : Engine σ α) : List (Option (Symbol × TimeFrame)) :=
  e.roster.1.map fun (owner, t, _) => (e.roster.2[owner]?).map fun (symbol, _) => (symbol, t)

/-- The pair of a task is the one in its place. -/
theorem pair?_eq (e : Engine σ α) (i : Nat) : e.pair? i = (e.pairs[i]?).join := by
  unfold pair? pairs roster ownerOf?
  rw [List.getElem?_map, List.getElem?_map]
  cases e.tasks[i]? with
  | none => rfl
  | some t =>
    simp only [Option.map_some, Option.join_some, List.getElem?_map, Option.map_map,
      Option.bind_eq_bind, Option.bind_some]
    cases e.evaluations[t.owner]? <;> rfl

/-- The pairs of the tasks are read off the roster. -/
theorem pair?_congr {e e' : Engine σ α} (h : e'.roster = e.roster) (i : Nat) :
    e'.pair? i = e.pair? i := by
  rw [pair?_eq, pair?_eq, pairs, h, pairs]

end Engine

namespace Session

section Roster

variable (settings : Settings α) (plan : Plan α)

/-- One symbol gets a task for each time frame. -/
theorem roster_foldl_addTask (owner : Nat) (symbol : Symbol) (shared : List Nat)
    (ts : List TimeFrame) (e : Engine σ α) :
    (ts.foldl (addTask settings plan owner symbol shared) e).roster
      = (e.roster.1 ++ ts.map fun t => (owner, t, settings.saveEvaluations), e.roster.2) := by
  induction ts generalizing e with
  | nil => rw [List.map_nil, List.append_nil, List.foldl_nil]
  | cons t rest ih =>
    have hadded : (addTask settings plan owner symbol shared e t).roster
        = (e.roster.1 ++ [(owner, t, settings.saveEvaluations)], e.roster.2) := by
      simp only [addTask, Engine.roster, List.map_append, List.map_cons, List.map_nil]
    rw [List.foldl_cons, ih, hadded, List.append_assoc, List.map_cons, List.singleton_append]

/-- A symbol gets its tasks and an evaluation that they share. -/
theorem roster_addSymbol (e : Engine σ α) (symbol : Symbol) :
    (addSymbol settings plan e symbol).roster
      = (e.roster.1 ++ settings.timeFrames.map fun t =>
          (e.roster.2.length, t, settings.saveEvaluations),
        e.roster.2 ++ [(symbol, settings.timeFrames, true)]) := by
  unfold addSymbol
  rw [roster_foldl_addTask]
  simp only [Engine.roster, List.map_append, List.map_cons, List.map_nil, List.length_map]

/-- The symbols get their tasks and evaluations one after the other. -/
theorem roster_foldl_addSymbol (symbols : List Symbol) (e : Engine σ α) :
    (symbols.foldl (addSymbol settings plan) e).roster
      = (e.roster.1 ++ (symbols.zipIdx e.roster.2.length).flatMap fun (_, owner) =>
          settings.timeFrames.map fun t => (owner, t, settings.saveEvaluations),
        e.roster.2 ++ symbols.map fun symbol => (symbol, settings.timeFrames, true)) := by
  induction symbols generalizing e with
  | nil => simp
  | cons symbol rest ih =>
    rw [List.foldl_cons, ih, roster_addSymbol]
    simp [List.zipIdx_cons, List.flatMap_cons]

variable (exchange : σ) (exporter : Exporter) (folder : Folder)

/-- There is an evaluation for each symbol, and for each of them a task in each time frame. -/
theorem roster_engine :
    (engine settings plan exchange exporter folder).roster
      = (settings.symbols.zipIdx.flatMap fun (_, owner) =>
          settings.timeFrames.map fun t => (owner, t, settings.saveEvaluations),
        settings.symbols.map fun symbol => (symbol, settings.timeFrames, true)) := by
  unfold engine
  rw [roster_foldl_addSymbol]
  rfl

/-- There is one task for every pair, in the order of the pairs. -/
theorem pairs_engine :
    (engine settings plan exchange exporter folder).pairs = settings.pairs.map some := by
  have hsymbols : ∀ p ∈ settings.symbols.zipIdx,
      (settings.timeFrames.map fun t => (settings.symbols[p.2]?).map fun symbol => (symbol, t))
        = settings.timeFrames.map fun t => some (p.1, t) := by
    rintro ⟨symbol, owner⟩ hp
    rw [List.mk_mem_zipIdx_iff_getElem?.1 hp]
    rfl
  rw [Engine.pairs, roster_engine, Settings.pairs]
  simp only [List.map_flatMap, List.map_map, List.getElem?_map, Option.map_map,
    Function.comp_def]
  rw [List.flatMap_congr hsymbols]
  conv_rhs => rw [← List.zipIdx_map_fst 0 settings.symbols, List.flatMap_map]

/-- The task in a place belongs to the pair in that place. -/
theorem pair?_engine (i : Nat) :
    (engine settings plan exchange exporter folder).pair? i = settings.pairs[i]? := by
  rw [Engine.pair?_eq, pairs_engine, List.getElem?_map]
  cases settings.pairs[i]? <;> rfl

/-- There are as many tasks as pairs. -/
theorem length_tasks_engine :
    (engine settings plan exchange exporter folder).tasks.length = settings.pairs.length := by
  have hlength := congrArg List.length (pairs_engine settings plan exchange exporter folder)
  simpa [Engine.pairs, Engine.roster] using hlength

end Roster

/-! ## Who follows which channel -/

/-- As what and to what a task subscribes on a channel. -/
def follows? (topic : Topic) (i : Nat) (pair : Symbol × TimeFrame) : Option (Role × Subscription) :=
  match topic with
  | .evaluation => some (.cycles i, .ofPair pair)
  | .candles => some (.refreshes i, .ofPair pair)
  | _ => none

/-- A task subscribes to the triggers and to the candles of its pair. -/
theorem opened_followTask {s : Session σ α} {people : Topic → List (Role × Subscription)}
    (h : Network.Opened s people) (i : Nat) :
    Network.Opened (followTask s i) fun topic =>
      people topic ++ ((s.shared.pair? i).bind (follows? topic i)).toList := by
  have hpair : (do
      let t ← s.shared.tasks[i]?
      let owner ← s.shared.ownerOf? t
      return ({ symbol := owner.symbol, timeFrame := some t.timeFrame } : Subscription))
        = (s.shared.pair? i).map Subscription.ofPair := by
    simp [Engine.pair?, Option.map_bind, Function.comp_def, Subscription.ofPair]
  unfold followTask
  rw [hpair]
  cases s.shared.pair? i with
  | none => simpa using h
  | some pair =>
    intro topic
    obtain ⟨c, hc, hopened⟩ := (h.subscribe .evaluation (.cycles i)
      (.ofPair pair)).subscribe .candles (.refreshes i) (.ofPair pair) topic
    refine ⟨c, hc, ?_⟩
    cases topic <;> simpa [follows?] using hopened

/-- A subscription leaves the engine alone. -/
theorem shared_followTask (s : Session σ α) (i : Nat) : (followTask s i).shared = s.shared :=
  (calm_followTask s i).shared_eq

/-- Task by task, the channels get their consumers. -/
theorem opened_foldl_followTask {s : Session σ α} {people : Topic → List (Role × Subscription)}
    (h : Network.Opened s people) (tasks : List Nat) :
    Network.Opened (tasks.foldl followTask s) fun topic =>
      people topic ++ tasks.filterMap fun i => (s.shared.pair? i).bind (follows? topic i) := by
  induction tasks generalizing s people with
  | nil => simpa using h
  | cons i rest ih =>
    have hrest := ih (opened_followTask h i)
    rw [shared_followTask] at hrest
    have hpeople : (fun topic => people topic ++
        (i :: rest).filterMap fun i => (s.shared.pair? i).bind (follows? topic i))
        = fun topic => people topic ++ ((s.shared.pair? i).bind (follows? topic i)).toList ++
          rest.filterMap fun i => (s.shared.pair? i).bind (follows? topic i) := by
      funext topic
      rw [List.filterMap_cons, List.append_assoc]
      cases (s.shared.pair? i).bind (follows? topic i) <;> rfl
    rw [hpeople]
    exact hrest

/-- At first nobody has subscribed to any channel. -/
theorem opened_fresh (e : Engine σ α) (queueSize tradeFilterSize : Nat) :
    Network.Opened ({ shared := e, channels := freshChannels queueSize tradeFilterSize } :
      Session σ α) fun _ => [] := by
  intro topic
  cases topic <;> exact ⟨_, rfl, Channel.opened_withProducer _ _⟩

/-- Every channel of a session has a history from its opening on. -/
theorem World.sound [Amount α] {s : Session σ α} (h : World s) : Network.Sound s := by
  have hchannels : Network.Sound s ∧ ∀ topic, ∃ c, Network.channel? s topic = some c := by
    refine h.induction (P := fun s => Network.Sound s ∧ ∀ topic, ∃ c,
      Network.channel? s topic = some c) (fun {e} _ queueSize tradeFilterSize => ⟨?_, ?_⟩) ?_
    · intro topic c hc
      cases topic <;> cases hc <;>
        exact ⟨_, (ChannelRun.sound_opening _ _).run [.issueProducer], rfl⟩
    · intro topic
      cases topic <;> exact ⟨_, rfl⟩
    · rintro s ⟨hsound, hchannels⟩ topic role - subscription
      have hreaches : Network.Reaches (fun _ => True) s
          (Network.subscribe s topic role subscription) :=
        Network.reaches_subscribe (fun _ => trivial) s topic trivial
      refine ⟨hsound.reaches hreaches hchannels, fun topic' => ?_⟩
      obtain ⟨c, hc⟩ := hchannels topic'
      obtain ⟨c', hc', -⟩ := hreaches hc
      exact ⟨c', hc'⟩
  exact hchannels.1

/-- The task with the number of a pair follows the triggers and the candles of that pair. -/
theorem opened_build [Amount α] {settings : Settings α} {plan : Plan α} {exchange : σ}
    {exporter : Exporter} {folder : Folder} {s₀ : Session σ α}
    (h : build settings plan exchange exporter folder = .ok s₀) :
    s₀.shared = engine settings plan exchange exporter folder ∧
    ∃ people, Network.Opened s₀ people ∧
      people .evaluation = settings.pairs.mapIdx (fun i pair => (.cycles i, .ofPair pair)) ∧
      people .candles = settings.pairs.mapIdx fun i pair => (.refreshes i, .ofPair pair) := by
  obtain ⟨-, h⟩ := build_eq_ok_iff.1 h
  obtain ⟨s, hs⟩ : ∃ s : Session σ α, s = (followTrades
    { shared := engine settings plan exchange exporter folder
      channels := freshChannels settings.queueSize settings.tradeFilterSize }).followTrader 0 :=
    ⟨_, rfl⟩
  have hshared : s.shared = engine settings plan exchange exporter folder := by
    rw [hs]
    exact (Network.calm_modify _ _ _).shared_eq.trans
      ((Network.calm_modify _ _ _).shared_eq.trans (Network.calm_modify _ _ _).shared_eq)
  -- before the tasks, only the matcher and the trader follow channels, and other ones
  obtain ⟨people, hopened, hevaluation, hcandles⟩ : ∃ people, Network.Opened s people ∧
      people .evaluation = [] ∧ people .candles = [] := by
    subst hs
    exact ⟨_, (((opened_fresh (engine settings plan exchange exporter folder)
      settings.queueSize settings.tradeFilterSize).subscribe .recentTrade .matcher
      { rateLimited := true }).subscribe .orders (.openOrders 0) {}).subscribe .balance .balances
      {}, rfl, rfl⟩
  have hfollowed := opened_foldl_followTask hopened
    (List.range (engine settings plan exchange exporter folder).tasks.length)
  rw [← hs] at h
  rw [← h] at hfollowed
  have hs₀ : s₀.shared = engine settings plan exchange exporter folder := by
    rw [h, (calm_foldl_followTask s _).shared_eq, hshared]
  have hpeople : ∀ {topic : Topic} {person : Nat → Symbol × TimeFrame → Role × Subscription},
      (∀ i pair, follows? topic i pair = some (person i pair)) →
      (List.range (engine settings plan exchange exporter folder).tasks.length).filterMap
        (fun i => (s.shared.pair? i).bind (follows? topic i)) = settings.pairs.mapIdx person := by
    intro topic person hperson
    rw [length_tasks_engine, ← filterMap_range_getElem?]
    apply List.filterMap_congr
    intro i _
    rw [hshared, pair?_engine]
    cases settings.pairs[i]? with
    | none => rfl
    | some pair => exact hperson i pair
  refine ⟨hs₀, _, hfollowed, ?_, ?_⟩
  · rw [hevaluation, List.nil_append]
    exact hpeople fun _ _ => rfl
  · rw [hcandles, List.nil_append]
    exact hpeople fun _ _ => rfl

/-! ## Who is wired to whom -/

section Built

variable [Amount α] {settings : Settings α} {plan : Plan α} {exchange : σ} {exporter : Exporter}
  {folder : Folder} {s₀ : Session σ α}
  (hbuild : build settings plan exchange exporter folder = .ok s₀) {e : Engine σ α}
  (h : e.roster = s₀.shared.roster)
include hbuild h

/-- In a session that was built, each task belongs to the pair in its place. -/
theorem pair?_build (i : Nat) : e.pair? i = settings.pairs[i]? := by
  obtain ⟨hshared, -⟩ := opened_build hbuild
  rw [Engine.pair?_congr h, hshared, pair?_engine]

/-- A task that belongs to the evaluation of a symbol is the task of a pair of that symbol. -/
theorem exists_pair_build {i : Nat} {s : SymbolEvaluation α} (hs : e.evaluationAt? i = some s) :
    ∃ t, settings.pairs[i]? = some (s.symbol, t) := by
  obtain ⟨task, htask, howner⟩ := Engine.evaluationAt?_eq_some.1 hs
  refine ⟨task.timeFrame, ?_⟩
  rw [← pair?_build hbuild h]
  simp [Engine.pair?, htask, howner]

/-- In a session that was built, each symbol has an evaluation of all time frames that publishes. -/
theorem evaluations_build : e.evaluations.map (fun s => (s.symbol, s.timeFrames, s.publishes))
    = settings.symbols.map fun symbol => (symbol, settings.timeFrames, true) := by
  have heq := congrArg Prod.snd h
  rwa [(opened_build hbuild).1, roster_engine] at heq

/-- Every evaluation is that of one of the symbols, in all time frames and with its producers. -/
theorem wired_evaluation {s : SymbolEvaluation α} (hs : s ∈ e.evaluations) :
    s.timeFrames = settings.timeFrames ∧ s.publishes = true := by
  have hentry : (s.symbol, s.timeFrames, s.publishes)
      ∈ settings.symbols.map fun symbol => (symbol, settings.timeFrames, true) := by
    rw [← evaluations_build hbuild h]
    exact List.mem_map.2 ⟨s, hs, rfl⟩
  obtain ⟨_, -, heq⟩ := List.mem_map.1 hentry
  obtain ⟨htimeFrames, hpublishes⟩ := Prod.mk.inj (Prod.mk.inj heq).2
  exact ⟨htimeFrames.symm, hpublishes.symm⟩

/-- Every symbol is evaluated in all time frames. -/
theorem exists_evaluation_build {symbol : Symbol} (hsymbol : symbol ∈ settings.symbols) :
    ∃ s, e.evaluation? symbol = some s ∧ s.timeFrames = settings.timeFrames := by
  cases hfound : e.evaluationOf? symbol with
  | none =>
    have hentry : (symbol, settings.timeFrames, true)
        ∈ e.evaluations.map fun s => (s.symbol, s.timeFrames, s.publishes) := by
      rw [evaluations_build hbuild h]
      exact List.mem_map_of_mem hsymbol
    obtain ⟨s, hs, heq⟩ := List.mem_map.1 hentry
    -- of several evaluations the latest counts, but there is one
    have hother := latest?_eq_none.1 hfound s hs
    simp [(Prod.mk.inj heq).1] at hother
  | some i =>
    obtain ⟨s, hs, -⟩ := exists_of_latest? hfound
    exact ⟨s, by rw [Engine.evaluation?, hfound, Option.bind_some, hs],
      (wired_evaluation hbuild h (List.mem_of_getElem? hs)).1⟩

end Built

/-- In a session that was built, every task finds an evaluation that publishes. -/
theorem publishes_build [Amount α] {settings : Settings α} {plan : Plan α} {exchange : σ}
    {exporter : Exporter} {folder : Folder} {s₀ : Session σ α}
    (hbuild : build settings plan exchange exporter folder = .ok s₀) : s₀.shared.Publishes :=
  fun _ hs => (wired_evaluation hbuild rfl hs).2

end Session

end MarketEngine
