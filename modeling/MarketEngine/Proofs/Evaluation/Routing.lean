import MarketEngine.Proofs.Evaluation.Accounting
import MarketEngine.Proofs.Evaluation.Triggers
/-!
# Which task evaluates what

In a session built from settings, the task of a pair begins with one trigger for each trigger and
each refreshed candle that is posted for the pair, with no other, and every matrix and every verdict
of a symbol comes from a cycle of that symbol's tasks (`Session.evaluation_routed`).
-/

namespace MarketEngine

variable {σ α : Type}

namespace Session

/-! ## The triggers of a built session -/

section Built

variable [Amount α] [Written α] [Exchange σ α] {settings : Settings α} {plan : Plan α}
  {exchange : σ} {exporter : Exporter} {folder : Folder} {s₀ : Session σ α}
  (hbuild : build settings plan exchange exporter folder = .ok s₀)
include hbuild

variable {events : List (SessionEvent σ α)} (hproper : ∀ event ∈ events, event.Proper)
include hproper

/-- On the channels of a built session, the tasks were there from the beginning, and only listeners
came later. -/
theorem exists_established : ∃ people : Topic → List (Role × Subscription),
    people .evaluation = settings.pairs.mapIdx (fun i pair => (.cycles i, .ofPair pair)) ∧
    people .candles = settings.pairs.mapIdx (fun i pair => (.refreshes i, .ofPair pair)) ∧
    ∀ topic, (Network.channelAt (s₀.after events) topic).Established (people topic)
      (· = .listener) := by
  obtain ⟨-, people, hopened, hevaluation, hcandles⟩ := opened_build hbuild
  exact ⟨people, hevaluation, hcandles,
    hopened.established (World.built hbuild).sound (leads_after s₀ hproper).reaches⟩

variable {all : List (Occurrence Role (Payload α) (Engine σ α))}
  (hrecounts : s₀.Recounts events all)
include hrecounts

omit hproper in
/-- On the channel of triggers of a built session is what was posted from outside and what its deeds
raised. -/
theorem raises_build : Raises s₀.shared (s₀.story all) (all.filterMap Occurrence.post?) := by
  have hrun := (Raises.refl s₀.shared).run (publishes_build hbuild) hrecounts.proper
  rwa [List.nil_append] at hrun

/-- In a built session each task has the consumer of candles with its number, and no other one. -/
theorem wired_build : Wired settings.pairs (s₀.story all) := by
  have hraises := raises_build hbuild hrecounts
  obtain ⟨people, -, hcandles, hestablished⟩ := exists_established hbuild hproper
  have hflowing := (World.built hbuild).flowing_after events
  have hlength : (people .candles).length = settings.pairs.length := by
    rw [hcandles, List.length_mapIdx]
  -- on the channel of candles, a task's consumer has the number of the task
  have hperson : ∀ {i : Nat} {label : Role} {s : Subscription},
      (people .candles)[i]? = some (label, s) →
      label = .refreshes i ∧ i < settings.pairs.length := by
    intro i label s hi
    rw [hcandles, List.getElem?_mapIdx] at hi
    obtain ⟨pair, hpair, heq⟩ := Option.map_eq_some_iff.1 hi
    exact ⟨(Prod.mk.inj heq).1.symm, (List.getElem?_eq_some_iff.1 hpair).1⟩
  refine ⟨fun d hd i => pair?_build hbuild (hraises.found d hd).roster_eq i,
    fun d hd a label m hact i => ?_⟩
  cases a with
  | none =>
    obtain ⟨j, rfl⟩ := hraises.outside d hd label m hact
    simp
  | some a =>
    have hbegun :
        (label, m) ∈ (Network.channelAt (s₀.after events) a.topic).begunBy a.consumer := by
      rw [hrecounts.begunBy_eq]
      exact List.mem_filterMap.2 ⟨d, hd, by simp [Deed.begunAt?, hact]⟩
    constructor
    · -- only on the channel of candles does anybody trigger tasks, and listeners do not
      rintro rfl
      obtain ⟨topic, consumer⟩ := a
      obtain ⟨k, hk, hlabel⟩ := Channel.exists_of_mem_begunBy hbegun
      have hplaced := hflowing.staffed topic k (List.mem_of_getElem? hk)
      rw [hlabel] at hplaced
      obtain rfl : topic = .candles := hplaced
      rcases (hestablished .candles).label_of_begunBy hbegun with ⟨s, hs⟩ | ⟨-, hlistens⟩
      · obtain ⟨heq, hlt⟩ := hperson hs
        obtain rfl : i = consumer := by simpa using heq
        exact ⟨rfl, hlt⟩
      · simp at hlistens
    · rintro ⟨⟨rfl⟩, hlt⟩
      rcases (hestablished .candles).label_of_begunBy hbegun with ⟨s, hs⟩ | ⟨hge, -⟩
      · exact (hperson hs).1
      · rw [hlength] at hge
        exact absurd hlt (Nat.not_lt.2 hge)

/-- The task of a pair begins with what the posted messages lead to: with each such trigger at most
once, and at rest with all of them. -/
theorem exists_processed (hdistinct : settings.Distinct) {i : Nat} {pair : Symbol × TimeFrame}
    (hi : settings.pairs[i]? = some pair) :
    ∃ processed : List (Message (Payload α)),
      (Network.channelAt (s₀.after events) .evaluation).begunBy i
        = processed.map (.cycles i, ·) ∧
      processed.Subperm ((s₀.allPosts events).filterMap (led pair)) ∧
      ((s₀.after events).ready = [] →
        processed.Perm ((s₀.allPosts events).filterMap (led pair))) := by
  have hraises := raises_build hbuild hrecounts
  obtain ⟨people, hevaluation, hcandles, hestablished⟩ := exists_established hbuild hproper
  have hflowing := (World.built hbuild).flowing_after events
  have hdrained : (s₀.after events).ready = [] → ∀ topic,
      (Network.channelAt (s₀.after events) topic).Drained := fun hready =>
    hflowing.drained_channelAt hready (List.forall_mem_nil _)
  obtain ⟨processed, hprocessed, hsub, hperm⟩ := (hestablished .evaluation).begunBy_eq
    (s := .ofPair pair) (by rw [hevaluation, List.getElem?_mapIdx, hi]; rfl) rfl
    fun _ => (hflowing.smooth _).canceled_eq
  obtain ⟨refreshed, hrefreshed, hrefreshedSub, hrefreshedPerm⟩ :=
    (hestablished .candles).begunBy_eq
    (s := .ofPair pair) (by rw [hcandles, List.getElem?_mapIdx, hi]; rfl) rfl
    fun _ => (hflowing.smooth _).canceled_eq
  -- of the triggers that were sent, those for the pair were posted or raised by the task's own
  -- consumer of candles, which in turn may not have come to all candles yet
  have htriggers := hraises.triggers.filter ((Subscription.ofPair pair).covers ·.key)
  rw [← hrecounts.messages_eq, hrecounts.posts_on, List.filter_append,
    (wired_build hbuild hproper hrecounts).filter_flatMap_raised hdistinct hi,
    ← hrecounts.begunBy_eq, hrefreshed, List.map_map] at htriggers
  rw [hrecounts.messages_eq, hraises.candles, hrecounts.posts_on] at hrefreshedSub hrefreshedPerm
  have hled := (filterMap_led_perm pair (s₀.allPosts events)).symm
  -- from here on only the numbers of posted triggers and of candles matter
  generalize ((s₀.allPosts events).filter (·.payload.topic = .evaluation)).filter
    ((Subscription.ofPair pair).covers ·.key) = posted at htriggers hled
  generalize ((s₀.allPosts events).filter (·.payload.topic = .candles)).filter
    ((Subscription.ofPair pair).covers ·.key) = candles at hrefreshedSub hrefreshedPerm hled
  refine ⟨processed, hprocessed, ?_, fun hready => ?_⟩
  · obtain ⟨begun, hbegun, hsublist⟩ := hrefreshedSub
    have hmapped : (posted ++ refreshed.map fun _ => refreshTrigger (α := α) pair).Subperm
        (posted ++ candles.map fun _ => refreshTrigger pair) :=
      ((hbegun.symm.map _).append_left posted).subperm.trans
        ((hsublist.map _).append_left posted).subperm
    exact (hsub.trans htriggers.subperm).trans (hmapped.trans hled.subperm)
  · have hmapped : (posted ++ refreshed.map fun _ => refreshTrigger (α := α) pair).Perm
        (posted ++ candles.map fun _ => refreshTrigger pair) :=
      ((hrefreshedPerm (hdrained hready _)).map _).append_left posted
    exact ((hperm (hdrained hready _)).trans htriggers).trans (hmapped.trans hled)

end Built

/-! ## Interruptions -/

section Routed

variable [Amount α] {settings : Settings α} {plan : Plan α} {exchange : σ} {exporter : Exporter}
  {folder : Folder} {s₀ : Session σ α}
  (hbuild : build settings plan exchange exporter folder = .ok s₀)
include hbuild

/-- An interruption of a symbol leads to one trigger of the task of each pair of the symbol. -/
theorem filterMap_led_interrupt [Exchange σ α] (hdistinct : settings.Distinct) {s : Session σ α}
    (h : s.shared.roster = s₀.shared.roster) {pair : Symbol × TimeFrame}
    (hpair : pair ∈ settings.pairs) (symbol : Symbol) (source : String) :
    (s.posts (.interrupt symbol source)).filterMap (led pair)
      = if pair.1 = symbol then
          [Engine.triggerMessage pair.1 pair.2 { source, interruption := true }]
        else [] := by
  obtain ⟨hsymbol, ht⟩ := Settings.mem_pairs.1 hpair
  rw [posts, filterMap_led_triggers (hdistinct.ne_wildcard hpair)]
  split
  · next heq =>
    obtain ⟨evaluation, hevaluation, htimeFrames⟩ :=
      exists_evaluation_build hbuild h (heq ▸ hsymbol)
    rw [hevaluation, Option.elim_some, htimeFrames,
      List.count_eq_one_of_mem hdistinct.timeFrames ht, List.replicate_one]
  · rfl

/-! ## The cycles of a symbol -/

variable [Written α] [Exchange σ α]

/-- The matrix and the verdicts of a cycle are headed for the symbol of its task. -/
theorem keys_build {r : SessionStory σ α} (haccounts : Accounts s₀.shared r)
    {courses : List (Course σ α)} (hfollows : r.Follows courses) {c : Course σ α}
    (hc : c ∈ courses) : ∃ pair, settings.pairs[c.task]? = some pair ∧
      (∀ m ∈ c.matrix?, m.key = { symbol := pair.1 }) ∧
      ∀ m ∈ c.request?, m.key = { symbol := pair.1 } := by
  have hmoment : c.toMoment ∈ r.accepted := by
    rw [← hfollows.accepted]
    exact List.mem_map_of_mem hc
  -- nobody is wired anew, so the task is the same pair's at each of the cycle's moments
  have hroster : ∀ {e : Engine σ α}, e.Grows r.shared → e.roster = s₀.shared.roster :=
    fun hgrows => hgrows.roster_eq.symm.trans haccounts.grows.roster_eq
  have htimely := hfollows.timely c hc
  obtain ⟨s, hs⟩ := haccounts.written _ hmoment
  obtain ⟨t, hpair⟩ := exists_pair_build hbuild (hroster htimely.engine) hs
  refine ⟨_, hpair, fun m hm => ?_, fun m hm => ?_⟩
  · rw [Moment.matrix?, hs] at hm
    obtain rfl := Option.some.inj hm
    rfl
  · obtain ⟨judged, hjudged, hm⟩ := Option.bind_eq_some_iff.1 hm
    obtain ⟨htask, -, -, hgrows⟩ := htimely.judged hjudged
    rw [Moment.request?, htask] at hm
    obtain ⟨s', notes, hs', -, rfl⟩ := Engine.eq_of_request? hm
    obtain ⟨t', hpair'⟩ := exists_pair_build hbuild (hroster hgrows) hs'
    have hsame := Option.some.inj (hpair.symm.trans hpair')
    rw [(Prod.mk.inj hsame).1]

/-! ## The routing of a session -/

/-- Take any session that is built from settings whose symbols are distinct, none of them the
wildcard, and whose time frames are distinct, and let anything happen to it that leaves it to the
cycles to hand matrices and verdicts on; the channels stay up all the time. Then at any moment:

* there is one task for each pair of a symbol and a time frame, numbered as the pairs are;
* nobody begins with triggers but the tasks, each on its own account, and those who listen;
* the task of a pair has begun with what the posted messages lead to (`led`), with each such trigger
  at most once, and with all of them when the session is at rest, as it is after as many turns as
  there is work;
* every candle on the channel of candles was posted, and a candle of a pair leads to one trigger of
  the task of that pair, and of no other;
* an interruption of a symbol leads to one trigger of the task of each pair of that symbol, and of
  no other;
* the matrices and the verdicts on the channels are those of cycles, and each of them is headed for
  the symbol of the task whose cycle it is. -/
theorem evaluation_routed (hdistinct : settings.Distinct) {events : List (SessionEvent σ α)}
    (hproper : ∀ event ∈ events, event.Proper) :
    let s := s₀.after events
    let posted := s₀.allPosts events
    settings.pairs.Nodup ∧ (∀ i, s.shared.pair? i = settings.pairs[i]?) ∧
    (∀ i label m, (label, m) ∈ (Network.channelAt s .evaluation).begunBy i →
      label = .listener ∨ label = .cycles i ∧ i < settings.pairs.length) ∧
    (∀ i pair, settings.pairs[i]? = some pair → ∃ processed : List (Message (Payload α)),
      (Network.channelAt s .evaluation).begunBy i = processed.map (.cycles i, ·) ∧
      processed.Subperm (posted.filterMap (led pair)) ∧
      (s.ready = [] → processed.Perm (posted.filterMap (led pair)))) ∧
    (∀ places : List Nat, Network.work Engine.handlers s ≤ places.length →
      (s.after (places.map .turn)).ready = []) ∧
    (Network.channelAt s .candles).messages = posted.filter (·.payload.topic = .candles) ∧
    (∀ pair ∈ settings.pairs, ∀ symbol t (update : CandleUpdate α),
      led pair ⟨⟨symbol, some t⟩, .candle update⟩ = if pair = (symbol, t) then
          some ⟨⟨symbol, some t⟩, .trigger { source := "OHLCVUpdater", finalize := true }⟩
        else none) ∧
    (∀ pair ∈ settings.pairs, ∀ symbol source,
      (s.posts (.interrupt symbol source)).filterMap (led pair) = if pair.1 = symbol then
          [⟨⟨symbol, some pair.2⟩, .trigger { source, interruption := true }⟩]
        else []) ∧
    ∃ all courses, s₀.Recounts events all ∧ (s₀.story all).Follows courses ∧
      (Network.channelAt s .strategy).messages.map some = courses.map (·.matrix?) ∧
      (Network.channelAt s .tradingMode).messages.Perm (courses.filterMap Course.request?) ∧
      ∀ c ∈ courses, ∃ pair, settings.pairs[c.task]? = some pair ∧
        (∀ m ∈ c.matrix?, m.key = { symbol := pair.1 }) ∧
        ∀ m ∈ c.request?, m.key = { symbol := pair.1 } := by
  intro s posted
  obtain ⟨all, courses, hrecounts, haccounts, hfollows, hmatrices, hrequests⟩ :=
    exists_account (.built hbuild) (publishes_build hbuild) hproper
  -- the tasks and the symbols are those of the beginning, whatever was handled since
  have hroster : s.shared.roster = s₀.shared.roster := by
    rw [hrecounts.tells.shared_eq]
    exact haccounts.grows.roster_eq
  have hflowing := (World.built hbuild).flowing_after events
  refine ⟨hdistinct.pairs, pair?_build hbuild hroster, fun i label m hm => ?_,
    fun i pair hi => exists_processed hbuild hproper hrecounts hdistinct hi,
    fun places hplaces => ?_, ?_, fun pair hpair symbol t update => ?_,
    fun pair hpair symbol source => ?_,
    all, courses, hrecounts, hfollows, hmatrices, hrequests,
    fun c hc => keys_build hbuild haccounts hfollows hc⟩
  · obtain ⟨people, hevaluation, -, hestablished⟩ := exists_established hbuild hproper
    rcases (hestablished .evaluation).label_of_begunBy hm with ⟨subscription, hi⟩ | ⟨-, hlistens⟩
    · rw [hevaluation, List.getElem?_mapIdx] at hi
      obtain ⟨pair, hpair, heq⟩ := Option.map_eq_some_iff.1 hi
      exact .inr ⟨(Prod.mk.inj heq).1.symm, (List.getElem?_eq_some_iff.1 hpair).1⟩
    · exact .inl hlistens
  · rw [after_turns]
    exact (hflowing.turns Engine.governs places).2 hplaces
  · rw [hrecounts.messages_eq, (raises_build hbuild hrecounts).candles, hrecounts.posts_on]
  · rw [led_candle (hdistinct.ne_wildcard hpair)]
    split
    · next heq =>
      rw [heq]
      rfl
    · rfl
  · rw [filterMap_led_interrupt hbuild hdistinct hroster hpair]
    split
    · next heq =>
      rw [heq]
      rfl
    · rfl

end Routed

/-! ## Two symbols -/

/-- Two symbols in two time frames each, with queues for one message. -/
def routedSettings : Settings ℚ where
  exchangeName := "sim"
  symbols := ["BTC/USDT", "ETH/USDT"]
  timeFrames := [.oneHour, .oneDay]
  backtesting := false
  saveEvaluations := false
  exportDir := "."
  queueSize := 1
  tradeFilterSize := 1
  mostCandles := 10
  mostTrades := 10
  mostOrders := 10
  matchWindow := 10
  candleLimit := 10
  longestSleepSecs := 1
  ordersPeriodSecs := 60
  tickerPeriodSecs := 10
  bookPeriodSecs := 5
  tradesPeriodSecs := 5
  balancePeriodSecs := 30
  makerFee := 0
  takerFee := 0
  startingBalances := []

/-- An exchange with candles of one pair. -/
def routedExchange : ScriptedExchange ℚ :=
  ({} : ScriptedExchange ℚ).queueCandles "ETH/USDT" .oneDay [⟨0, 1, 1, 1, 1, 1⟩]

/-- The candles are refreshed, the other symbol is interrupted, and then everybody takes turns. -/
def routedEvents : List (SessionEvent (ScriptedExchange ℚ) ℚ) :=
  .refreshPair "ETH/USDT" .oneDay :: .interrupt "BTC/USDT" "news" :: List.replicate 60 (.turn 1)

/-- Both tasks of the symbol that was interrupted have begun with one trigger, and of the others the
one whose candles were refreshed. -/
theorem evaluation_routed_interrupted :
    ∃ s₀, build routedSettings .standard routedExchange { place := "" } {} = .ok s₀ ∧
      (List.range 4).map (fun i =>
        ((Network.channelAt (s₀.after routedEvents) .evaluation).begunBy i).length)
        = [1, 1, 0, 1] := by
  obtain ⟨s₀, hs₀⟩ : ∃ s₀ : Session (ScriptedExchange ℚ) ℚ, s₀ =
      (List.range 4).foldl followTask ((followTrades
        { shared := engine routedSettings .standard routedExchange { place := "" } {}
          channels := freshChannels 1 1 }).followTrader 0) := ⟨_, rfl⟩
  have hbuild : build routedSettings .standard routedExchange { place := "" } {} = .ok s₀ := by
    exact build_eq_ok_iff.2 ⟨rfl, hs₀⟩
  have hdistinct : routedSettings.Distinct := ⟨by decide, by decide, by decide⟩
  have hproper : ∀ event ∈ routedEvents, event.Proper := by
    intro event hevent
    simp only [routedEvents, List.mem_cons, List.mem_replicate] at hevent
    rcases hevent with rfl | rfl | ⟨-, rfl⟩ <;> trivial
  obtain ⟨-, -, -, hprocessed, -⟩ := evaluation_routed hbuild hdistinct hproper
  -- after the turns nothing is left to do, so the counts are exact
  have hready : (s₀.after routedEvents).ready = [] := by
    rw [hs₀]
    decide +kernel
  have hlength : ∀ i pair, routedSettings.pairs[i]? = some pair →
      ((Network.channelAt (s₀.after routedEvents) .evaluation).begunBy i).length
        = ((s₀.allPosts routedEvents).filterMap (led pair)).length := by
    intro i pair hi
    obtain ⟨processed, hbegun, -, hperm⟩ := hprocessed i pair hi
    rw [hbegun, List.length_map, (hperm hready).length_eq]
  refine ⟨s₀, hbuild, ?_⟩
  have hlengths : (List.range 4).map (fun i =>
      ((Network.channelAt (s₀.after routedEvents) .evaluation).begunBy i).length)
      = routedSettings.pairs.map fun pair =>
        ((s₀.allPosts routedEvents).filterMap (led pair)).length := by
    simp only [List.range_succ, List.range_zero, List.nil_append, List.cons_append, List.map_cons,
      List.map_nil, hlength 0 _ rfl, hlength 1 _ rfl, hlength 2 _ rfl, hlength 3 _ rfl]
    rfl
  rw [hlengths, hs₀]
  decide +kernel

end Session

end MarketEngine
