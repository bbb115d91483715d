import MarketEngine.Engine.Session
import MarketEngine.Proofs.Channel.Stable
import MarketEngine.Proofs.Evaluation.Acceptance
import MarketEngine.Exchange.Scripted
import MarketEngine.Proofs.Exact
/-!
# Calls with triggers

A call with a trigger answers `false` and changes nothing if the trigger is dropped, and else runs a
cycle to its end, while consumers do whatever they have to do. Whether it is dropped depends on the
history of the engine that the session shows (`CycleRun.Explains`), and after the call there is a
history that goes on with it, in which every accepted trigger has its cycle
(`Session.process_acceptance`).
-/

namespace MarketEngine

variable {σ α : Type}

/-- A session shows an engine with this history: its consumers are in the midst of what is under
way. -/
structure CycleRun.Explains (r : CycleRun σ α) (s : Session σ α) : Prop where
  engine_eq : s.shared = r.engine
  perm : s.rests.Perm r.underWay
  orderly : Network.Orderly s

namespace CycleRun

variable [Amount α] [Written α] [Exchange σ α]

variable {roles : Role → Prop}

/-- From the inside, the history goes on to this engine with this under way. -/
def Continues (roles : Role → Prop) (r : CycleRun σ α) (e : Engine σ α)
    (rests : List (Stage α)) : Prop :=
  ∃ more : List (CycleEvent σ α), (∀ event ∈ more, event.Inside roles) ∧
    (r.run more).engine = e ∧ rests.Perm (r.run more).underWay

/-- A history that goes on is told in one piece or in two. -/
theorem run_append (r : CycleRun σ α) (events more : List (CycleEvent σ α)) :
    r.run (events ++ more) = (r.run events).run more := List.foldl_append

/-- A message that a consumer handles leads to what the consumer does with it. -/
theorem message_spec (r : CycleRun σ α) (role : Role) (m : Message (Payload α)) :
    (r.message role m).engine = (Engine.startMessage role m r.engine).2 ∧
      (r.message role m).underWay
        = r.underWay ++ (Engine.startMessage role m r.engine).1.rests := by
  unfold message
  split
  · next i trigger hcall =>
    rw [Engine.startMessage_of_call hcall]
    exact ⟨rfl, rfl⟩
  · exact ⟨rfl, rfl⟩

omit [Amount α] [Written α] [Exchange σ α] in
/-- One more event from the inside leaves a history from the inside. -/
theorem inside_append {more : List (CycleEvent σ α)} (h : ∀ event ∈ more, event.Inside roles)
    (event : CycleEvent σ α) (hevent : event.Inside roles) :
    ∀ event' ∈ more ++ [event], event'.Inside roles := by
  intro event' hmem
  rcases List.mem_append.1 hmem with hold | hnew
  · exact h event' hold
  · rwa [List.mem_singleton.1 hnew]

/-- Whatever consumers do belongs to the history. -/
theorem keeps_continues (r : CycleRun σ α) :
    Network.Keeps Engine.handlers roles (r.Continues roles) where
  perm hperm := fun ⟨more, hinside, hengine, hrests⟩ =>
    ⟨more, hinside, hengine, hperm.symm.trans hrests⟩
  start {role} hrole m s rests := by
    rintro ⟨more, hinside, rfl, hrests⟩
    obtain ⟨hengine, hunderWay⟩ := message_spec (r.run more) role m
    refine ⟨more ++ [.message role m], inside_append hinside (.message role m) hrole, ?_, ?_⟩
    · rw [run_append]
      exact hengine
    · rw [run_append]
      change List.Perm _ ((r.run more).message role m).underWay
      rw [hunderWay]
      exact hrests.append_right _
  resume rest {s rests} := by
    rintro ⟨more, hinside, rfl, hrests⟩
    -- the history has the stage somewhere among those under way
    obtain ⟨n, hn, rfl⟩ := List.getElem_of_mem (hrests.subset List.mem_cons_self)
    have herased := (List.getElem_cons_eraseIdx_perm hn).trans hrests.symm
    have hgoOn : (r.run more).goOn n = { r.run more with
        engine := (Engine.resumeStage (r.run more).underWay[n] (r.run more).engine).2
        underWay := (r.run more).underWay.eraseIdx n
          ++ (Engine.resumeStage (r.run more).underWay[n] (r.run more).engine).1.rests } := by
      rw [goOn, List.getElem?_eq_getElem hn]
    refine ⟨more ++ [.goOn n], inside_append hinside (.goOn n) trivial, ?_, ?_⟩
    · rw [run_append]
      change ((r.run more).goOn n).engine = _
      rw [hgoOn]
      rfl
    · rw [run_append]
      change List.Perm _ ((r.run more).goOn n).underWay
      rw [hgoOn]
      exact ((List.perm_cons _).1 herased).symm.append_right _

end CycleRun

namespace Session

variable [Amount α] [Written α] [Exchange σ α]

/-! ## The answer of a call -/

/-- A call begins a cycle and handles it to its end. Its answer is the failure, or whether the
trigger was accepted. -/
theorem process_eq (s : Session σ α) (i : Nat) (trigger : Trigger) :
    s.process i trigger
      = ((Network.handle Engine.handlers 2 s (s.shared.beginCycle i trigger)).1,
        match (Network.handle Engine.handlers 2 s (s.shared.beginCycle i trigger)).2 with
        | none => .ok (s.shared.accepts i trigger)
        | some failure => .error failure) := by
  have haccepts : (do
      let t ← s.shared.tasks[i]?
      let owner ← s.shared.ownerOf? t
      return t.accepts (s.shared.isInitialized owner) trigger : Option Bool).getD false
      = s.shared.accepts i trigger := by
    rw [Engine.accepts]
    cases s.shared.tasks[i]? with
    | none => rfl
    | some t =>
      simp only [Option.bind_eq_bind, Option.bind_some]
      cases s.shared.ownerOf? t <;> rfl
  unfold process
  simp only [haccepts]
  rcases Network.handle Engine.handlers 2 s (s.shared.beginCycle i trigger) with ⟨s', failure⟩
  cases failure <;> rfl

/-- A trigger that is dropped changes nothing at all. -/
theorem process_of_dropped {s : Session σ α} {i : Nat} {trigger : Trigger}
    (h : s.shared.accepts i trigger = false) : s.process i trigger = (s, .ok false) := by
  have hbegin := s.shared.beginCycle_spec i trigger
  rw [process_eq, h]
  generalize s.shared.beginCycle i trigger = outcome at hbegin ⊢
  generalize s.shared.forced i trigger = read at hbegin
  cases hbegin with
  | dropped => rfl
  | accepted haccepted => simp [h] at haccepted

/-- An accepted trigger is not answered as a dropped one. -/
theorem process_of_accepted {s : Session σ α} {i : Nat} {trigger : Trigger}
    (h : s.shared.accepts i trigger = true) : (s.process i trigger).2 ≠ .ok false := by
  rw [process_eq, h]
  split <;> simp

/-- The answer of a call says whether its trigger was accepted. -/
theorem process_ne_iff (s : Session σ α) (i : Nat) (trigger : Trigger) :
    (s.process i trigger).2 ≠ .ok false ↔ s.shared.accepts i trigger = true := by
  cases h : s.shared.accepts i trigger with
  | false => simp [process_of_dropped h]
  | true => simp [process_of_accepted h]

/-! ## A cycle from outside -/

variable {roles : Role → Prop}

section Handling

variable {P : Engine σ α → List (Stage α) → Prop}

/-- While a stage waits until its message was sent, consumers do what they have to do. -/
theorem holds_sending (hP : Network.Keeps Engine.handlers roles P) {s : Session σ α}
    (hs : Network.Orderly s) (hroles : Network.Staffed roles s) {e : Engine σ α}
    {stage : Stage α} (he : P e (s.rests ++ [stage])) (topic : Topic)
    (m : Message (Payload α)) :
    Network.Holds roles (fun e rests => P e (stage :: rests))
      (Network.sendAndAwait Engine.handlers { s with shared := e } topic m) := by
  -- the stage belongs to the caller, not to a consumer
  have hbefore : Network.Holds roles (fun e rests => P e (stage :: rests))
      ({ s with shared := e } : Session σ α) :=
    ⟨hs, hroles, hP.perm (List.perm_append_singleton stage _) he⟩
  exact (hP.cons stage).sendAndAwait hbefore topic m

/-- The property holds on after the end of a cycle from outside. -/
theorem holds_conclude (n : Nat) {s : Session σ α} (hs : Network.Orderly s)
    (hroles : Network.Staffed roles s) {e : Engine σ α} {i : Nat}
    (he : P (e.conclude i).2 (s.rests ++ (e.conclude i).1.rests)) :
    Network.Holds roles P (Network.handle Engine.handlers n s (e.conclude i)).1 := by
  obtain ⟨failure, hdone⟩ := (e.conclude_spec i).done
  rcases hconclude : e.conclude i with ⟨next, e'⟩
  rw [hconclude] at hdone he
  obtain rfl : next = .done failure := hdone
  have he' : P e' s.rests := by simpa [Next.rests] using he
  cases n <;> exact ⟨hs, hroles, he'⟩

/-- The property holds on when a cycle from outside hands on its verdicts and ends. -/
theorem holds_handOn (hP : Network.Keeps Engine.handlers roles P) (n : Nat) {s : Session σ α}
    (hs : Network.Orderly s) (hroles : Network.Staffed roles s) {e : Engine σ α} {i : Nat}
    {trigger : Trigger}
    (he : P (e.handOnVerdicts i trigger).2 (s.rests ++ (e.handOnVerdicts i trigger).1.rests)) :
    Network.Holds roles P
      (Network.handle Engine.handlers (n + 1) s (e.handOnVerdicts i trigger)).1 := by
  rcases e.handOnVerdicts_cases i trigger with ⟨m, hsend⟩ | hconclude
  · rw [hsend] at he ⊢
    have hsent := holds_sending hP hs hroles he .tradingMode m
    refine holds_conclude n hsent.orderly hsent.staffed
      (hP.resume (.conclusion i) hsent.holds)
  · rw [hconclude] at he ⊢
    exact holds_conclude (n + 1) hs hroles he

/-- A call comes to its end with what its beginning and the consumers keep. -/
theorem holds_process (hP : Network.Keeps Engine.handlers roles P) {s : Session σ α}
    (hs : Network.Orderly s) (hroles : Network.Staffed roles s) {i : Nat} {trigger : Trigger}
    (he : P (s.shared.beginCycle i trigger).2
      (s.rests ++ (s.shared.beginCycle i trigger).1.rests)) :
    Network.Holds roles P (s.process i trigger).1 := by
  rw [process_eq]
  have hbegin := s.shared.beginCycle_spec i trigger
  generalize s.shared.beginCycle i trigger = outcome at hbegin he ⊢
  generalize s.shared.forced i trigger = read at hbegin
  cases hbegin with
  | dropped =>
    have he' : P s.shared s.rests := by simpa [Next.rests] using he
    exact ⟨hs, hroles, he'⟩
  | accepted _ _ _ _ houtcome =>
    rcases houtcome with ⟨m, rfl⟩ | rfl
    · have hsent := holds_sending hP hs hroles he .strategy m
      exact holds_handOn hP 0 hsent.orderly hsent.staffed
        (hP.resume (.verdicts i trigger) hsent.holds)
    · exact holds_handOn hP 1 hs hroles he

end Handling

/-! ## Sessions with a history -/

section Histories

variable {r : CycleRun σ α} {s : Session σ α}

omit [Amount α] [Written α] [Exchange σ α] in
/-- A session without anything under way shows its engine with no history. -/
theorem explains_fresh (hs : s.pending = []) :
    ({ engine := s.shared } : CycleRun σ α).Explains s where
  engine_eq := rfl
  perm := by simp [Network.rests, hs]
  orderly := by simp [Network.Orderly, hs]

/-- A session after what consumers did has a history again. -/
theorem explains_of_holds (h : Network.Holds roles (r.Continues roles) s) :
    ∃ more, (∀ event ∈ more, event.Inside roles) ∧ (r.run more).Explains s := by
  obtain ⟨more, hinside, hengine, hrests⟩ := h.holds
  exact ⟨more, hinside, hengine.symm, hrests, h.orderly⟩

/-- A history that explains a session goes on to it without any event. -/
theorem holds_of_explains (h : r.Explains s) (hroles : Network.Staffed roles s) :
    Network.Holds roles (r.Continues roles) s :=
  ⟨h.orderly, hroles, [], by simp, h.engine_eq.symm, h.perm⟩

/-- A call belongs to the history, and so does what consumers do meanwhile. -/
theorem explains_process (h : r.Explains s) (hroles : Network.Staffed roles s) (i : Nat)
    (trigger : Trigger) :
    ∃ more, (∀ event ∈ more, event.Inside roles) ∧
      (r.run (.call i trigger :: more)).Explains (s.process i trigger).1 := by
  refine explains_of_holds (r := r.step (.call i trigger))
    (holds_process (CycleRun.keeps_continues _) h.orderly hroles ⟨[], by simp, ?_, ?_⟩)
  · rw [h.engine_eq]
    rfl
  · rw [h.engine_eq]
    exact h.perm.append_right _

/-- After a call, the cycles of the task that were counted and those that consumers are in the midst
of are as many as the triggers it accepted. -/
theorem counts_process (hr : r.Sound) (h : r.Explains s) (hroles : Network.Staffed roles s)
    {i : Nat} {t : EvaluationTask} (ht : s.shared.tasks[i]? = some t) (trigger : Trigger) :
    let s' := (s.process i trigger).1
    let underWay := (Network.rests s').countP (·.task? == some i)
    ∃ more, (∀ event ∈ more, event.Inside roles) ∧
      let r' := r.run (.call i trigger :: more)
      r'.Explains s' ∧ ∃ t', s'.shared.tasks[i]? = some t' ∧
        t'.cycles + underWay = r'.accepted.count i ∧
        (t'.started = true ↔ 0 < t'.cycles + underWay) := by
  obtain ⟨more, hinside, hexplains⟩ := explains_process h hroles i trigger
  rw [h.engine_eq] at ht
  obtain ⟨t', ht'⟩ := r.exists_task (.call i trigger :: more) ht
  have hsound := hr.run (.call i trigger :: more)
  have hcycles := hsound.cycles ht'
  rw [CycleRun.waiting, ← hexplains.perm.countP_eq] at hcycles
  refine ⟨more, hinside, hexplains, t', by rw [hexplains.engine_eq, ht'], hcycles, ?_⟩
  rw [hcycles]
  exact hsound.started ht'

end Histories

/-! ## Sessions whose consumers run no cycles -/

/-- No consumer runs cycles, and none is under way: only calls run cycles, one after the other. -/
def Quiet (s : Session σ α) : Prop :=
  Network.Holds Role.Passive (fun _ rests => ∀ stage ∈ rests, stage.task? = none) s

omit [Amount α] [Written α] [Exchange σ α] in
/-- Nobody has subscribed to a fresh channel. -/
theorem staffed_freshChannels {s : Session σ α} {queueSize tradeFilterSize : Nat}
    (h : s.channels = freshChannels queueSize tradeFilterSize) : Network.Staffed roles s := by
  intro topic c hc
  rw [Network.channel?, h, Table.get?, List.lookup_eq_some_iff] at hc
  obtain ⟨before, after, hsplit, -⟩ := hc
  have hmem : (topic, c) ∈ freshChannels queueSize tradeFilterSize := by simp [hsplit]
  obtain ⟨topic', -, heq⟩ := List.mem_map.1 hmem
  rw [Prod.mk.injEq] at heq
  rw [← heq.2]
  exact List.forall_mem_nil _

/-- Consumers that run no cycles leave nothing of a cycle under way. -/
theorem keeps_quiet : Network.Keeps Engine.handlers Role.Passive
    fun (_ : Engine σ α) rests => ∀ stage ∈ rests, stage.task? = none where
  perm hperm h stage hstage := h stage (hperm.mem_iff.2 hstage)
  start hrole m s rests h stage hstage := by
    rcases List.mem_append.1 hstage with hold | hnew
    · exact h stage hold
    · exact (Engine.neutral_startMessage (hrole.call?_eq_none m) s).rests stage hnew
  resume rest s rests h stage hstage := by
    rcases List.mem_append.1 hstage with hold | hnew
    · exact h stage (List.mem_cons_of_mem _ hold)
    · exact (Engine.neutral_resumeStage (h rest List.mem_cons_self) s).rests stage hnew

/-- A session stays quiet after a call, since the call waits for the whole cycle. -/
theorem quiet_process {s : Session σ α} (h : s.Quiet) (i : Nat) (trigger : Trigger) :
    (s.process i trigger).1.Quiet := by
  rw [process_eq]
  exact keeps_quiet.handle 2 h _

/-- In any history of calls and refreshes from a fresh engine on, a call with an interruption is
accepted if and only if the candles of all time frames of the symbol were read by then, and with
another trigger if and only if they were or the task has accepted nothing so far. So before that a
task runs one cycle at most. A call that is dropped answers `false`, leaves the session as it was
and does not count as accepted. Where only calls run cycles, a task has after a call as many cycles
as it accepted triggers, and shows as started if and only if there are any. Where consumers run
cycles meanwhile, those that they are in the midst of count too. -/
theorem process_acceptance {e : Engine σ α} (hfresh : CycleRun.Fresh e)
    (events : List (CycleEvent σ α)) {s : Session σ α}
    (hs : (({ engine := e } : CycleRun σ α).run events).Explains s) {i : Nat}
    {t : EvaluationTask} {owner : SymbolEvaluation α} (ht : s.shared.tasks[i]? = some t)
    (howner : s.shared.ownerOf? t = some owner) (trigger : Trigger) :
    let r := ({ engine := e } : CycleRun σ α).run events
    let complete := ∀ timeFrame ∈ owner.timeFrames, (owner.symbol, timeFrame) ∈ r.refreshed
    let s' := (s.process i trigger).1
    let answer := (s.process i trigger).2
    (trigger.interruption = true → (answer ≠ .ok false ↔ complete)) ∧
    (trigger.interruption = false → (answer ≠ .ok false ↔ complete ∨ i ∉ r.accepted)) ∧
    (¬complete → r.accepted.count i ≤ 1) ∧
    (answer = .ok false → s' = s ∧ (r.step (.call i trigger)).accepted = r.accepted) ∧
    (answer ≠ .ok false → (r.step (.call i trigger)).accepted = r.accepted ++ [i]) ∧
    (s.Quiet → s'.Quiet ∧ ∃ t', s'.shared.tasks[i]? = some t' ∧
      t'.cycles = (r.step (.call i trigger)).accepted.count i ∧
      (t'.started = true ↔ 0 < t'.cycles)) ∧
    ∃ more, (∀ event ∈ more, event.Inside fun _ => True) ∧
      let r' := r.run (.call i trigger :: more)
      let underWay := (Network.rests s').countP (·.task? == some i)
      r'.Explains s' ∧ ∃ t', s'.shared.tasks[i]? = some t' ∧
        t'.cycles + underWay = r'.accepted.count i ∧
        (t'.started = true ↔ 0 < t'.cycles + underWay) := by
  intro r complete s' answer
  have hsound : r.Sound := (CycleRun.sound_fresh hfresh).run events
  have htask := ht
  rw [hs.engine_eq] at ht howner
  have haccepts := hsound.accepts_iff ht howner trigger
  -- the answer shows whether the task accepted
  have hanswer : answer ≠ .ok false ↔ r.engine.accepts i trigger = true := by
    rw [process_ne_iff, hs.engine_eq]
  refine ⟨fun hinterruption => ?_, fun hinterruption => ?_, fun hincomplete => ?_,
    fun hdropped => ?_, fun haccepted => ?_, fun hquiet => ?_, ?_⟩
  · rw [hanswer, haccepts, hinterruption]
    simp [complete]
  · rw [hanswer, haccepts, hinterruption]
    simp [complete]
  · -- the second trigger of a task is accepted only when all is complete
    by_contra hmany
    exact hincomplete (hsound.once i (by omega) t owner ht howner)
  · have hrejected : r.engine.accepts i trigger = false := by
      rw [← Bool.not_eq_true, ← hanswer]
      exact fun hne => hne hdropped
    refine ⟨?_, by simp [CycleRun.step, CycleRun.call, hrejected]⟩
    rw [← hs.engine_eq] at hrejected
    exact congrArg Prod.fst (process_of_dropped hrejected)
  · simp [CycleRun.step, CycleRun.call, hanswer.1 haccepted]
  · have hquiet' := quiet_process hquiet i trigger
    obtain ⟨more, hinside, -, t', ht', hcycles, hstarted⟩ :=
      counts_process hsound hs hquiet.staffed htask trigger
    have hnone : (Network.rests s').countP (·.task? == some i) = 0 := by
      rw [List.countP_eq_zero]
      intro stage hstage
      simp [hquiet'.holds stage hstage]
    rw [hnone, Nat.add_zero] at hcycles hstarted
    rw [CycleRun.run, List.foldl_cons, ← CycleRun.run, CycleRun.accepted_run _ hinside] at hcycles
    exact ⟨hquiet', t', ht', hcycles, hstarted⟩
  · exact counts_process hsound hs (fun _ _ _ _ _ => trivial) htask trigger

/-! ## A task before its candles -/

/-- A task of a symbol with two time frames, neither of which was read. -/
def earlySession : Session (ScriptedExchange ℚ) ℚ where
  shared :=
    { exchangeName := "sim", exchange := {}, market := ⟨10, 10, []⟩
      feed := ⟨["BTC/USDT"], [.oneHour, .oneDay], 10, false, [], [], []⟩
      desk := ⟨.empty 1, ⟨[]⟩, ⟨0, 0⟩, 10, []⟩
      evaluations :=
        [{ symbol := "BTC/USDT", timeFrames := [.oneHour, .oneDay], strategies := [] }]
      tasks := [{ owner := 0, timeFrame := .oneHour, evaluators := [] }]
      exporter := { place := "" } }
  channels := freshChannels 1 1

/-- At the beginning nobody runs a cycle. -/
theorem quiet_earlySession : earlySession.Quiet where
  orderly := by simp [Network.Orderly, earlySession]
  staffed := staffed_freshChannels rfl
  holds := by simp [Network.rests, earlySession]

/-- An interruption is dropped, and the next trigger is accepted all the same: the task runs its
first cycle. -/
theorem process_acceptance_early :
    (earlySession.process 0 { source := "alarm", interruption := true }).1 = earlySession ∧
      (earlySession.process 0 { source := "feed" }).2 ≠ .ok false ∧
      ∃ t, (earlySession.process 0 { source := "feed" }).1.shared.tasks[0]? = some t ∧
        t.cycles = 1 ∧ t.started = true := by
  have hfresh : CycleRun.Fresh earlySession.shared := ⟨rfl, by simp [earlySession]⟩
  have hs : (({ engine := earlySession.shared } :
      CycleRun (ScriptedExchange ℚ) ℚ).run []).Explains earlySession := explains_fresh rfl
  obtain ⟨hinterruption, -, -, hdropped, -⟩ := process_acceptance hfresh [] hs
    (i := 0) rfl rfl { source := "alarm", interruption := true }
  obtain ⟨-, hplain, -, -, haccepted, hquiet, -⟩ := process_acceptance hfresh [] hs (i := 0)
    rfl rfl { source := "feed" }
  have hincomplete : ¬∀ timeFrame ∈ [TimeFrame.oneHour, .oneDay],
      ("BTC/USDT", timeFrame) ∈ ([] : List (Symbol × TimeFrame)) := fun h => by
    simpa using h .oneHour List.mem_cons_self
  have hnext := (hplain rfl).2 (.inr (by simp [CycleRun.run]))
  obtain ⟨-, t, ht, hcycles, hstarted⟩ := hquiet quiet_earlySession
  rw [haccepted hnext] at hcycles
  have hone : t.cycles = 1 := by simpa [CycleRun.run] using hcycles
  refine ⟨(hdropped (by_contra fun hne => hincomplete ((hinterruption rfl).1 hne))).1, hnext,
    t, ht, hone, hstarted.2 (by omega)⟩

end Session

end MarketEngine
