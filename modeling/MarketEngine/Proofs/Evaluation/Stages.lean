import MarketEngine.Engine.Handlers
import MarketEngine.Proofs.Channel.Activity
import MarketEngine.Proofs.Lists
/-!
# The stages of a cycle

What the stages of a cycle can come to. The beginning decides whether the trigger is accepted
(`Engine.beginCycle_spec`), the conclusion counts the cycle (`Engine.conclude_spec`), and everything
else that consumers do leaves the cycles of all tasks alone (`Engine.Aside`).
-/

namespace MarketEngine

variable {σ α : Type}

namespace Engine

/-! ## What cycles depend on -/

/-- Which evaluation every task belongs to, and the symbol and the time frames of every
evaluation. -/
def layout (e : Engine σ α) : List Nat × List (Symbol × List TimeFrame) :=
  (e.tasks.map (·.owner), e.evaluations.map fun s => (s.symbol, s.timeFrames))

/-- A change that has nothing to do with cycles. -/
structure Aside (e e' : Engine σ α) : Prop where
  tasks_eq : e'.tasks = e.tasks
  counts_eq : e'.feed.counts = e.feed.counts
  layout_eq : e'.layout = e.layout

theorem Aside.refl (e : Engine σ α) : e.Aside e := ⟨rfl, rfl, rfl⟩

/-- Whether a trigger of a task is accepted now. -/
def accepts (e : Engine σ α) (i : Nat) (trigger : Trigger) : Bool :=
  ((e.tasks[i]?).bind fun t =>
    (e.ownerOf? t).map fun s => t.accepts (e.isInitialized s) trigger).getD false

/-- Whether a trigger is accepted is up to its task and to whether the evaluation has read its
candles. -/
theorem accepts_eq {e : Engine σ α} {i : Nat} {t : EvaluationTask} {s : SymbolEvaluation α}
    (ht : e.tasks[i]? = some t) (hs : e.ownerOf? t = some s) (trigger : Trigger) :
    e.accepts i trigger = t.accepts (e.isInitialized s) trigger := by
  simp [accepts, ht, hs]

/-- Only a task that is there and belongs to an evaluation accepts a trigger. -/
theorem exists_of_accepts {e : Engine σ α} {i : Nat} {trigger : Trigger}
    (h : e.accepts i trigger = true) :
    ∃ t s, e.tasks[i]? = some t ∧ e.ownerOf? t = some s ∧
      t.accepts (e.isInitialized s) trigger = true := by
  cases ht : e.tasks[i]? with
  | none => simp [accepts, ht] at h
  | some t =>
    cases hs : e.ownerOf? t with
    | none => simp [accepts, ht, hs] at h
    | some s => exact ⟨t, s, rfl, hs, by rwa [accepts_eq ht hs] at h⟩

/-- An evaluation has read its candles once every time frame was refreshed. -/
theorem isInitialized_eq {e : Engine σ α} {s : SymbolEvaluation α} :
    e.isInitialized s = true ↔ ∀ t ∈ s.timeFrames, 0 < e.feed.refreshedTimes s.symbol t := by
  simp [isInitialized, CandleFeed.allRefreshed, Nat.pos_iff_ne_zero]

/-! ## Reading candles -/

/-- The pair that is read, if the exchange answers. -/
def answered [Exchange σ α] (e : Engine σ α) (symbol : Symbol) (t : TimeFrame) :
    List (Symbol × TimeFrame) :=
  if (e.refreshCandles symbol t).2.isOk then [(symbol, t)] else []

/-- What a change of the feed's counts comes to when these pairs were read. -/
def Reads (read : List (Symbol × TimeFrame)) (e e' : Engine σ α) : Prop :=
  ∀ symbol t, e'.feed.refreshedTimes symbol t
    = e.feed.refreshedTimes symbol t + read.count (symbol, t)

/-- Candles are read and counted, or the exchange fails and the feed stays as it was. -/
theorem refresh_cases [Exchange σ α] (f : CandleFeed) (m : Market α) (ex : σ) (symbol : Symbol)
    (t : TimeFrame) :
    (∃ cause ex', f.refresh m ex symbol t = (.error cause, (f, m), ex')) ∨
    ∃ last m' ex', f.refresh m ex symbol t = (.ok last, (f.noteRefresh symbol t, m'), ex') := by
  unfold CandleFeed.refresh
  split
  · exact .inl ⟨_, _, rfl⟩
  · exact .inr ⟨_, _, _, rfl⟩

/-- A refresh that is noted counts for its pair only. -/
theorem refreshedTimes_noteRefresh (f : CandleFeed) (symbol symbol' : Symbol) (t t' : TimeFrame) :
    (f.noteRefresh symbol t).refreshedTimes symbol' t'
      = f.refreshedTimes symbol' t' + [(symbol, t)].count (symbol', t') := by
  simp only [CandleFeed.noteRefresh, CandleFeed.record, CandleFeed.refreshedTimes,
    Table.get?_modify]
  by_cases hpair : (symbol', t') = (symbol, t)
  · rw [Prod.mk.injEq] at hpair
    simp [hpair.1, hpair.2]
  · have hne : ((symbol', t') == (symbol, t)) = false := beq_eq_false_iff_ne.2 hpair
    have hne' : ((symbol, t) == (symbol', t')) = false := beq_eq_false_iff_ne.2 (Ne.symm hpair)
    rw [hne, List.count_singleton, hne']
    simp

/-- Reading candles counts one refresh of the pair if the exchange answers, and none if it does not.
Tasks and evaluations stay as they are. -/
theorem refreshCandles_spec [Exchange σ α] (e : Engine σ α) (symbol : Symbol) (t : TimeFrame) :
    e.Reads (e.answered symbol t) (e.refreshCandles symbol t).1 ∧
      (e.refreshCandles symbol t).1.tasks = e.tasks ∧
      (e.refreshCandles symbol t).1.evaluations = e.evaluations := by
  rcases refresh_cases e.feed e.market e.exchange symbol t with ⟨cause, ex, h⟩ | ⟨last, m, ex, h⟩
  · simp [answered, refreshCandles, h, Reads, Except.isOk, Except.toBool]
  · refine ⟨fun symbol' t' => ?_, by simp [refreshCandles, h], by simp [refreshCandles, h]⟩
    simp only [answered, refreshCandles, h, Except.isOk, Except.toBool, if_true]
    exact refreshedTimes_noteRefresh e.feed symbol symbol' t t'

/-! ## The stages -/

section Stages

variable [Amount α] [Written α]

/-- A cycle is over: it is counted, whether or not its export failed. -/
structure Concludes (e : Engine σ α) (i : Nat) (outcome : Outcome σ α) : Prop where
  done : ∃ failure, outcome.1 = .done failure
  tasks_eq : outcome.2.tasks = e.tasks.modify i fun t => { t with cycles := t.cycles + 1 }
  counts_eq : outcome.2.feed.counts = e.feed.counts
  layout_eq : outcome.2.layout = e.layout

omit [Amount α] [Written α] in
/-- A task that is changed keeps its place if its owner stays. -/
theorem layout_modifyTask (e : Engine σ α) (i : Nat) {f : EvaluationTask → EvaluationTask}
    (hf : ∀ t, (f t).owner = t.owner) : (e.modifyTask i f).layout = e.layout := by
  simp only [layout, modifyTask, map_modify hf]

omit [Amount α] [Written α] in
/-- An evaluation that is changed keeps its place if its symbol and its time frames stay. -/
theorem layout_modifyEvaluation (e : Engine σ α) (n : Nat)
    {f : SymbolEvaluation α → SymbolEvaluation α}
    (hf : ∀ s, ((f s).symbol, (f s).timeFrames) = (s.symbol, s.timeFrames)) :
    (e.modifyEvaluation n f).layout = e.layout := by
  simp only [layout, modifyEvaluation,
    map_modify (g := fun s : SymbolEvaluation α => (s.symbol, s.timeFrames)) hf]

/-- The conclusion of a cycle counts it, and otherwise leaves all but the exports alone. -/
theorem conclude_eq (e : Engine σ α) (i : Nat) :
    ∃ failure exporter folder, e.conclude i = (.done failure,
      { e.modifyTask i (fun t => { t with cycles := t.cycles + 1 }) with exporter, folder }) := by
  unfold conclude
  simp only
  split
  · exact ⟨none, _, _, rfl⟩
  · split
    · exact ⟨none, _, _, rfl⟩
    · split
      · split
        · next exported hexport =>
          unfold exportTask at hexport
          split at hexport
          · cases hexport
            exact ⟨none, _, _, rfl⟩
          · cases hexport
        · exact ⟨_, _, _, rfl⟩
      · exact ⟨none, _, _, rfl⟩

/-- The end of a cycle counts it, also if its export fails. -/
theorem conclude_spec (e : Engine σ α) (i : Nat) : e.Concludes i (e.conclude i) := by
  obtain ⟨failure, exporter, folder, h⟩ := e.conclude_eq i
  rw [h]
  exact ⟨⟨failure, rfl⟩, rfl, rfl, e.layout_modifyTask i fun _ => rfl⟩

/-- The verdicts are handed on first, or the cycle is over at once. -/
theorem handOnVerdicts_cases (e : Engine σ α) (i : Nat) (trigger : Trigger) :
    (∃ m, e.handOnVerdicts i trigger = (.send .tradingMode m (.conclusion i), e)) ∨
      e.handOnVerdicts i trigger = e.conclude i := by
  unfold handOnVerdicts
  simp only
  split
  · exact .inl ⟨_, rfl⟩
  · exact .inr rfl

omit [Written α] in
/-- The turns of the evaluators write to the matrix. -/
theorem aside_evaluateTask (e : Engine σ α) (t : EvaluationTask) (s : SymbolEvaluation α)
    (source : String) : e.Aside (e.evaluateTask t s source) where
  tasks_eq := rfl
  counts_eq := rfl
  layout_eq := e.layout_modifyEvaluation t.owner fun _ => rfl

omit [Amount α] [Written α] in
/-- A task has its evaluation as long as the layout stays. -/
theorem exists_owner {e e' : Engine σ α} (h : e'.layout = e.layout) {t : EvaluationTask}
    {s : SymbolEvaluation α} (hs : e.ownerOf? t = some s) :
    ∃ s', e'.ownerOf? t = some s' ∧ s'.symbol = s.symbol ∧ s'.timeFrames = s.timeFrames := by
  have hsame := congrArg (·[t.owner]?) (congrArg Prod.snd h)
  simp only [layout, List.getElem?_map] at hsame
  rw [show e.evaluations[t.owner]? = some s from hs, Option.map_some] at hsame
  obtain ⟨s', hs', heq⟩ := Option.map_eq_some_iff.1 hsame
  rw [Prod.mk.injEq] at heq
  exact ⟨s', hs', heq.1, heq.2⟩

variable [Exchange σ α]

/-- The pairs that a call reads, where it is accepted and asked to. -/
def forced (e : Engine σ α) (i : Nat) (trigger : Trigger) : List (Symbol × TimeFrame) :=
  match e.tasks[i]? with
  | none => []
  | some t =>
    match e.ownerOf? t with
    | none => []
    | some s =>
      if t.accepts (e.isInitialized s) trigger && (trigger.forceRefresh && t.refreshes) then
        e.answered s.symbol t.timeFrame
      else []

/-- What the beginning of a call can come to. -/
inductive Begin (e : Engine σ α) (i : Nat) (trigger : Trigger) :
    List (Symbol × TimeFrame) → Outcome σ α → Prop where
  | dropped (hdropped : e.accepts i trigger = false) : Begin e i trigger [] (.done, e)
  | accepted {read : List (Symbol × TimeFrame)} {e' : Engine σ α} {outcome : Outcome σ α}
    (haccepted : e.accepts i trigger = true) (hreads : e.Reads read e')
    (htasks : e'.tasks = e.tasks.modify i ({ · with started := true }))
    (hlayout : e'.layout = e.layout)
    (houtcome : (∃ m, outcome = (.send .strategy m (.verdicts i trigger), e')) ∨
      outcome = e'.handOnVerdicts i trigger) : Begin e i trigger read outcome

/-- A trigger is dropped without a trace, or a cycle begins: the task has started, its candles may
be read, and its matrix or its verdicts are handed on. -/
theorem beginCycle_spec (e : Engine σ α) (i : Nat) (trigger : Trigger) :
    e.Begin i trigger (e.forced i trigger) (e.beginCycle i trigger) := by
  unfold beginCycle forced
  cases ht : e.tasks[i]? with
  | none => exact .dropped (by simp [accepts, ht])
  | some t =>
    cases hs : e.ownerOf? t with
    | none =>
      simp only [hs]
      exact .dropped (by simp [accepts, ht, hs])
    | some s =>
      have haccepts := accepts_eq ht hs trigger
      simp only [hs]
      cases h : t.accepts (e.isInitialized s) trigger with
      | false => exact .dropped (haccepts.trans h)
      | true =>
        simp only [Bool.true_and, if_true]
        -- the engine after the candles were read, and then after the evaluators' turns
        obtain ⟨e₁, he₁⟩ : ∃ e₁, e₁ = if (trigger.forceRefresh && t.refreshes) = true then
          (e.refreshCandles s.symbol t.timeFrame).1 else e := ⟨_, rfl⟩
        obtain ⟨e₂, he₂⟩ : ∃ e₂, e₂ = (e₁.evaluateTask t s trigger.source).modifyTask i
          ({ · with started := true }) := ⟨_, rfl⟩
        rw [← he₁, ← he₂]
        have hread : e.Reads (if (trigger.forceRefresh && t.refreshes) = true then
            e.answered s.symbol t.timeFrame else []) e₁ ∧
            e₁.tasks = e.tasks ∧ e₁.evaluations = e.evaluations := by
          by_cases hforce : (trigger.forceRefresh && t.refreshes) = true
          · rw [he₁, if_pos hforce, if_pos hforce]
            exact e.refreshCandles_spec s.symbol t.timeFrame
          · rw [he₁, if_neg hforce, if_neg hforce]
            exact ⟨fun _ _ => by simp, rfl, rfl⟩
        have haside := e₁.aside_evaluateTask t s trigger.source
        have hlayout : e₂.layout = e.layout := by
          rw [he₂, layout_modifyTask _ i (f := ({ · with started := true })) fun _ => rfl,
            haside.layout_eq]
          simp only [layout, hread.2.1, hread.2.2]
        have htasks : e₂.tasks = e.tasks.modify i ({ · with started := true }) := by
          rw [he₂, ← hread.2.1]
          rfl
        have hreads := hread.1
        obtain ⟨s', hs', -⟩ := exists_owner hlayout hs
        refine .accepted (haccepts.trans h) ?_ htasks hlayout ?_
        · rw [he₂]
          exact hreads
        · simp only [hs']
          split
          · exact .inl ⟨_, rfl⟩
          · exact .inr rfl

/-! ## What has nothing to do with cycles -/

end Stages

end Engine

/-- The task whose cycle a stage belongs to, if it does to one. -/
def Stage.task? : Stage α → Option Nat
  | .verdicts i _ => some i
  | .conclusion i => some i
  | .matching _ => none
  | .nothing => none

/-- The call that a message is for its consumer, if it is one. -/
def Role.call? (role : Role) (m : Message (Payload α)) : Option (Nat × Trigger) :=
  match role, m.payload with
  | .cycles i, .trigger trigger => some (i, trigger)
  | _, _ => none

/-- A consumer that runs no cycles. -/
def Role.Passive (role : Role) : Prop := ∀ i, role ≠ .cycles i

/-- To a consumer that runs no cycles no message is a call. -/
theorem Role.Passive.call?_eq_none {role : Role} (h : role.Passive) (m : Message (Payload α)) :
    role.call? m = none := by
  unfold Role.call?
  split
  · exact absurd rfl (h _)
  · rfl

namespace Engine

/-- The symbol and the time frame of a task. -/
def pair? (e : Engine σ α) (i : Nat) : Option (Symbol × TimeFrame) := do
  let t ← e.tasks[i]?
  let s ← e.ownerOf? t
  return (s.symbol, t.timeFrame)

end Engine

/-- The trigger that somebody sends who begins with a message that is no call: that of its task, if
candles were refreshed. -/
def Role.raised (e : Engine σ α) : Role → List (Message (Payload α))
  | .refreshes i => ((e.pair? i).map fun pair => Engine.triggerMessage pair.1 pair.2
      { source := Engine.refreshSource, finalize := true }).toList
  | _ => []

namespace Engine

/-- What changes nothing about cycles, and leaves nothing to do for one. -/
def Apart (e : Engine σ α) (outcome : Outcome σ α) : Prop :=
  e.Aside outcome.2 ∧ ∀ stage ∈ outcome.1.rests, stage.task? = none

/-- Besides, nothing is read, written to a matrix or exported, and only these triggers are sent. -/
structure Neutral (e : Engine σ α) (raised : List (Message (Payload α))) (outcome : Outcome σ α) :
    Prop where
  tasks_eq : outcome.2.tasks = e.tasks
  evaluations_eq : outcome.2.evaluations = e.evaluations
  feed_eq : outcome.2.feed = e.feed
  exporter_eq : outcome.2.exporter = e.exporter
  folder_eq : outcome.2.folder = e.folder
  sends_eq : outcome.1.sends = raised.map (.evaluation, ·)
  rests : ∀ stage ∈ outcome.1.rests, stage.task? = none

/-- What reads, writes and exports nothing changes nothing about cycles. -/
theorem Neutral.apart {e : Engine σ α} {raised : List (Message (Payload α))}
    {outcome : Outcome σ α} (h : e.Neutral raised outcome) : e.Apart outcome :=
  ⟨⟨h.tasks_eq, by rw [h.feed_eq], by simp only [layout, h.tasks_eq, h.evaluations_eq]⟩, h.rests⟩

/-- Doing nothing has nothing to do with cycles. -/
theorem neutral_refl (e : Engine σ α) : e.Neutral [] (.done, e) :=
  ⟨rfl, rfl, rfl, rfl, rfl, rfl, by simp [Next.rests]⟩

/-- Fresh candles send their task a trigger and do nothing else. -/
theorem neutral_triggerTask (e : Engine σ α) (i : Nat) :
    e.Neutral ((Role.refreshes i).raised e) (e.triggerTask i) := by
  have hpair : (do
      let t ← e.tasks[i]?
      let s ← e.ownerOf? t
      return triggerMessage (α := α) s.symbol t.timeFrame
        { source := refreshSource, finalize := true }) = (e.pair? i).map fun pair =>
          triggerMessage pair.1 pair.2 { source := refreshSource, finalize := true } := by
    rw [pair?]
    cases e.tasks[i]? with
    | none => rfl
    | some t => cases hs : e.ownerOf? t <;> simp [hs]
  unfold triggerTask
  rw [hpair, Role.raised]
  cases e.pair? i with
  | none => exact e.neutral_refl
  | some pair => exact ⟨rfl, rfl, rfl, rfl, rfl, rfl, by simp [Next.rests, Stage.task?]⟩

variable [Amount α] [Exchange σ α]

/-- A matching that goes on has nothing to do with cycles. -/
theorem neutral_goOnMatching (e : Engine σ α) (w : SuspendedPass α) :
    e.Neutral [] (e.goOnMatching w) := by
  unfold goOnMatching resumePass
  rcases w.resume e.desk e.exchange with ⟨⟨desk, left⟩, exchange⟩
  cases left with
  | none => exact ⟨rfl, rfl, rfl, rfl, rfl, rfl, by simp [Next.rests]⟩
  | some w' => exact ⟨rfl, rfl, rfl, rfl, rfl, rfl, by simp [Next.rests, Stage.task?]⟩

variable [Written α]

/-- A consumer that runs cycles begins one with a trigger. -/
theorem startMessage_of_call {role : Role} {m : Message (Payload α)} {i : Nat} {trigger : Trigger}
    (h : role.call? m = some (i, trigger)) (e : Engine σ α) :
    startMessage role m e = e.beginCycle i trigger := by
  unfold Role.call? at h
  split at h
  · next i' trigger' hpayload =>
    rw [Option.some.injEq, Prod.mk.injEq] at h
    rw [← h.1, ← h.2]
    simp only [startMessage, hpayload]
  · simp at h

/-- A message that is no call has nothing to do with cycles. -/
theorem neutral_startMessage {role : Role} {m : Message (Payload α)} (h : role.call? m = none)
    (e : Engine σ α) : e.Neutral (role.raised e) (startMessage role m e) := by
  unfold startMessage
  split
  · exact ⟨rfl, rfl, rfl, rfl, rfl, rfl, by simp [Next.rests]⟩
  · split
    · exact e.neutral_refl
    · exact e.neutral_goOnMatching _
  · exact ⟨rfl, rfl, rfl, rfl, rfl, rfl, by simp [Next.rests]⟩
  · exact ⟨rfl, rfl, rfl, rfl, rfl, rfl, by simp [Next.rests]⟩
  · next i trigger hpayload => simp [Role.call?, hpayload] at h
  · exact e.neutral_triggerTask _
  · next _ _ hrefreshes _ _ _ =>
    unfold Role.raised
    split
    · exact absurd rfl (hrefreshes _)
    · exact e.neutral_refl

/-- A stage of no cycle has nothing to do with cycles. -/
theorem neutral_resumeStage {stage : Stage α} (h : stage.task? = none) (e : Engine σ α) :
    e.Neutral [] (resumeStage stage e) := by
  cases stage with
  | verdicts i trigger => simp [Stage.task?] at h
  | conclusion i => simp [Stage.task?] at h
  | matching w => exact e.neutral_goOnMatching w
  | nothing => exact e.neutral_refl

end Engine

end MarketEngine
