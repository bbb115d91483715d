import MarketEngine.Proofs.Evaluation.Stages
import Mathlib.Data.List.Count
/-!
# Which triggers are accepted

The history of an engine's cycles: calls with triggers that begin, stages that are gone on with in
any order, messages of other consumers, candles that anybody reads, and whatever else happens to the
engine (`CycleEvent`). A run keeps which pairs were read and which tasks accepted a trigger.

Acceptance depends on this history alone (`CycleRun.Sound.accepts_iff`), and the count of a task's
cycles with those still under way is the number of triggers it accepted (`CycleRun.Sound`).
-/

namespace MarketEngine

variable {σ α : Type}

/-- An engine with the history of its cycles. -/
structure CycleRun (σ α : Type) where
  engine : Engine σ α
  /-- The pairs whose candles were read, in order. -/
  refreshed : List (Symbol × TimeFrame) := []
  /-- The tasks whose triggers were accepted, in order. -/
  accepted : List Nat := []
  /-- What is left to do of calls and messages that wait. -/
  underWay : List (Stage α) := []

/-- What can happen to an engine. -/
inductive CycleEvent (σ α : Type) where
  /-- A call with a trigger of a task. -/
  | call (i : Nat) (trigger : Trigger)
  /-- A consumer begins with a message, which may be such a call. -/
  | message (role : Role) (m : Message (Payload α))
  /-- A call or a message that waits goes on. -/
  | goOn (n : Nat)
  /-- Somebody reads the candles of a pair. -/
  | refresh (symbol : Symbol) (t : TimeFrame)
  /-- Something happens that has nothing to do with cycles. -/
  | aside (f : Engine σ α → Engine σ α) (hf : ∀ e : Engine σ α, e.Aside (f e))

/-- An event is what consumers with these roles do, or how a call goes on. -/
def CycleEvent.Inside (roles : Role → Prop) : CycleEvent σ α → Prop
  | .message role _ => roles role
  | .goOn _ => True
  | _ => False

namespace CycleRun

section Steps

variable [Amount α] [Written α] [Exchange σ α]

def call (r : CycleRun σ α) (i : Nat) (trigger : Trigger) : CycleRun σ α where
  engine := (r.engine.beginCycle i trigger).2
  refreshed := r.refreshed ++ r.engine.forced i trigger
  accepted := r.accepted ++ if r.engine.accepts i trigger then [i] else []
  underWay := r.underWay ++ (r.engine.beginCycle i trigger).1.rests

def message (r : CycleRun σ α) (role : Role) (m : Message (Payload α)) : CycleRun σ α :=
  match role.call? m with
  | some (i, trigger) => r.call i trigger
  | none =>
    { r with
      engine := (Engine.startMessage role m r.engine).2
      underWay := r.underWay ++ (Engine.startMessage role m r.engine).1.rests }

def goOn (r : CycleRun σ α) (n : Nat) : CycleRun σ α :=
  match r.underWay[n]? with
  | none => r
  | some stage =>
    { r with
      engine := (Engine.resumeStage stage r.engine).2
      underWay := r.underWay.eraseIdx n ++ (Engine.resumeStage stage r.engine).1.rests }

def step (r : CycleRun σ α) : CycleEvent σ α → CycleRun σ α
  | .call i trigger => r.call i trigger
  | .message role m => r.message role m
  | .goOn n => r.goOn n
  | .refresh symbol t =>
    { r with
      engine := (r.engine.refreshCandles symbol t).1
      refreshed := r.refreshed ++ r.engine.answered symbol t }
  | .aside f _ => { r with engine := f r.engine }

def run (r : CycleRun σ α) (events : List (CycleEvent σ α)) : CycleRun σ α := events.foldl step r

end Steps

/-! ## What a run keeps -/

/-- How many cycles of a task are under way. -/
def waiting (r : CycleRun σ α) (i : Nat) : Nat := r.underWay.countP (·.task? == some i)

/-- Whether the candles of all time frames of a task's symbol were read. -/
def Covered (r : CycleRun σ α) (i : Nat) : Prop :=
  ∀ t s, r.engine.tasks[i]? = some t → r.engine.ownerOf? t = some s →
    ∀ timeFrame ∈ s.timeFrames, (s.symbol, timeFrame) ∈ r.refreshed

/-- The engine's counts and marks agree with the history. -/
structure Sound (r : CycleRun σ α) : Prop where
  counts : ∀ symbol t, r.engine.feed.refreshedTimes symbol t = r.refreshed.count (symbol, t)
  cycles : ∀ ⦃i : Nat⦄ ⦃t : EvaluationTask⦄, r.engine.tasks[i]? = some t →
    t.cycles + r.waiting i = r.accepted.count i
  started : ∀ ⦃i : Nat⦄ ⦃t : EvaluationTask⦄, r.engine.tasks[i]? = some t →
    (t.started = true ↔ 0 < r.accepted.count i)
  once : ∀ i, 1 < r.accepted.count i → r.Covered i

/-- The candles of a symbol's time frames were read if and only if the engine shows it. -/
theorem Sound.isInitialized_iff {r : CycleRun σ α} (h : r.Sound) (s : SymbolEvaluation α) :
    r.engine.isInitialized s = true ↔
      ∀ timeFrame ∈ s.timeFrames, (s.symbol, timeFrame) ∈ r.refreshed := by
  rw [Engine.isInitialized_eq]
  refine forall₂_congr fun timeFrame _ => ?_
  rw [h.counts, List.count_pos_iff]

/-- What was covered stays so while the layout stays and no history is forgotten. -/
theorem Covered.mono {r r' : CycleRun σ α} {i : Nat} (h : r.Covered i)
    (hlayout : r'.engine.layout = r.engine.layout) (hrefreshed : r.refreshed ⊆ r'.refreshed) :
    r'.Covered i := by
  intro t' s' ht' hs' timeFrame hmem
  have howners := congrArg (fun layout => layout.1[i]?) hlayout
  simp only [Engine.layout, List.getElem?_map, ht', Option.map_some] at howners
  obtain ⟨t, ht, howner⟩ := Option.map_eq_some_iff.1 howners.symm
  have hs : r'.engine.ownerOf? t = some s' := by
    rw [Engine.ownerOf?, howner]
    exact hs'
  obtain ⟨s, hs, hsymbol, htimeFrames⟩ := Engine.exists_owner hlayout.symm hs
  rw [← hsymbol]
  exact hrefreshed (h t s ht hs timeFrame (htimeFrames ▸ hmem))

/-- What an engine has before anything happened to it. -/
structure Fresh (e : Engine σ α) : Prop where
  counts_eq : e.feed.counts = []
  tasks_eq : ∀ t ∈ e.tasks, t.started = false ∧ t.cycles = 0

/-- Before anything has happened, all counts are zero and no task is marked. -/
theorem sound_fresh {e : Engine σ α} (h : Fresh e) : ({ engine := e } : CycleRun σ α).Sound where
  counts symbol t := by simp [CandleFeed.refreshedTimes, h.counts_eq, Table.get?]
  cycles i t ht := by simp [waiting, (h.tasks_eq t (List.mem_of_getElem? ht)).2]
  started i t ht := by simp [(h.tasks_eq t (List.mem_of_getElem? ht)).1]
  once i hi := by simp at hi

namespace Sound

variable {r : CycleRun σ α}

/-- Nothing about the cycles of tasks changes. -/
theorem of_aside (h : r.Sound) {e : Engine σ α} (haside : r.engine.Aside e)
    {underWay : List (Stage α)}
    (hunderWay : ∀ i, underWay.countP (·.task? == some i) = r.waiting i) :
    ({ r with engine := e, underWay } : CycleRun σ α).Sound where
  counts symbol t := by
    rw [← h.counts, CandleFeed.refreshedTimes, haside.counts_eq, CandleFeed.refreshedTimes]
  cycles i t ht := by
    rw [waiting, hunderWay]
    exact h.cycles (haside.tasks_eq ▸ ht)
  started i t ht := h.started (haside.tasks_eq ▸ ht)
  once i hi := (h.once i hi).mono haside.layout_eq (List.Subset.refl _)

/-- Candles that are read are counted for their pair. -/
theorem refresh [Exchange σ α] (h : r.Sound) (symbol : Symbol) (t : TimeFrame) :
    ({ r with
      engine := (r.engine.refreshCandles symbol t).1
      refreshed := r.refreshed ++ r.engine.answered symbol t } : CycleRun σ α).Sound := by
  obtain ⟨hreads, htasks, hevaluations⟩ := r.engine.refreshCandles_spec symbol t
  refine ⟨fun symbol' t' => ?_, fun i t ht => ?_, fun i t ht => ?_, fun i hi => ?_⟩
  · rw [hreads, h.counts, List.count_append]
  · exact h.cycles (htasks ▸ ht)
  · exact h.started (htasks ▸ ht)
  · refine (h.once i hi).mono ?_ (List.subset_append_left _ _)
    simp only [Engine.layout, htasks, hevaluations]

/-- Something happens that has nothing to do with cycles. -/
theorem apart (h : r.Sound) {outcome : Engine.Outcome σ α} (hapart : r.engine.Apart outcome)
    (underWay : List (Stage α))
    (hunderWay : ∀ i, underWay.countP (·.task? == some i) = r.waiting i) :
    ({ r with engine := outcome.2, underWay := underWay ++ outcome.1.rests } :
      CycleRun σ α).Sound := by
  refine h.of_aside hapart.1 fun i => ?_
  have hnone : outcome.1.rests.countP (·.task? == some i) = 0 := by
    rw [List.countP_eq_zero]
    intro stage hstage
    simp [hapart.2 stage hstage]
  rw [List.countP_append, hnone, Nat.add_zero, hunderWay]

/-- A task accepts a trigger, and a stage of the cycle is under way. -/
theorem accept (h : r.Sound) {i : Nat} {trigger : Trigger}
    (haccepted : r.engine.accepts i trigger = true) {e : Engine σ α}
    {read : List (Symbol × TimeFrame)} (hreads : r.engine.Reads read e)
    (htasks : e.tasks = r.engine.tasks.modify i ({ · with started := true }))
    (hlayout : e.layout = r.engine.layout) (stage : Stage α) (hstage : stage.task? = some i) :
    ({ engine := e, refreshed := r.refreshed ++ read, accepted := r.accepted ++ [i]
       underWay := r.underWay ++ [stage] } : CycleRun σ α).Sound := by
  -- every task is what it was, apart from the mark
  have hold : ∀ {j : Nat} {t' : EvaluationTask}, e.tasks[j]? = some t' →
      ∃ t, r.engine.tasks[j]? = some t ∧ t'.cycles = t.cycles ∧
        (t'.started = true ↔ i = j ∨ t.started = true) := by
    intro j t' ht'
    rw [htasks, List.getElem?_modify] at ht'
    obtain ⟨t, ht, rfl⟩ := Option.map_eq_some_iff.1 ht'
    refine ⟨t, ht, ?_⟩
    by_cases hij : i = j
    · simp [hij]
    · simp [hij]
  refine ⟨fun symbol t => ?_, fun j t' ht' => ?_, fun j t' ht' => ?_, fun j hj => ?_⟩
  · rw [hreads, h.counts, List.count_append]
  · obtain ⟨t, ht, hcycles, -⟩ := hold ht'
    have hcount := h.cycles ht
    simp only [waiting] at hcount
    simp only [waiting, List.countP_append, List.count_append, List.countP_singleton,
      List.count_singleton, hstage, hcycles]
    by_cases hij : i = j
    · simp only [hij, beq_self_eq_true, if_true]
      omega
    · simp only [beq_iff_eq, Option.some.injEq, hij, if_false]
      omega
  · obtain ⟨t, ht, -, hstarted⟩ := hold ht'
    rw [hstarted, h.started ht, List.count_append, List.count_singleton]
    by_cases hij : i = j
    · simp [hij]
    · simp [hij]
  · have hgrown : r.refreshed ⊆ r.refreshed ++ read := List.subset_append_left _ _
    by_cases hij : i = j
    · -- a task that was started accepts a trigger only when all is initialized
      subst hij
      refine Covered.mono (r := r) ?_ hlayout hgrown
      obtain ⟨t, s, ht, hs, haccepts⟩ := Engine.exists_of_accepts haccepted
      have hbefore : 0 < r.accepted.count i := by
        simp only [List.count_append, List.count_singleton_self] at hj
        omega
      have hstarted := (h.started ht).2 hbefore
      have hinitialized : r.engine.isInitialized s = true := by
        simpa [EvaluationTask.accepts, hstarted] using haccepts
      intro t' s' ht' hs'
      obtain rfl := Option.some.inj (ht.symm.trans ht')
      obtain rfl := Option.some.inj (hs.symm.trans hs')
      exact (h.isInitialized_iff s).1 hinitialized
    · refine (h.once j ?_).mono hlayout hgrown
      simpa [List.count_append, List.count_singleton, hij] using hj

variable [Amount α] [Written α]

/-- A cycle under way is over, and counted. -/
theorem conclude (h : r.Sound) (i : Nat) {underWay : List (Stage α)}
    (hunderWay : ∀ j, underWay.countP (·.task? == some j) + [i].count j = r.waiting j) :
    ({ r with engine := (r.engine.conclude i).2, underWay } : CycleRun σ α).Sound := by
  have hconcludes := r.engine.conclude_spec i
  -- every task is what it was, apart from the count of this one
  have hold : ∀ {j : Nat} {t' : EvaluationTask},
      (r.engine.conclude i).2.tasks[j]? = some t' →
      ∃ t, r.engine.tasks[j]? = some t ∧ t'.cycles = t.cycles + [i].count j ∧
        t'.started = t.started := by
    intro j t' ht'
    rw [hconcludes.tasks_eq, List.getElem?_modify] at ht'
    obtain ⟨t, ht, rfl⟩ := Option.map_eq_some_iff.1 ht'
    refine ⟨t, ht, ?_⟩
    by_cases hij : i = j
    · simp [hij]
    · simp [hij]
  refine ⟨fun symbol t => ?_, fun j t' ht' => ?_, fun j t' ht' => ?_, fun j hj => ?_⟩
  · rw [← h.counts, CandleFeed.refreshedTimes, hconcludes.counts_eq, CandleFeed.refreshedTimes]
  · obtain ⟨t, ht, hcycles, -⟩ := hold ht'
    have hcount := h.cycles ht
    have hwaiting := hunderWay j
    simp only [waiting] at hcount hwaiting ⊢
    rw [hcycles]
    omega
  · obtain ⟨t, ht, -, hstarted⟩ := hold ht'
    rw [hstarted]
    exact h.started ht
  · exact (h.once j hj).mono hconcludes.layout_eq (List.Subset.refl _)

/-- A cycle under way hands its verdicts on, or is over. -/
theorem handOn (h : r.Sound) (i : Nat) (trigger : Trigger) {underWay : List (Stage α)}
    (hunderWay : ∀ j, underWay.countP (·.task? == some j) + [i].count j = r.waiting j) :
    ({ r with
      engine := (r.engine.handOnVerdicts i trigger).2
      underWay := underWay ++ (r.engine.handOnVerdicts i trigger).1.rests } :
      CycleRun σ α).Sound := by
  rcases r.engine.handOnVerdicts_cases i trigger with ⟨m, hsend⟩ | hconclude
  · rw [hsend]
    refine h.of_aside (.refl _) fun j => ?_
    rw [← hunderWay j, List.countP_append]
    simp [Next.rests, Stage.task?, List.count_singleton]
  · rw [hconclude]
    obtain ⟨failure, hdone⟩ := (r.engine.conclude_spec i).done
    rw [hdone]
    simpa [Next.rests] using h.conclude i hunderWay

variable [Exchange σ α]

/-- A call counts its trigger as accepted if it is, and its cycle is under way until it has ended.
-/
theorem call (h : r.Sound) (i : Nat) (trigger : Trigger) : (r.call i trigger).Sound := by
  have hbegin := r.engine.beginCycle_spec i trigger
  unfold CycleRun.call
  generalize r.engine.beginCycle i trigger = outcome at hbegin ⊢
  generalize r.engine.forced i trigger = read at hbegin ⊢
  cases hbegin with
  | dropped hdropped =>
    simp only [hdropped, Bool.false_eq_true, if_false, Next.rests, List.append_nil]
    exact h
  | @accepted _ e _ haccepted hreads htasks hlayout houtcome =>
    simp only [haccepted, if_true]
    rcases houtcome with ⟨m, rfl⟩ | rfl
    · exact h.accept haccepted hreads htasks hlayout _ rfl
    · -- the stage that begins at once
      have haccept := h.accept haccepted hreads htasks hlayout
        (.verdicts i trigger) rfl
      refine haccept.handOn i trigger fun j => ?_
      simp [waiting, Stage.task?, List.count_singleton]

/-- A message is a call, or has nothing to do with cycles. -/
theorem message (h : r.Sound) (role : Role) (m : Message (Payload α)) :
    (r.message role m).Sound := by
  unfold CycleRun.message
  split
  · next i trigger _ => exact h.call i trigger
  · next hnone => exact h.apart (Engine.neutral_startMessage hnone r.engine).apart _ fun _ => rfl

/-- A cycle that goes on is under way still, or has ended and is counted. -/
theorem goOn (h : r.Sound) (n : Nat) : (r.goOn n).Sound := by
  unfold CycleRun.goOn
  split
  · exact h
  · next stage hstage =>
    have hcount : ∀ j, (r.underWay.eraseIdx n).countP (·.task? == some j)
        + [stage].countP (·.task? == some j) = r.waiting j := by
      intro j
      obtain ⟨hlt, rfl⟩ := List.getElem?_eq_some_iff.1 hstage
      have hperm := (List.getElem_cons_eraseIdx_perm hlt).countP_eq (·.task? == some j)
      simp only [List.countP_cons, List.countP_nil] at hperm ⊢
      rw [waiting, ← hperm, Nat.zero_add]
    -- the stages of no cycle
    have hapart : stage.task? = none → (r.goOn n).Sound := fun hnone => by
      have hsound := h.apart (Engine.neutral_resumeStage hnone r.engine).apart
        (r.underWay.eraseIdx n) fun j => by simpa [hnone] using hcount j
      simpa [CycleRun.goOn, hstage] using hsound
    cases stage with
    | verdicts i trigger =>
      refine h.handOn i trigger fun j => ?_
      rw [← hcount j]
      simp [Stage.task?, List.count_singleton]
    | conclusion i =>
      obtain ⟨failure, hdone⟩ := (r.engine.conclude_spec i).done
      simp only [Engine.resumeStage, hdone, Next.rests, List.append_nil]
      refine h.conclude i fun j => ?_
      rw [← hcount j]
      simp [Stage.task?, List.count_singleton]
    | matching w => simpa [CycleRun.goOn, hstage] using hapart rfl
    | nothing => simpa [CycleRun.goOn, hstage] using hapart rfl

/-- Whatever happens, counts and marks agree with the history. -/
theorem step (h : r.Sound) (e : CycleEvent σ α) : (r.step e).Sound := by
  cases e with
  | call i trigger => exact h.call i trigger
  | message role m => exact h.message role m
  | goOn n => exact h.goOn n
  | refresh symbol t => exact h.refresh symbol t
  | aside f hf => exact h.of_aside (hf r.engine) fun _ => rfl

/-- In every state of every run counts and marks agree with the history. -/
theorem run (h : r.Sound) (events : List (CycleEvent σ α)) : (r.run events).Sound := by
  induction events generalizing r with
  | nil => exact h
  | cons e rest ih => exact ih (h.step e)

end Sound

/-- While consumers run no cycles, no trigger is accepted from the inside. -/
theorem accepted_run [Amount α] [Written α] [Exchange σ α] (r : CycleRun σ α)
    {events : List (CycleEvent σ α)} (h : ∀ event ∈ events, event.Inside Role.Passive) :
    (r.run events).accepted = r.accepted := by
  induction events generalizing r with
  | nil => rfl
  | cons e rest ih =>
    have hstep : (r.step e).accepted = r.accepted := by
      cases e with
      | message role m =>
        have hrole : role.Passive := h _ List.mem_cons_self
        simp only [step, message, hrole.call?_eq_none]
      | goOn n =>
        simp only [step, goOn]
        split <;> rfl
      | _ => exact (h _ List.mem_cons_self).elim
    exact (ih (r.step e) fun event hevent => h event (List.mem_cons_of_mem _ hevent)).trans hstep

/-! ## The layout stays -/

section Layout

variable [Amount α] [Written α]

/-- To hand on the verdicts moves no task and no evaluation. -/
theorem layout_handOnVerdicts (e : Engine σ α) (i : Nat) (trigger : Trigger) :
    (e.handOnVerdicts i trigger).2.layout = e.layout := by
  rcases e.handOnVerdicts_cases i trigger with ⟨m, hsend⟩ | hconclude
  · rw [hsend]
  · rw [hconclude, (e.conclude_spec i).layout_eq]

variable [Exchange σ α]

/-- A cycle moves no task and no evaluation. -/
theorem layout_call (r : CycleRun σ α) (i : Nat) (trigger : Trigger) :
    (r.call i trigger).engine.layout = r.engine.layout := by
  have hbegin := r.engine.beginCycle_spec i trigger
  unfold call
  generalize r.engine.beginCycle i trigger = outcome at hbegin ⊢
  generalize r.engine.forced i trigger = read at hbegin ⊢
  cases hbegin with
  | dropped => rfl
  | accepted _ _ _ hlayout houtcome =>
    rcases houtcome with ⟨m, rfl⟩ | rfl
    · exact hlayout
    · exact (layout_handOnVerdicts _ i trigger).trans hlayout

/-- Whatever happens, tasks and evaluations stay where they are. -/
theorem layout_step (r : CycleRun σ α) (e : CycleEvent σ α) :
    (r.step e).engine.layout = r.engine.layout := by
  cases e with
  | call i trigger => exact r.layout_call i trigger
  | message role m =>
    simp only [step, message]
    split
    · next i trigger _ => exact r.layout_call i trigger
    · next hnone => exact (Engine.neutral_startMessage hnone r.engine).apart.1.layout_eq
  | goOn n =>
    simp only [step, goOn]
    split
    · rfl
    · next stage _ =>
      cases stage with
      | verdicts i trigger => exact layout_handOnVerdicts r.engine i trigger
      | conclusion i => exact (r.engine.conclude_spec i).layout_eq
      | matching w => exact (Engine.neutral_resumeStage rfl r.engine).apart.1.layout_eq
      | nothing => exact (Engine.neutral_resumeStage rfl r.engine).apart.1.layout_eq
  | refresh symbol t =>
    obtain ⟨-, htasks, hevaluations⟩ := r.engine.refreshCandles_spec symbol t
    simp only [step, Engine.layout, htasks, hevaluations]
  | aside f hf => exact (hf r.engine).layout_eq

/-- No task is lost. -/
theorem exists_task (r : CycleRun σ α) (events : List (CycleEvent σ α)) {i : Nat}
    {t : EvaluationTask} (ht : r.engine.tasks[i]? = some t) :
    ∃ t', (r.run events).engine.tasks[i]? = some t' := by
  induction events generalizing r t with
  | nil => exact ⟨t, ht⟩
  | cons e rest ih =>
    have howners := congrArg (fun layout => layout.1[i]?) (r.layout_step e)
    simp only [Engine.layout, List.getElem?_map, ht, Option.map_some] at howners
    obtain ⟨t', ht', -⟩ := Option.map_eq_some_iff.1 howners
    exact ih (r.step e) ht'

end Layout

/-- A trigger is accepted if and only if the candles of all time frames of the symbol were read, or
it is no interruption and the task has accepted nothing so far. -/
theorem Sound.accepts_iff {r : CycleRun σ α} (h : r.Sound) {i : Nat}
    {t : EvaluationTask} {s : SymbolEvaluation α} (ht : r.engine.tasks[i]? = some t)
    (hs : r.engine.ownerOf? t = some s) (trigger : Trigger) :
    r.engine.accepts i trigger = true ↔
      (∀ timeFrame ∈ s.timeFrames, (s.symbol, timeFrame) ∈ r.refreshed) ∨
        trigger.interruption = false ∧ i ∉ r.accepted := by
  have hstarted : t.started = false ↔ i ∉ r.accepted := by
    rw [← Bool.not_eq_true, h.started ht, List.count_pos_iff]
  rw [Engine.accepts_eq ht hs, EvaluationTask.accepts, Bool.or_eq_true, h.isInitialized_iff,
    Bool.and_eq_true, Bool.not_eq_true', Bool.not_eq_true', hstarted]

end CycleRun

end MarketEngine
