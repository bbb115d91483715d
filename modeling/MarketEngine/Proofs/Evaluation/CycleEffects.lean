import MarketEngine.Exchange.Scripted
import MarketEngine.Proofs.Evaluation.MatrixWrites
import MarketEngine.Proofs.Evaluation.Stages
import MarketEngine.Proofs.Exact
/-!
# What a cycle does to the matrix

An accepted cycle lets the evaluators of its task take their turns, on the candles as they are after
the refresh that its trigger may force, and writes each one's note to its place. Nothing else
changes in the matrix but the notes of the strategies, and those notes of the task's own evaluators
that have the other form: a note for a time frame takes away one without, and the other way around
(`Engine.cycle_effect`).
-/

namespace MarketEngine

variable {σ α : Type}

/-! ## Turns -/

namespace Evaluator

/-- The time frame that the note of an evaluator is written for. -/
def frame (ev : Evaluator α) (t : TimeFrame) : Option TimeFrame :=
  if ev.isTechnical then some t else none

/-- The kind of an evaluator decides for which time frame its note is written. -/
theorem frame_congr {ev ev' : Evaluator α} (h : ev.kind = ev'.kind) (t : TimeFrame) :
    ev.frame t = ev'.frame t := by
  rw [frame, frame, isTechnical, isTechnical, h]

/-- The note that counts is the evaluator's own while it is active, and pending otherwise. -/
theorem checked_currentNote [Amount α] (ev : Evaluator α) :
    ev.currentNote.checked = if ev.isActive then ev.note.checked else .pending := by
  rw [currentNote]
  split <;> rfl

/-- The note that an evaluator has written. -/
def write (ev : Evaluator α) (t : TimeFrame) : NoteWrite α :=
  ⟨ev.kind, ev.name, ev.currentNote, ev.frame t⟩

/-- An evaluation changes the note of an evaluator and counts as a run, and nothing else. -/
theorem evaluate_frame (ev : Evaluator α) (candles : CandleColumns α) :
    (ev.evaluate candles).kind = ev.kind ∧ (ev.evaluate candles).name = ev.name ∧
      (ev.evaluate candles).isActive = ev.isActive ∧ (ev.evaluate candles).runs = ev.runs + 1 := by
  unfold evaluate
  simp only
  split <;> exact ⟨rfl, rfl, rfl, rfl⟩

/-- To let a note expire leaves everything else of the evaluator. -/
theorem expire_frame (ev : Evaluator α) :
    ev.expire.kind = ev.kind ∧ ev.expire.name = ev.name ∧ ev.expire.isActive = ev.isActive ∧
      ev.expire.runs = ev.runs := by
  unfold expire
  split
  · exact ⟨rfl, rfl, rfl, rfl⟩
  · simp only
    split <;> exact ⟨rfl, rfl, rfl, rfl⟩

/-- An evaluator that is to evaluate in a cycle that `source` asked for. -/
def Due (ev : Evaluator α) (source : String) : Prop :=
  ev.kind = .technical ∧ ev.isActive = true ∧ ev.name ≠ source

/-- An evaluator that is due evaluates the candles, and then its note may expire. -/
theorem takeTurn_of_due {ev : Evaluator α} {source : String} (h : ev.Due source)
    (candles : CandleColumns α) :
    ev.takeTurn source (some candles) = (ev.evaluate candles).expire := by
  obtain ⟨hkind, hactive, hname⟩ := h
  simp [takeTurn, isTechnical, hkind, hactive, hname]

/-- Without candles, or if it is not due, an evaluator only lets its note expire. -/
theorem takeTurn_of_not {ev : Evaluator α} {source : String}
    {candles : Option (CandleColumns α)} (h : candles = none ∨ ¬ev.Due source) :
    ev.takeTurn source candles = ev.expire := by
  cases candles with
  | none => rfl
  | some candles =>
    have hnot : (ev.isTechnical && ev.isActive && ev.name != source) = false := by
      rw [← Bool.not_eq_true]
      intro hdue
      simp only [isTechnical, Bool.and_eq_true, beq_iff_eq, bne_iff_ne] at hdue
      rcases h with h | h
      · cases h
      · exact h ⟨hdue.1.1, hdue.1.2, hdue.2⟩
    simp [takeTurn, hnot]

/-- A turn changes neither what an evaluator is nor its name. -/
theorem takeTurn_frame (ev : Evaluator α) (source : String) (candles : Option (CandleColumns α)) :
    (ev.takeTurn source candles).kind = ev.kind ∧ (ev.takeTurn source candles).name = ev.name := by
  by_cases h : candles = none ∨ ¬ev.Due source
  · rw [takeTurn_of_not h]
    exact ⟨ev.expire_frame.1, ev.expire_frame.2.1⟩
  · obtain ⟨hsome, hdue⟩ := not_or.1 h
    obtain ⟨candles, rfl⟩ := Option.ne_none_iff_exists'.1 hsome
    obtain ⟨hkind, hname, -⟩ := ev.evaluate_frame candles
    rw [takeTurn_of_due (not_not.1 hdue), (ev.evaluate candles).expire_frame.1,
      (ev.evaluate candles).expire_frame.2.1, hkind, hname]
    exact ⟨rfl, rfl⟩

end Evaluator

namespace EvaluationTask

/-- The evaluators of a task, in the order of their turns. -/
def members (t : EvaluationTask) (evaluators : List (Evaluator α)) : List (Evaluator α) :=
  t.evaluators.filterMap (evaluators[·]?)

variable [Amount α]

/-- An evaluator that is not there writes nothing. -/
theorem evaluatorTurn_of_none (t : EvaluationTask) (source : String)
    (candles : Option (CandleColumns α)) {evaluators : List (Evaluator α)} {i : Nat}
    (hi : evaluators[i]? = none) (m : Matrix α) :
    t.evaluatorTurn source candles (evaluators, m) i = (evaluators, m) := by
  rw [evaluatorTurn, hi]

/-- A turn changes one evaluator and writes its note. -/
theorem evaluatorTurn_of_some (t : EvaluationTask) (source : String)
    (candles : Option (CandleColumns α)) {evaluators : List (Evaluator α)} {i : Nat}
    {ev : Evaluator α} (hi : evaluators[i]? = some ev) (m : Matrix α) :
    ∃ m', t.evaluatorTurn source candles (evaluators, m) i
        = (evaluators.set i (ev.takeTurn source candles), m') ∧
      m'.cells = (m.write ((ev.takeTurn source candles).write t.timeFrame)).cells := by
  rw [evaluatorTurn, hi]
  refine ⟨_, rfl, ?_⟩
  split <;> rfl

/-- Where evaluators of different names take turns, each takes its own, and all their notes are
written. -/
theorem foldl_evaluatorTurn (t : EvaluationTask) (source : String)
    (candles : Option (CandleColumns α)) {is : List Nat} {evaluators : List (Evaluator α)}
    (hdistinct : (is.filterMap (evaluators[·]?)).Pairwise fun ev ev' =>
      (ev.kind, ev.name) ≠ (ev'.kind, ev'.name)) (m : Matrix α) :
    let after := is.foldl (t.evaluatorTurn source candles) (evaluators, m)
    (∀ j, after.1[j]? = (evaluators[j]?).map fun ev =>
      if j ∈ is then ev.takeTurn source candles else ev) ∧
    after.2.cells = (m.writeAll ((is.filterMap (evaluators[·]?)).map fun ev =>
      (ev.takeTurn source candles).write t.timeFrame)).cells := by
  induction is generalizing evaluators m with
  | nil => simp [Matrix.writeAll]
  | cons i rest ih =>
    rw [List.foldl_cons]
    cases hi : evaluators[i]? with
    | none =>
      rw [t.evaluatorTurn_of_none source candles hi]
      rw [List.filterMap_cons_none hi] at hdistinct ⊢
      obtain ⟨hturns, hcells⟩ := ih hdistinct m
      refine ⟨fun j => ?_, hcells⟩
      rw [hturns j]
      by_cases hj : j = i
      · rw [hj, hi, Option.map_none, Option.map_none]
      · simp [hj]
    | some ev =>
      obtain ⟨m', hturn, hwrite⟩ := t.evaluatorTurn_of_some source candles hi m
      rw [hturn]
      rw [List.filterMap_cons_some hi] at hdistinct ⊢
      obtain ⟨hhead, hrest⟩ := List.pairwise_cons.1 hdistinct
      have hfresh : i ∉ rest := fun hmem =>
        hhead ev (List.mem_filterMap.2 ⟨i, hmem, hi⟩) rfl
      -- those whose turns come later are still as they were
      have hlater : rest.filterMap ((evaluators.set i (ev.takeTurn source candles))[·]?)
          = rest.filterMap (evaluators[·]?) :=
        List.filterMap_congr fun j hj => List.getElem?_set_ne fun heq => hfresh (by rwa [heq])
      rw [← hlater] at hrest
      obtain ⟨hturns, hcells⟩ := ih hrest m'
      refine ⟨fun j => ?_, ?_⟩
      · rw [hturns j]
        by_cases hj : j = i
        · subst hj
          rw [List.getElem?_set_self (List.getElem?_eq_some_iff.1 hi).1, hi]
          simp [hfresh]
        · simp [List.getElem?_set_ne (Ne.symm hj), hj]
      · rw [hcells, hlater, List.map_cons, Matrix.writeAll, Matrix.writeAll, List.foldl_cons]
        exact Matrix.cells_writeAll hwrite _

end EvaluationTask

/-! ## Strategies -/

namespace SymbolEvaluation

variable [Amount α]

/-- The note that a strategy writes. -/
def strategyWrite (snapshot : MatrixSnapshot α) (strategy : Strategy α) : NoteWrite α :=
  ⟨.strategies, strategy.name, noteOf snapshot strategy, none⟩

/-- An update of the strategies writes the note of each, computed from the matrix as it was before.
-/
theorem cells_updateStrategies (s : SymbolEvaluation α) :
    s.updateStrategies.matrix.cells
      = (s.matrix.writeAll (s.strategies.map (strategyWrite s.matrix.snapshot))).cells := by
  rw [updateStrategies]
  generalize s.matrix.snapshot = snapshot
  generalize s.matrix = m
  generalize s.strategies = strategies
  induction strategies using List.reverseRecOn with
  | nil => rfl
  | append_singleton strategies strategy ih =>
    rw [List.map_append, List.map_singleton, Matrix.writeAll_concat]
    rw [List.foldl_append, List.foldl_cons, List.foldl_nil]
    simp only [writeStrategy, Matrix.setType, Matrix.write, Matrix.setNote, strategyWrite] at ih ⊢
    rw [ih]

/-- The update of the strategies changes no other notes than theirs. -/
theorem noteAt?_updateStrategies (s : SymbolEvaluation α) {kind : EvaluatorKind} {name : String}
    (h : ∀ strategy ∈ s.strategies, (kind, name) ≠ (.strategies, strategy.name))
    (t : Option TimeFrame) :
    s.updateStrategies.matrix.noteAt? kind name t = s.matrix.noteAt? kind name t := by
  rw [Matrix.noteAt?, cells_updateStrategies, ← Matrix.noteAt?]
  refine Matrix.noteAt?_writeAll_of_forall_ne ?_ s.matrix t
  intro w hw
  obtain ⟨strategy, hstrategy, rfl⟩ := List.mem_map.1 hw
  exact h strategy hstrategy

end SymbolEvaluation

/-! ## The matrix -/

namespace EvaluationTask

variable [Amount α]

/-- The evaluation of a symbol after the turns of a task's evaluators and the update of the
strategies. -/
def evaluated (t : EvaluationTask) (source : String) (candles : Option (CandleColumns α))
    (evaluators : List (Evaluator α)) (s : SymbolEvaluation α) : SymbolEvaluation α :=
  { s with matrix := (t.refreshMatrix source candles evaluators s.matrix).2 }.updateStrategies

omit [Amount α] in
/-- What becomes of the evaluators of a task, place by place. -/
theorem members_eq_map {t : EvaluationTask} {evaluators after : List (Evaluator α)}
    {turn : Evaluator α → Evaluator α} (h : ∀ j, after[j]? = (evaluators[j]?).map fun ev =>
      if j ∈ t.evaluators then turn ev else ev) :
    t.members after = (t.members evaluators).map turn := by
  rw [members, members, List.map_filterMap]
  refine List.filterMap_congr fun j hj => ?_
  simp only [h j, hj, if_true]

/-- The notes that the evaluators of a task write in their turns. -/
def turnWrites (t : EvaluationTask) (source : String) (candles : Option (CandleColumns α))
    (evaluators : List (Evaluator α)) : List (NoteWrite α) :=
  (t.members evaluators).map fun ev => (ev.takeTurn source candles).write t.timeFrame

variable {t : EvaluationTask} {evaluators : List (Evaluator α)}
  (hdistinct : (t.members evaluators).Pairwise fun ev ev' =>
    (ev.kind, ev.name) ≠ (ev'.kind, ev'.name))
include hdistinct

omit [Amount α] in
/-- No two evaluators of a task write in the same place. -/
theorem pairwise_turnWrites (source : String) (candles : Option (CandleColumns α)) :
    (t.turnWrites source candles evaluators).Pairwise fun w w' =>
      (w.kind, w.name) ≠ (w'.kind, w'.name) := by
  refine List.pairwise_map.2 (hdistinct.imp fun {ev ev'} hne => ?_)
  simpa only [Evaluator.write, ev.takeTurn_frame source candles,
    ev'.takeTurn_frame source candles] using hne

/-- Away from the strategies a cycle does to the matrix what the turns of the evaluators write. -/
theorem noteAt?_evaluated (source : String) (candles : Option (CandleColumns α))
    (s : SymbolEvaluation α) {kind : EvaluatorKind} {name : String}
    (h : ∀ strategy ∈ s.strategies, (kind, name) ≠ (.strategies, strategy.name))
    (t' : Option TimeFrame) :
    (t.evaluated source candles evaluators s).matrix.noteAt? kind name t'
      = (s.matrix.writeAll (t.turnWrites source candles evaluators)).noteAt? kind name t' := by
  have hturns := (t.foldl_evaluatorTurn source candles hdistinct s.matrix).2
  have hupdate := SymbolEvaluation.noteAt?_updateStrategies
    { s with matrix := (t.refreshMatrix source candles evaluators s.matrix).2 } h t'
  rw [evaluated, hupdate, Matrix.noteAt?, refreshMatrix, hturns, ← Matrix.noteAt?]
  rfl

/-- The notes of an evaluator after a cycle: its own stands at its place, and those of the same form
stay. -/
theorem noteAt?_evaluated_of_mem (source : String) (candles : Option (CandleColumns α))
    (s : SymbolEvaluation α) {ev : Evaluator α} (hev : ev ∈ t.members evaluators)
    (hkind : ev.kind ≠ .strategies) (t' : Option TimeFrame) :
    (t.evaluated source candles evaluators s).matrix.noteAt? ev.kind ev.name t'
      = if t' = ev.frame t.timeFrame then some (ev.takeTurn source candles).currentNote.checked
        else if (ev.frame t.timeFrame).isSome && t'.isSome then
          s.matrix.noteAt? ev.kind ev.name t'
        else none := by
  obtain ⟨w, hw⟩ : ∃ w, w = (ev.takeTurn source candles).write t.timeFrame := ⟨_, rfl⟩
  have hmem : w ∈ t.turnWrites source candles evaluators := by
    rw [hw]
    exact List.mem_map_of_mem hev
  obtain ⟨hwkind, hwname⟩ : w.kind = ev.kind ∧ w.name = ev.name := by
    rw [hw]
    exact ev.takeTurn_frame source candles
  have hwframe : w.timeFrame = ev.frame t.timeFrame := by
    rw [hw, Evaluator.write, Evaluator.frame_congr (ev.takeTurn_frame source candles).1]
  have hstored : w.stored = (ev.takeTurn source candles).currentNote.checked := by
    rw [← w.checked_note, hw, Evaluator.write]
  have halone := Matrix.noteAt?_writeAll_of_mem (pairwise_turnWrites hdistinct source candles)
    hmem s.matrix t'
  rw [Matrix.noteAt?_write, hwkind, hwname, hwframe, hstored] at halone
  rw [noteAt?_evaluated hdistinct source candles s
    fun strategy _ heq => hkind (Prod.mk.inj heq).1, halone]

/-- No other notes change in a cycle but those of the strategies. -/
theorem noteAt?_evaluated_of_not_mem (source : String) (candles : Option (CandleColumns α))
    (s : SymbolEvaluation α) {kind : EvaluatorKind} {name : String}
    (hmembers : ∀ ev ∈ t.members evaluators, (kind, name) ≠ (ev.kind, ev.name))
    (hstrategies : ∀ strategy ∈ s.strategies, (kind, name) ≠ (.strategies, strategy.name))
    (t' : Option TimeFrame) :
    (t.evaluated source candles evaluators s).matrix.noteAt? kind name t'
      = s.matrix.noteAt? kind name t' := by
  rw [noteAt?_evaluated hdistinct source candles s hstrategies]
  refine Matrix.noteAt?_writeAll_of_forall_ne (fun w hw => ?_) s.matrix t'
  obtain ⟨ev, hev, rfl⟩ := List.mem_map.1 hw
  obtain ⟨hkind, hname⟩ := ev.takeTurn_frame source candles
  rw [Evaluator.write, hkind, hname]
  exact hmembers ev hev

/-- The evaluators of a task take their turns, and all others stay as they are. -/
theorem getElem?_refreshMatrix (source : String) (candles : Option (CandleColumns α))
    (m : Matrix α) (j : Nat) :
    (t.refreshMatrix source candles evaluators m).1[j]? = (evaluators[j]?).map fun ev =>
      if j ∈ t.evaluators then ev.takeTurn source candles else ev :=
  (t.foldl_evaluatorTurn source candles hdistinct m).1 j

variable (hkinds : ∀ ev ∈ t.members evaluators, ev.kind ≠ .strategies)
include hkinds

/-- An evaluator's place holds its note and no other. -/
theorem mem_evaluated_iff_eq (source : String) (candles : Option (CandleColumns α))
    (s : SymbolEvaluation α) {ev : Evaluator α} (hev : ev ∈ t.members evaluators) (note : Note α) :
    ⟨ev.kind, ev.name, ev.frame t.timeFrame, note⟩
        ∈ (t.evaluated source candles evaluators s).matrix.snapshot ↔
      note = (ev.takeTurn source candles).currentNote.checked := by
  rw [Matrix.mem_snapshot, noteAt?_evaluated_of_mem hdistinct source candles s hev (hkinds ev hev),
    if_pos rfl, Option.some.injEq, eq_comm]

/-- Away from the places of the evaluators and from the strategies, a cycle takes away the notes
that stand under the name of an evaluator in the other form. -/
theorem mem_evaluated_iff_mem (source : String) (candles : Option (CandleColumns α))
    (s : SymbolEvaluation α) {entry : MatrixEntry α}
    (hplaces : ∀ ev ∈ t.members evaluators, (entry.kind, entry.name, entry.timeFrame)
      ≠ (ev.kind, ev.name, ev.frame t.timeFrame))
    (hstrategies : ∀ strategy ∈ s.strategies,
      (entry.kind, entry.name) ≠ (.strategies, strategy.name)) :
    entry ∈ (t.evaluated source candles evaluators s).matrix.snapshot ↔
      entry ∈ s.matrix.snapshot ∧ ∀ ev ∈ t.members evaluators,
        (entry.kind, entry.name) = (ev.kind, ev.name) →
          entry.timeFrame.isSome = ev.isTechnical := by
  rw [Matrix.mem_snapshot, Matrix.mem_snapshot]
  by_cases hmember : ∃ ev ∈ t.members evaluators, (entry.kind, entry.name) = (ev.kind, ev.name)
  · obtain ⟨ev, hev, heq⟩ := hmember
    obtain ⟨hkind, hname⟩ := Prod.mk.inj heq
    have hframe : entry.timeFrame ≠ ev.frame t.timeFrame := fun hframe =>
      hplaces ev hev (by rw [hkind, hname, hframe])
    -- all evaluators under this name are of the same kind, and so write notes of the same form
    have hform : (∀ ev' ∈ t.members evaluators, (entry.kind, entry.name) = (ev'.kind, ev'.name) →
        entry.timeFrame.isSome = ev'.isTechnical) ↔ entry.timeFrame.isSome = ev.isTechnical := by
      refine ⟨fun h => h ev hev heq, fun h ev' _ heq' => ?_⟩
      rw [h, Evaluator.isTechnical, Evaluator.isTechnical, ← hkind, (Prod.mk.inj heq').1]
    rw [hform, hkind, hname,
      noteAt?_evaluated_of_mem hdistinct source candles s hev (hkinds ev hev), if_neg hframe]
    unfold Evaluator.frame at hframe ⊢
    cases htechnical : ev.isTechnical <;> cases htimeFrame : entry.timeFrame <;>
      simp [htechnical, htimeFrame] at hframe ⊢
  · have hother : ∀ ev ∈ t.members evaluators, (entry.kind, entry.name) ≠ (ev.kind, ev.name) :=
      fun ev hev heq => hmember ⟨ev, hev, heq⟩
    rw [noteAt?_evaluated_of_not_mem hdistinct source candles s hother hstrategies]
    exact ⟨fun h => ⟨h, fun ev hev heq => absurd heq (hother ev hev)⟩, fun h => h.1⟩

/-- A technical note for another time frame stays. -/
theorem mem_evaluated_of_ne (source : String) (candles : Option (CandleColumns α))
    (s : SymbolEvaluation α) (name : String) {t' : TimeFrame} (ht' : t' ≠ t.timeFrame)
    (note : Note α) :
    ⟨.technical, name, some t', note⟩
        ∈ (t.evaluated source candles evaluators s).matrix.snapshot ↔
      ⟨.technical, name, some t', note⟩ ∈ s.matrix.snapshot := by
  have hplaces : ∀ ev ∈ t.members evaluators, ((.technical, name, some t') :
      EvaluatorKind × String × Option TimeFrame) ≠ (ev.kind, ev.name, ev.frame t.timeFrame) := by
    intro ev _ heq
    have hframe := (Prod.mk.inj (Prod.mk.inj heq).2).2
    unfold Evaluator.frame at hframe
    split at hframe
    · exact ht' (Option.some.inj hframe)
    · cases hframe
  rw [mem_evaluated_iff_mem hdistinct hkinds source candles s hplaces
    fun strategy _ => by simp]
  refine and_iff_left fun ev _ heq => ?_
  rw [Evaluator.isTechnical, ← (Prod.mk.inj heq).1]
  rfl

end EvaluationTask

/-! ## Cycles -/

namespace Engine

variable [Amount α]

/-- The evaluators and the evaluations stay as they are. -/
def Unevaluated (e e' : Engine σ α) : Prop :=
  e'.evaluators = e.evaluators ∧ e'.evaluations = e.evaluations

section Stages

variable [Written α]

/-- The end of a cycle evaluates nothing. -/
theorem unevaluated_conclude (e : Engine σ α) (i : Nat) : e.Unevaluated (e.conclude i).2 := by
  obtain ⟨failure, exporter, folder, h⟩ := e.conclude_eq i
  rw [h]
  exact ⟨rfl, rfl⟩

/-- To hand on the verdicts evaluates nothing. -/
theorem unevaluated_handOnVerdicts (e : Engine σ α) (i : Nat) (trigger : Trigger) :
    e.Unevaluated (e.handOnVerdicts i trigger).2 := by
  rcases e.handOnVerdicts_cases i trigger with ⟨m, h⟩ | h
  · rw [h]
    exact ⟨rfl, rfl⟩
  · rw [h]
    exact e.unevaluated_conclude i

/-- What is left of a cycle after its beginning evaluates nothing. -/
theorem unevaluated_resumeStage [Exchange σ α] (e : Engine σ α) {stage : Stage α} {i : Nat}
    (h : stage.task? = some i) : e.Unevaluated (resumeStage stage e).2 := by
  cases stage with
  | verdicts i trigger => exact e.unevaluated_handOnVerdicts i trigger
  | conclusion i => exact e.unevaluated_conclude i
  | matching w => cases h
  | nothing => cases h

end Stages

/-- An evaluation of a task reads the candles of its symbol and time frame, lets its evaluators take
their turns, and updates the strategies. -/
theorem evaluateTask_eq {e : Engine σ α} {t : EvaluationTask} {s : SymbolEvaluation α}
    (hs : e.ownerOf? t = some s) (source : String) :
    let candles := (e.market.board? s.symbol).bind (·.snapshot? t.timeFrame t.candleLimit)
    (e.evaluateTask t s source).evaluators
      = (t.refreshMatrix source candles e.evaluators s.matrix).1 ∧
    (e.evaluateTask t s source).evaluations
      = e.evaluations.set t.owner (t.evaluated source candles e.evaluators s) := by
  refine ⟨rfl, ?_⟩
  rw [List.set_eq_modify]
  refine modify_congr fun s' hs' => ?_
  obtain rfl := Option.some.inj (hs'.symm.trans hs)
  rfl

variable [Written α] [Exchange σ α]

/-- The engine whose candles a cycle evaluates: that after the refresh, if one is forced. -/
def readFor (e : Engine σ α) (trigger : Trigger) (t : EvaluationTask) (s : SymbolEvaluation α) :
    Engine σ α :=
  if trigger.forceRefresh && t.refreshes then (e.refreshCandles s.symbol t.timeFrame).1 else e

omit [Amount α] [Written α] in
/-- A forced refresh evaluates nothing. -/
theorem unevaluated_readFor (e : Engine σ α) (trigger : Trigger) (t : EvaluationTask)
    (s : SymbolEvaluation α) : e.Unevaluated (e.readFor trigger t s) := by
  unfold readFor
  split
  · exact ⟨rfl, rfl⟩
  · exact ⟨rfl, rfl⟩

/-- An accepted cycle evaluates its task on the candles as they are after the refresh, and nothing
else. -/
theorem beginCycle_evaluates {e : Engine σ α} {i : Nat} {trigger : Trigger} {t : EvaluationTask}
    {s : SymbolEvaluation α} (ht : e.tasks[i]? = some t) (hs : e.ownerOf? t = some s)
    (haccepted : e.accepts i trigger = true) :
    ((e.readFor trigger t s).evaluateTask t s trigger.source).Unevaluated
      (e.beginCycle i trigger).2 := by
  rw [accepts_eq ht hs] at haccepted
  unfold beginCycle
  simp only [ht, hs, haccepted, if_true]
  rw [← readFor]
  split
  · exact ⟨rfl, rfl⟩
  · split
    · exact ⟨rfl, rfl⟩
    · exact unevaluated_handOnVerdicts _ i trigger

/-- An accepted trigger of a task whose evaluators are no strategies and have different names within
their kinds. The series is that of the task's time frame after the refresh that the trigger may
force, which may fail.

* An active technical evaluator other than the source is evaluated once, on the snapshot of the last
  candles of the series, if there is one; no other evaluator is.
* Afterwards the place of each evaluator of the task holds its note, and is pending if the evaluator
  is not active or the note is no number.
* All other entries but those of the strategies stay as they are, save that no evaluator of the task
  keeps notes of the other form: a technical one keeps none without a time frame, and another one
  none for a time frame. So a technical note for another time frame stays.
* What is left of the cycle after that evaluates nothing. -/
theorem cycle_effect {e : Engine σ α} {i : Nat} {trigger : Trigger} {t : EvaluationTask}
    {s : SymbolEvaluation α} (ht : e.tasks[i]? = some t) (hs : e.ownerOf? t = some s)
    (haccepted : e.accepts i trigger = true)
    (hkinds : ∀ ev ∈ t.members e.evaluators, ev.kind ≠ .strategies)
    (hdistinct : (t.members e.evaluators).Pairwise fun ev ev' =>
      (ev.kind, ev.name) ≠ (ev'.kind, ev'.name)) :
    let series := ((e.readFor trigger t s).market.board? s.symbol).bind
      (·.series.get? t.timeFrame)
    let e' := (e.beginCycle i trigger).2
    (∀ j ev, e.evaluators[j]? = some ev → ∃ ev', e'.evaluators[j]? = some ev' ∧
      (j ∉ t.evaluators → ev' = ev) ∧
      (j ∈ t.evaluators → ev.Due trigger.source → ∀ candles ∈ series,
        ev' = (ev.evaluate (candles.snapshot t.candleLimit)).expire ∧ ev'.runs = ev.runs + 1) ∧
      (j ∈ t.evaluators → series = none ∨ ¬ev.Due trigger.source →
        ev' = ev.expire ∧ ev'.runs = ev.runs)) ∧
    (∃ s', e'.evaluations = e.evaluations.set t.owner s' ∧ s' = { s with matrix := s'.matrix } ∧
      (∀ ev ∈ t.members e'.evaluators, ∀ note,
        ⟨ev.kind, ev.name, ev.frame t.timeFrame, note⟩ ∈ s'.matrix.snapshot ↔
          note = if ev.isActive then ev.note.checked else .pending) ∧
      (∀ entry : MatrixEntry α,
        (∀ ev ∈ t.members e.evaluators, (entry.kind, entry.name, entry.timeFrame)
          ≠ (ev.kind, ev.name, ev.frame t.timeFrame)) →
        (∀ strategy ∈ s.strategies, (entry.kind, entry.name) ≠ (.strategies, strategy.name)) →
        (entry ∈ s'.matrix.snapshot ↔ entry ∈ s.matrix.snapshot ∧
          ∀ ev ∈ t.members e.evaluators, (entry.kind, entry.name) = (ev.kind, ev.name) →
            entry.timeFrame.isSome = ev.isTechnical)) ∧
      (∀ name t' note, t' ≠ t.timeFrame →
        (⟨.technical, name, some t', note⟩ ∈ s'.matrix.snapshot ↔
          ⟨.technical, name, some t', note⟩ ∈ s.matrix.snapshot))) ∧
    ∀ (stage : Stage α) (e'' : Engine σ α), stage.task? = some i →
      e''.Unevaluated (resumeStage stage e'').2 := by
  intro series e'
  obtain ⟨read, hread⟩ : ∃ read, read = e.readFor trigger t s := ⟨_, rfl⟩
  obtain ⟨hevaluators, hevaluations⟩ : e.Unevaluated read := by
    rw [hread]
    exact e.unevaluated_readFor trigger t s
  have hs' : read.ownerOf? t = some s := by
    rw [ownerOf?, hevaluations]
    exact hs
  obtain ⟨candles, hcandles⟩ : ∃ candles, candles
      = (read.market.board? s.symbol).bind (·.snapshot? t.timeFrame t.candleLimit) := ⟨_, rfl⟩
  -- the evaluators see the last candles of the series as the refresh before the cycle left it
  have hseries : candles = series.map (·.snapshot t.candleLimit) := by
    rw [hcandles, hread]
    exact Option.map_bind.symm
  obtain ⟨hturned, hevaluated⟩ := evaluateTask_eq hs' trigger.source
  rw [← hcandles, hevaluators] at hturned hevaluated
  obtain ⟨hkept, hkept'⟩ := beginCycle_evaluates ht hs haccepted
  rw [← hread, hturned] at hkept
  rw [← hread, hevaluated, hevaluations] at hkept'
  -- every evaluator of the task takes one turn, and nobody else does
  have hturns : ∀ j, e'.evaluators[j]? = (e.evaluators[j]?).map fun ev =>
      if j ∈ t.evaluators then ev.takeTurn trigger.source candles else ev := by
    intro j
    rw [hkept]
    exact EvaluationTask.getElem?_refreshMatrix hdistinct trigger.source candles s.matrix j
  refine ⟨fun j ev hj => ?_, ⟨_, hkept', rfl, fun ev hev note => ?_, fun entry => ?_,
    fun name t' note ht' => ?_⟩, fun stage e'' => e''.unevaluated_resumeStage⟩
  · have hafter : e'.evaluators[j]?
        = some (if j ∈ t.evaluators then ev.takeTurn trigger.source candles else ev) := by
      rw [hturns j, hj, Option.map_some]
    refine ⟨_, hafter, fun hout => if_neg hout, fun hin hdue c hc => ?_, fun hin hnot => ?_⟩
    · rw [if_pos hin, hseries, Option.mem_def.1 hc, Option.map_some,
        Evaluator.takeTurn_of_due hdue]
      refine ⟨rfl, ?_⟩
      rw [(Evaluator.expire_frame _).2.2.2, (ev.evaluate_frame _).2.2.2]
    · have hnot' : candles = none ∨ ¬ev.Due trigger.source :=
        hnot.imp_left fun hnone => by rw [hseries, hnone, Option.map_none]
      rw [if_pos hin, Evaluator.takeTurn_of_not hnot']
      exact ⟨rfl, ev.expire_frame.2.2.2⟩
  · rw [EvaluationTask.members_eq_map hturns] at hev
    obtain ⟨ev, hmem, rfl⟩ := List.mem_map.1 hev
    obtain ⟨hkind, hname⟩ := ev.takeTurn_frame trigger.source candles
    rw [Evaluator.frame_congr hkind, hkind, hname,
      EvaluationTask.mem_evaluated_iff_eq hdistinct hkinds trigger.source candles s hmem,
      Evaluator.checked_currentNote]
  · exact EvaluationTask.mem_evaluated_iff_mem hdistinct hkinds trigger.source candles s
  · exact EvaluationTask.mem_evaluated_of_ne hdistinct hkinds trigger.source candles s name ht' note

/-! ## A cycle that reads candles -/

/-- Three evaluators write to a matrix that holds a note for another time frame and a note of the
other form. -/
def mixedEngine : Engine (ScriptedExchange ℚ) ℚ where
  exchangeName := "sim"
  exchange := ({} : ScriptedExchange ℚ).queueCandles "BTC/USDT" .oneHour
    [⟨0, 1, 1, 1, 1, 1⟩, ⟨3600000, 2, 2, 2, 2, 1⟩]
  market := ⟨10, 10, []⟩
  feed := ⟨["BTC/USDT"], [.oneHour], 10, false, [], [], []⟩
  desk := ⟨.empty 1, ⟨[]⟩, ⟨0, 0⟩, 10, []⟩
  evaluators :=
    [{ name := "count", kind := .technical, rule := .candleCount },
      { name := "asleep", kind := .technical, isActive := false, note := .value 1, rule := .fixed },
      { name := "news", kind := .social, note := .value 2, rule := .fixed }]
  evaluations :=
    [{ symbol := "BTC/USDT", timeFrames := [.oneHour], strategies := []
       matrix := ⟨[((.technical, "count"), .byTimeFrame [(.oneDay, .value 3)]),
        ((.technical, "asleep"), .single (.value 4))], []⟩ }]
  tasks := [{ owner := 0, timeFrame := .oneHour, evaluators := [0, 1, 2], candleLimit := some 1 }]
  exporter := { place := "" }

/-- Of the two candles that are read first the last one is evaluated, once. The note for another
time frame stays. -/
theorem cycle_effect_mixed :
    let e' := (mixedEngine.beginCycle 0 { source := "news", forceRefresh := true }).2
    ∃ s', e'.evaluations = [s'] ∧
      (∃ ev, e'.evaluators[0]? = some ev ∧ ev.runs = 1) ∧
      ⟨.technical, "count", some .oneHour, .value 1⟩ ∈ s'.matrix.snapshot ∧
      ⟨.technical, "asleep", some .oneHour, .pending⟩ ∈ s'.matrix.snapshot ∧
      ⟨.technical, "count", some .oneDay, .value 3⟩ ∈ s'.matrix.snapshot := by
  intro e'
  have haccepted : mixedEngine.accepts 0 { source := "news", forceRefresh := true } = true := rfl
  obtain ⟨hevaluators, ⟨s', hset, -, hplaces, -, htechnical⟩, -⟩ :=
    cycle_effect rfl rfl haccepted (by decide) (by decide)
  obtain ⟨ev, hev, -, hdue, -⟩ := hevaluators 0 _ rfl
  refine ⟨s', hset, ⟨ev, hev, (hdue (by decide) ⟨rfl, rfl, by decide⟩ _ rfl).2⟩, ?_, ?_, ?_⟩
  · exact (hplaces _ (List.mem_filterMap.2 ⟨0, by decide, rfl⟩) _).2 rfl
  · exact (hplaces _ (List.mem_filterMap.2 ⟨1, by decide, rfl⟩) _).2 rfl
  · exact (htechnical _ _ _ (by decide)).2 (Matrix.mem_snapshot.2 rfl)

/-- A note without a time frame goes when its evaluator writes one for a time frame, although it
stands neither at the place of an evaluator nor at that of a strategy. -/
theorem cycle_drops_other_form :
    let entry : MatrixEntry ℚ := ⟨.technical, "asleep", none, .value 4⟩
    ∃ t s s', mixedEngine.tasks[0]? = some t ∧ mixedEngine.ownerOf? t = some s ∧
      mixedEngine.accepts 0 { source := "test" } = true ∧
      (∀ ev ∈ t.members mixedEngine.evaluators, ev.kind ≠ .strategies) ∧
      (t.members mixedEngine.evaluators).Pairwise
        (fun ev ev' => (ev.kind, ev.name) ≠ (ev'.kind, ev'.name)) ∧
      (mixedEngine.beginCycle 0 { source := "test" }).2.evaluations = [s'] ∧
      (∀ ev ∈ t.members mixedEngine.evaluators, (entry.kind, entry.name, entry.timeFrame)
        ≠ (ev.kind, ev.name, ev.frame t.timeFrame)) ∧ s.strategies = [] ∧
      entry ∈ s.matrix.snapshot ∧ entry ∉ s'.matrix.snapshot := by
  refine ⟨_, _, _, rfl, rfl, rfl, by decide, by decide, rfl, by decide, rfl,
    Matrix.mem_snapshot.2 rfl, ?_⟩
  rw [Matrix.mem_snapshot]
  exact nofun

end Engine

end MarketEngine
