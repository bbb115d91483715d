import MarketEngine.Proofs.Trading.Solvency
import Mathlib.Data.List.Nodup
import Mathlib.Data.Option.Basic
import Mathlib.Data.Prod.Basic
/-!
# Tasks and the evaluations they belong to

Settings that pass their check are built into a session, with a task for each pair of a symbol and a
time frame; settings that do not are refused for what is wrong with them. The check does not ask
whether a symbol or a time frame is named twice. There is one task for each pair exactly where none
is, and every task belongs to the evaluation that its symbol is looked up with exactly where no
symbol is (`Session.build_wired`): an evaluation that is added for a symbol again takes the place of
the earlier one in the look-up, while the tasks of the earlier one go on writing to it.
-/

namespace MarketEngine

variable {σ α : Type}

section Latest

variable {β : Type} {p : β → Bool}

/-- The first entry is the latest one if no other has the property. -/
theorem latest?_cons_eq_zero {a : β} {rest : List β} :
    latest? p (a :: rest) = some 0 ↔ p a = true ∧ ∀ b ∈ rest, p b = false := by
  rw [latest?, ← latest?_eq_none]
  cases latest? p rest <;> simp

/-- A later entry is the latest one wherever the list begins. -/
theorem latest?_cons_eq_succ {a : β} {rest : List β} {i : Nat} :
    latest? p (a :: rest) = some (i + 1) ↔ latest? p rest = some i := by
  rw [latest?]
  cases latest? p rest <;> simp

/-- Each entry is the latest of those equal to it exactly where no entry comes twice. -/
theorem forall_latest?_iff_nodup [BEq β] [LawfulBEq β] {l : List β} :
    (∀ i b, l[i]? = some b → latest? (· == b) l = some i) ↔ l.Nodup := by
  induction l with
  | nil => simp
  | cons a rest ih =>
    rw [List.nodup_cons, ← ih]
    constructor
    · intro h
      refine ⟨fun ha => ?_, fun i b hb => latest?_cons_eq_succ.1 (h (i + 1) b hb)⟩
      have hother := (latest?_cons_eq_zero.1 (h 0 a rfl)).2 a ha
      simp at hother
    · rintro ⟨ha, h⟩ i b hb
      cases i with
      | zero =>
        obtain rfl : a = b := by simpa using hb
        refine latest?_cons_eq_zero.2 ⟨beq_self_eq_true a, fun x hx => beq_eq_false_iff_ne.2 ?_⟩
        rintro rfl
        exact ha hx
      | succ i => exact latest?_cons_eq_succ.2 (h i b hb)

end Latest

namespace Settings

variable {settings : Settings α}

/-- A pair occurs once for each time that its symbol and its time frame do. -/
theorem count_pairs (symbol : Symbol) (t : TimeFrame) :
    settings.pairs.count (symbol, t)
      = settings.symbols.count symbol * settings.timeFrames.count t := by
  have hrow : ∀ symbol', (settings.timeFrames.map (Prod.mk symbol')).count (symbol, t)
      = if symbol' = symbol then settings.timeFrames.count t else 0 := by
    intro symbol'
    split
    · next heq =>
      subst heq
      exact List.count_map_of_injective _ _ (Prod.mk_right_injective symbol') t
    · next hne =>
      rw [List.count_eq_zero]
      intro hmem
      obtain ⟨t', -, heq⟩ := List.mem_map.1 hmem
      exact hne (Prod.mk.inj heq).1
  unfold pairs
  induction settings.symbols with
  | nil => simp
  | cons symbol' rest ih =>
    rw [List.flatMap_cons, List.count_append, ih, hrow, List.count_cons, Nat.add_mul, Nat.add_comm]
    by_cases heq : symbol' = symbol <;> simp [heq]

/-- Valid settings name a symbol and a time frame. -/
theorem nonempty_of_validate [Amount α] (h : settings.validate = .ok ()) :
    settings.symbols ≠ [] ∧ settings.timeFrames ≠ [] := by
  unfold validate at h
  split at h
  · cases h
  · next hfault =>
    unfold fault? at hfault
    split at hfault
    · cases hfault
    · split at hfault
      · cases hfault
      · next hsymbols =>
        split at hfault
        · cases hfault
        · next htimeFrames =>
          exact ⟨fun h => hsymbols (h ▸ rfl), fun h => htimeFrames (h ▸ rfl)⟩

/-- With a symbol and a time frame at least, no pair comes twice exactly where none of the two
lists names anything twice. -/
theorem forall_count_pairs_iff (hsymbols : settings.symbols ≠ [])
    (htimeFrames : settings.timeFrames ≠ []) :
    (∀ pair ∈ settings.pairs, settings.pairs.count pair = 1) ↔
      settings.symbols.Nodup ∧ settings.timeFrames.Nodup := by
  constructor
  · intro h
    have hone : ∀ symbol ∈ settings.symbols, ∀ t ∈ settings.timeFrames,
        settings.symbols.count symbol = 1 ∧ settings.timeFrames.count t = 1 := by
      intro symbol hsymbol t ht
      have hpair := h (symbol, t) (mem_pairs.2 ⟨hsymbol, ht⟩)
      rw [count_pairs] at hpair
      exact ⟨Nat.eq_one_of_mul_eq_one_right hpair, Nat.eq_one_of_mul_eq_one_left hpair⟩
    obtain ⟨symbol, hsymbol⟩ := List.exists_mem_of_ne_nil _ hsymbols
    obtain ⟨t, ht⟩ := List.exists_mem_of_ne_nil _ htimeFrames
    exact ⟨List.nodup_iff_count_eq_one.2 fun symbol' hsymbol' => (hone symbol' hsymbol' t ht).1,
      List.nodup_iff_count_eq_one.2 fun t' ht' => (hone symbol hsymbol t' ht').2⟩
  · rintro ⟨hnodup, hnodup'⟩ ⟨symbol, t⟩ hpair
    obtain ⟨hsymbol, ht⟩ := mem_pairs.1 hpair
    rw [count_pairs, List.count_eq_one_of_mem hnodup hsymbol,
      List.count_eq_one_of_mem hnodup' ht]

end Settings

namespace Engine

/-- The number of tasks of a pair. -/
def taskCount (e : Engine σ α) (pair : Symbol × TimeFrame) : Nat := e.pairs.count (some pair)

/-- Every task belongs to the evaluation that its symbol is looked up with. -/
def TasksFindable (e : Engine σ α) : Prop :=
  ∀ i task symbol, e.tasks[i]? = some task → e.pair? i = some (symbol, task.timeFrame) →
    e.evaluationOf? symbol = some task.owner

end Engine

namespace Session

section Built

variable (settings : Settings α) (plan : Plan α) (exchange : σ) (exporter : Exporter)
  (folder : Folder)

/-- A pair has as many tasks as it occurs. -/
theorem taskCount_engine (pair : Symbol × TimeFrame) :
    (engine settings plan exchange exporter folder).taskCount pair = settings.pairs.count pair := by
  rw [Engine.taskCount, pairs_engine,
    List.count_map_of_injective _ _ (Option.some_injective _)]

/-- A symbol leads to the last evaluation that was made for it. -/
theorem evaluationOf?_engine (symbol : Symbol) :
    (engine settings plan exchange exporter folder).evaluationOf? symbol
      = latest? (· == symbol) settings.symbols := by
  have hsymbols := congrArg Prod.snd (roster_engine settings plan exchange exporter folder)
  have hlatest := congrArg (latest? (·.1 == symbol)) hsymbols
  rw [Engine.roster, latest?_map, latest?_map] at hlatest
  exact hlatest

/-- The tasks of the symbol at a place belong to the evaluation with its number. -/
theorem exists_task_engine_iff (owner : Nat) (t : TimeFrame) :
    (∃ (i : Nat) (task : EvaluationTask),
      (engine settings plan exchange exporter folder).tasks[i]? = some task ∧
        task.owner = owner ∧ task.timeFrame = t) ↔
      owner < settings.symbols.length ∧ t ∈ settings.timeFrames := by
  have hlisted : (∃ (i : Nat) (task : EvaluationTask),
      (engine settings plan exchange exporter folder).tasks[i]? = some task ∧
        task.owner = owner ∧ task.timeFrame = t) ↔
      ∃ exports, (owner, t, exports)
        ∈ (engine settings plan exchange exporter folder).roster.1 := by
    simp only [Engine.roster, List.mem_iff_getElem?, List.getElem?_map, Option.map_eq_some_iff,
      Prod.mk.injEq]
    constructor
    · rintro ⟨i, task, htask, howner, ht⟩
      exact ⟨task.exports, i, task, htask, howner, ht, rfl⟩
    · rintro ⟨_, i, task, htask, howner, ht, -⟩
      exact ⟨i, task, htask, howner, ht⟩
  rw [hlisted, roster_engine]
  simp only [List.mem_flatMap, List.mem_map, Prod.mk.injEq, Prod.exists,
    List.mk_mem_zipIdx_iff_getElem?]
  constructor
  · rintro ⟨_, symbol, _, hsymbol, t', ht', rfl, rfl, -⟩
    exact ⟨(List.getElem?_eq_some_iff.1 hsymbol).1, ht'⟩
  · rintro ⟨howner, ht⟩
    exact ⟨_, _, owner, List.getElem?_eq_getElem howner, t, ht, rfl, rfl, rfl⟩

/-- A task belongs to the pair of its owner's symbol and its own time frame. -/
theorem pair?_of_task {i : Nat} {task : EvaluationTask}
    (htask : (engine settings plan exchange exporter folder).tasks[i]? = some task) :
    ∃ symbol, settings.symbols[task.owner]? = some symbol ∧
      (engine settings plan exchange exporter folder).pair? i = some (symbol, task.timeFrame) := by
  obtain ⟨howner, -⟩ := (exists_task_engine_iff settings plan exchange exporter folder task.owner
    task.timeFrame).1 ⟨i, task, htask, rfl, rfl⟩
  have hsymbols := congrArg (fun r => (Prod.snd r)[task.owner]?)
    (roster_engine settings plan exchange exporter folder)
  simp only [Engine.roster, List.getElem?_map, List.getElem?_eq_getElem howner,
    Option.map_some] at hsymbols
  obtain ⟨evaluation, hevaluation, heq⟩ := Option.map_eq_some_iff.1 hsymbols
  refine ⟨settings.symbols[task.owner], List.getElem?_eq_getElem howner, ?_⟩
  simp [Engine.pair?, Engine.ownerOf?, htask, hevaluation, (Prod.mk.inj heq).1]

/-- Every task belongs to the evaluation that its symbol is looked up with if and only if the
symbols are distinct. -/
theorem tasksFindable_engine_iff (htimeFrames : settings.timeFrames ≠ []) :
    (engine settings plan exchange exporter folder).TasksFindable ↔ settings.symbols.Nodup := by
  rw [← forall_latest?_iff_nodup]
  simp only [Engine.TasksFindable, evaluationOf?_engine]
  constructor
  · intro h owner symbol hsymbol
    obtain ⟨t, ht⟩ := List.exists_mem_of_ne_nil _ htimeFrames
    obtain ⟨i, task, htask, rfl, rfl⟩ := (exists_task_engine_iff settings plan exchange exporter
      folder owner t).2 ⟨(List.getElem?_eq_some_iff.1 hsymbol).1, ht⟩
    obtain ⟨symbol', hsymbol', hpair⟩ := pair?_of_task settings plan exchange exporter folder htask
    obtain rfl : symbol = symbol' := Option.some.inj (hsymbol.symm.trans hsymbol')
    exact h i task symbol htask hpair
  · intro h i task symbol htask hpair
    obtain ⟨symbol', hsymbol', hpair'⟩ := pair?_of_task settings plan exchange exporter folder htask
    obtain rfl : symbol' = symbol :=
      (Prod.mk.inj (Option.some.inj (hpair'.symm.trans hpair))).1
    exact h task.owner symbol' hsymbol'

end Built

/-- **What is built from settings.** Settings are refused for their fault. From others a session is
built, with the tasks of all pairs in turn: one for each pair if nothing is named twice, and all of
them findable if no symbol is. -/
theorem build_wired [Amount α] (settings : Settings α) (plan : Plan α) (exchange : σ)
    (exporter : Exporter) (folder : Folder) :
    (∀ e, settings.validate = .error e →
      build settings plan exchange exporter folder = .error e) ∧
    (settings.validate = .ok () → ∃ s, build settings plan exchange exporter folder = .ok s ∧
      s.shared.pairs = settings.pairs.map some ∧
      ((∀ pair ∈ settings.pairs, s.shared.taskCount pair = 1) ↔
        settings.symbols.Nodup ∧ settings.timeFrames.Nodup) ∧
      (s.shared.TasksFindable ↔ settings.symbols.Nodup)) := by
  constructor
  · intro e hfault
    rw [build, hfault]
    rfl
  · intro hvalid
    obtain ⟨hsymbols, htimeFrames⟩ := Settings.nonempty_of_validate hvalid
    obtain ⟨s, hs⟩ : ∃ s, build settings plan exchange exporter folder = .ok s :=
      ⟨_, build_eq_ok_iff.2 ⟨hvalid, rfl⟩⟩
    refine ⟨s, hs, ?_⟩
    rw [(opened_build hs).1]
    refine ⟨pairs_engine settings plan exchange exporter folder, ?_,
      tasksFindable_engine_iff settings plan exchange exporter folder htimeFrames⟩
    simp only [taskCount_engine]
    exact Settings.forall_count_pairs_iff hsymbols htimeFrames

/-! ## A symbol that is named twice -/

/-- Settings with one time frame. -/
def hourlySettings (symbols : List Symbol) : Settings ℚ :=
  { holderSettings 0 with symbols, timeFrames := [.oneHour] }

/-- The hourly settings are valid as soon as they name a symbol. -/
theorem validate_hourlySettings {symbols : List Symbol} (h : symbols ≠ []) :
    (hourlySettings symbols).validate = .ok () := by
  have hname : (Text.trim "sim").isEmpty = false := by decide +kernel
  have hsymbols : symbols.isEmpty = false := by simpa using h
  have hfee : ¬(0 : ℚ) < Amount.zero := lt_irrefl 0
  simp [Settings.validate, Settings.fault?, Settings.sizes, hourlySettings, holderSettings, hname,
    hsymbols, hfee]

/-- Two symbols with one time frame: two tasks, and each is found under its symbol. -/
theorem build_wired_distinct :
    ∃ s, build (hourlySettings ["BTC/USDT", "ETH/USDT"]) .standard ({} : ScriptedExchange ℚ)
        { place := "" } {} = .ok s ∧
      s.shared.pairs = [some ("BTC/USDT", .oneHour), some ("ETH/USDT", .oneHour)] ∧
      (∀ pair ∈ (hourlySettings ["BTC/USDT", "ETH/USDT"]).pairs, s.shared.taskCount pair = 1) ∧
      s.shared.TasksFindable := by
  obtain ⟨s, hs, hpairs, hcounts, hfindable⟩ :=
    (build_wired (hourlySettings ["BTC/USDT", "ETH/USDT"]) .standard ({} : ScriptedExchange ℚ)
      { place := "" } {}).2 (validate_hourlySettings (by decide))
  exact ⟨s, hs, hpairs, hcounts.2 (by decide), hfindable.2 (by decide)⟩

/-- Settings that name a symbol twice pass their check. The session that is built from them has two
tasks for its only pair, and the first of the two belongs to an evaluation that the symbol is not
looked up with. -/
theorem build_wired_fails :
    (hourlySettings ["BTC/USDT", "BTC/USDT"]).validate = .ok () ∧
    ∃ s, build (hourlySettings ["BTC/USDT", "BTC/USDT"]) .standard ({} : ScriptedExchange ℚ)
        { place := "" } {} = .ok s ∧
      s.shared.taskCount ("BTC/USDT", .oneHour) = 2 ∧
      s.shared.pair? 0 = some ("BTC/USDT", .oneHour) ∧
      (s.shared.tasks[0]?).map (·.owner) = some 0 ∧
      s.shared.evaluationOf? "BTC/USDT" = some 1 := by
  have hvalid : (hourlySettings ["BTC/USDT", "BTC/USDT"]).validate = .ok () :=
    validate_hourlySettings (by decide)
  obtain ⟨s, hs⟩ : ∃ s, build (hourlySettings ["BTC/USDT", "BTC/USDT"]) .standard
      ({} : ScriptedExchange ℚ) { place := "" } {} = .ok s :=
    ⟨_, build_eq_ok_iff.2 ⟨hvalid, rfl⟩⟩
  refine ⟨hvalid, s, hs, ?_⟩
  rw [(opened_build hs).1]
  decide +kernel

end Session

end MarketEngine
