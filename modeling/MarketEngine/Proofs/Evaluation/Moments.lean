import MarketEngine.Proofs.Evaluation.Posts
/-!
# Moments of cycles

A cycle has three moments: it is accepted and writes its notes, its verdicts are due, and it ends.
What the matrices, the verdicts and the exports of an engine are is decided at these moments alone:
while every evaluation has its producers, each accepted cycle hands on the matrix as it stands then,
each cycle whose verdicts are due hands them on if its trigger asks for them and every time frame
was read by then, and each cycle that ends exports the matrix if its task exports and every time
frame was read by then (`Accounts`).
-/

namespace MarketEngine

variable {σ α : Type}

/-- The exporter and its folder after it was asked to save a snapshot. If it fails, nothing was
done. -/
def Exporter.attempt [Amount α] [Written α] (archive : Exporter × Folder)
    (save : Symbol × MatrixSnapshot α) : Exporter × Folder :=
  match archive.1.save archive.2 save.1 save.2 with
  | .ok archive => archive
  | .error _ => archive

namespace Engine

/-- The evaluation that a task belongs to. -/
def evaluationAt? (e : Engine σ α) (i : Nat) : Option (SymbolEvaluation α) :=
  (e.tasks[i]?).bind e.ownerOf?

/-- A task belongs to the evaluation that owns it. -/
theorem evaluationAt?_eq_some {e : Engine σ α} {i : Nat} {s : SymbolEvaluation α} :
    e.evaluationAt? i = some s ↔ ∃ t, e.tasks[i]? = some t ∧ e.ownerOf? t = some s :=
  Option.bind_eq_some_iff

/-- Every evaluation has its producers. -/
def Publishes (e : Engine σ α) : Prop := ∀ s ∈ e.evaluations, s.publishes = true

/-- Evaluations keep their producers as long as everybody stays wired. -/
theorem Publishes.grows {e e' : Engine σ α} (h : e.Publishes) (hgrows : e.Grows e') :
    e'.Publishes := by
  intro s hs
  have hentry : (s.symbol, s.timeFrames, s.publishes) ∈ e.roster.2 := by
    rw [← hgrows.roster_eq]
    exact List.mem_map.2 ⟨s, hs, rfl⟩
  obtain ⟨s', hs', heq⟩ := List.mem_map.1 hentry
  simp only [Prod.mk.injEq] at heq
  rw [← heq.2.2]
  exact h s' hs'

/-- What has nothing to do with cycles spares them. -/
theorem Neutral.spares {e : Engine σ α} {raised : List (Message (Payload α))}
    {outcome : Outcome σ α} (h : e.Neutral raised outcome) : e.Spares outcome.2 :=
  .of_eq h.tasks_eq h.evaluations_eq h.exporter_eq h.folder_eq fun _ _ => by rw [h.feed_eq]

/-- A task that is changed stays wired if its owner, its time frame and its export do. -/
theorem roster_modifyTask (e : Engine σ α) (i : Nat) {f : EvaluationTask → EvaluationTask}
    (hf : ∀ t, ((f t).owner, (f t).timeFrame, (f t).exports) = (t.owner, t.timeFrame, t.exports)) :
    (e.modifyTask i f).roster = e.roster := by
  simp only [roster, modifyTask,
    map_modify (g := fun t : EvaluationTask => (t.owner, t.timeFrame, t.exports)) hf]

/-- An evaluation that is changed stays wired if its symbol, its time frames and its producers do.
-/
theorem roster_modifyEvaluation (e : Engine σ α) (n : Nat)
    {f : SymbolEvaluation α → SymbolEvaluation α}
    (hf : ∀ s, ((f s).symbol, (f s).timeFrames, (f s).publishes)
      = (s.symbol, s.timeFrames, s.publishes)) :
    (e.modifyEvaluation n f).roster = e.roster := by
  simp only [roster, modifyEvaluation,
    map_modify (g := fun s : SymbolEvaluation α => (s.symbol, s.timeFrames, s.publishes)) hf]

variable [Amount α]

/-- The verdicts of a task's strategies, if they are asked for and every time frame was read. -/
def request? (e : Engine σ α) (i : Nat) (trigger : Trigger) : Option (Message (Payload α)) := do
  let s ← e.evaluationAt? i
  if trigger.finalize && e.isInitialized s then
    some ⟨{ symbol := s.symbol }, .finalize (s.finalizeRequest e.exchangeName)⟩
  else none

/-- What the exporter is asked to save for a task, if the task exports and every time frame was
read. -/
def saved? (e : Engine σ α) (i : Nat) : Option (Symbol × MatrixSnapshot α) := do
  let t ← e.tasks[i]?
  let s ← e.ownerOf? t
  if t.exports && e.isInitialized s then some (s.symbol, s.matrix.snapshot) else none

variable [Written α]

/-- With its producers, a cycle hands on its verdicts if they are due, and ends otherwise. -/
theorem handOnVerdicts_eq {e : Engine σ α} (h : e.Publishes) (i : Nat) (trigger : Trigger) :
    e.handOnVerdicts i trigger = match e.request? i trigger with
      | some m => (.send .tradingMode m (.conclusion i), e)
      | none => e.conclude i := by
  have hrequest : (do
      let s ← e.ownerOf? (← e.tasks[i]?)
      if trigger.finalize then e.verdictsOf? s else none) = e.request? i trigger := by
    unfold request? evaluationAt?
    cases e.tasks[i]? with
    | none => rfl
    | some t =>
      cases hs : e.ownerOf? t with
      | none => simp [hs]
      | some s =>
        have hpublishes : s.publishes = true := h s (List.mem_of_getElem? hs)
        cases trigger.finalize <;> simp [hs, verdictsOf?, hpublishes]
  cases hm : e.request? i trigger with
  | none =>
    rw [hm] at hrequest
    simp only [handOnVerdicts, hrequest]
  | some m =>
    rw [hm] at hrequest
    simp only [handOnVerdicts, hrequest]

/-- At the end of a cycle everybody stays wired, and no candles are forgotten. -/
theorem grows_conclude (e : Engine σ α) (i : Nat) : e.Grows (e.conclude i).2 := by
  obtain ⟨failure, exporter, folder, h⟩ := e.conclude_eq i
  rw [h]
  exact ⟨e.roster_modifyTask i fun _ => rfl, fun _ _ => Nat.le_refl _⟩

omit [Amount α] [Written α] in
/-- What there is to save does not depend on how many cycles were counted. -/
theorem saved?_modifyTask (e : Engine σ α) (i : Nat) {f : EvaluationTask → EvaluationTask}
    (hf : ∀ t, (f t).owner = t.owner ∧ (f t).exports = t.exports) :
    (e.modifyTask i f).saved? i = e.saved? i := by
  simp only [saved?, modifyTask, List.getElem?_modify_eq]
  cases e.tasks[i]? with
  | none => rfl
  | some t =>
    obtain ⟨howner, hexports⟩ := hf t
    simp only [Option.map_eq_map, Option.map_some, bind, Option.bind_some, ownerOf?, howner,
      hexports]
    rfl

/-- An export asks the exporter once, whether that fails or not. -/
theorem archive_exportTask (e : Engine σ α) (s : SymbolEvaluation α) :
    (match e.exportTask s with
      | .ok e => ((.done, e) : Outcome σ α)
      | .error failure => (.done (some failure), e)).2.archive
      = Exporter.attempt e.archive (s.symbol, s.matrix.snapshot) := by
  unfold exportTask Exporter.attempt archive
  cases e.exporter.save e.folder s.symbol s.matrix.snapshot <;> rfl

/-- At the end of a cycle the exporter is asked to save what there is to save. -/
theorem archive_conclude (e : Engine σ α) (i : Nat) :
    (e.conclude i).2.archive = (e.saved? i).toList.foldl Exporter.attempt e.archive := by
  obtain ⟨e', he'⟩ : ∃ e', e' = e.modifyTask i fun t => { t with cycles := t.cycles + 1 } :=
    ⟨_, rfl⟩
  have hsaved : e'.saved? i = e.saved? i := by
    rw [he']
    exact e.saved?_modifyTask i fun _ => ⟨rfl, rfl⟩
  have harchive : e'.archive = e.archive := by
    rw [he']
    rfl
  rw [← hsaved, ← harchive]
  unfold conclude saved?
  simp only [← he']
  cases e'.tasks[i]? with
  | none => rfl
  | some t =>
    cases hs : e'.ownerOf? t with
    | none => simp [hs]
    | some s =>
      simp only [hs, bind, Option.bind_some]
      by_cases hexports : (t.exports && e'.isInitialized s) = true
      · rw [if_pos hexports, if_pos hexports]
        exact e'.archive_exportTask s
      · rw [if_neg hexports, if_neg hexports]
        rfl

variable [Exchange σ α]

/-- A trigger that is not accepted changes nothing. -/
theorem beginCycle_of_dropped {e : Engine σ α} {i : Nat} {trigger : Trigger}
    (h : e.accepts i trigger = false) : e.beginCycle i trigger = (.done, e) := by
  have hbegin := e.beginCycle_spec i trigger
  generalize e.beginCycle i trigger = outcome at hbegin ⊢
  generalize e.forced i trigger = read at hbegin
  cases hbegin with
  | dropped => rfl
  | accepted haccepted => simp [h] at haccepted

/-- An accepted cycle hands on the matrix right after the strategies wrote their notes. -/
theorem beginCycle_of_accepted {e : Engine σ α} (hpublishes : e.Publishes) {i : Nat}
    {trigger : Trigger} (h : e.accepts i trigger = true) :
    ∃ e' s, e.beginCycle i trigger
        = (.send .strategy (e'.matrixMessage (SymbolEvaluation.updateStrategies s))
            (.verdicts i trigger), e') ∧
      e'.evaluationAt? i = some s.updateStrategies ∧ e.Spares e' := by
  obtain ⟨t, s, ht, hs, haccepts⟩ := exists_of_accepts h
  -- the engine after the candles were read, and then after the evaluators' turns
  obtain ⟨e₁, he₁⟩ : ∃ e₁, e₁ = if (trigger.forceRefresh && t.refreshes) = true then
    (e.refreshCandles s.symbol t.timeFrame).1 else e := ⟨_, rfl⟩
  have hread : e₁.tasks = e.tasks ∧ e₁.evaluations = e.evaluations ∧ e.Spares e₁ := by
    rw [he₁]
    split
    · obtain ⟨-, htasks, hevaluations⟩ := e.refreshCandles_spec s.symbol t.timeFrame
      exact ⟨htasks, hevaluations, e.spares_refreshCandles s.symbol t.timeFrame⟩
    · exact ⟨rfl, rfl, ⟨.refl e, rfl⟩⟩
  obtain ⟨matrix, evaluators, hevaluate⟩ : ∃ matrix evaluators,
      e₁.evaluateTask t s trigger.source = { e₁.modifyEvaluation t.owner fun s =>
        SymbolEvaluation.updateStrategies { s with matrix } with evaluators } := ⟨_, _, rfl⟩
  obtain ⟨e₂, he₂⟩ : ∃ e₂, e₂ = (e₁.evaluateTask t s trigger.source).modifyTask i
    ({ · with started := true }) := ⟨_, rfl⟩
  have howner : e₂.ownerOf? t = some (SymbolEvaluation.updateStrategies { s with matrix }) := by
    rw [he₂, hevaluate]
    simp only [ownerOf?, modifyTask, modifyEvaluation, List.getElem?_modify_eq, hread.2.1,
      show e.evaluations[t.owner]? = some s from hs]
    rfl
  refine ⟨e₂, { s with matrix }, ?_, ?_, hread.2.2.trans ⟨⟨?_, fun _ _ => ?_⟩, ?_⟩⟩
  · have hpublished : (SymbolEvaluation.updateStrategies { s with matrix }).publishes = true :=
      hpublishes s (List.mem_of_getElem? hs)
    unfold beginCycle
    simp only [ht, hs, haccepts, if_true, ← he₁, ← he₂, howner, hpublished]
  · have htask : e₂.tasks[i]? = some { t with started := true } := by
      rw [he₂, hevaluate]
      simp only [modifyTask, modifyEvaluation, List.getElem?_modify_eq, hread.1, ht]
      rfl
    rw [evaluationAt?, htask, Option.bind_some, ← howner]
    rfl
  · have hmarked := (e₁.evaluateTask t s trigger.source).roster_modifyTask i
      (f := ({ · with started := true })) fun _ => rfl
    rw [he₂, hmarked, hevaluate]
    exact e₁.roster_modifyEvaluation t.owner fun _ => rfl
  · rw [he₂, hevaluate]
    exact Nat.le_refl _
  · rw [he₂, hevaluate]
    rfl

end Engine

/-! ## The moments that deeds are -/

/-- A moment in the course of a cycle. -/
structure Moment (σ α : Type) where
  task : Nat
  trigger : Trigger
  engine : Engine σ α

abbrev SessionDeed (σ α : Type) := Deed Role (Payload α) (Engine σ α) (Stage α)

abbrev SessionStory (σ α : Type) := Story Role (Payload α) (Engine σ α) (Stage α)

namespace Moment

/-- The matrix of the task's symbol. -/
def matrix? (m : Moment σ α) : Option (Message (Payload α)) :=
  (m.engine.evaluationAt? m.task).map m.engine.matrixMessage

/-- The verdicts of the task's strategies, if they are handed on. -/
def request? [Amount α] (m : Moment σ α) : Option (Message (Payload α)) :=
  m.engine.request? m.task m.trigger

end Moment

section Deeds

variable [Amount α] [Written α]

namespace Deed

/-- The moment when a cycle has just written its notes, if the deed is that a trigger was
accepted. -/
def accepted? [Exchange σ α] (d : SessionDeed σ α) : Option (Moment σ α) :=
  match d.act with
  | .begin _ role m => (role.call? m).bind fun (i, trigger) =>
    if d.found.accepts i trigger then some ⟨i, trigger, (d.found.beginCycle i trigger).2⟩ else none
  | .goOn _ => none

omit [Amount α] [Written α] in
/-- The moment when the verdicts of a cycle are due. -/
def judged? (d : SessionDeed σ α) : Option (Moment σ α) :=
  match d.act with
  | .goOn (.verdicts i trigger) => some ⟨i, trigger, d.found⟩
  | _ => none

omit [Written α] in
/-- The moment when a cycle of a task ends: after its verdicts, or at once if it has none to hand
on. -/
def ended? (d : SessionDeed σ α) : Option (Nat × Engine σ α) :=
  match d.act with
  | .goOn (.verdicts i trigger) =>
    if (d.found.request? i trigger).isNone then some (i, d.found) else none
  | .goOn (.conclusion i) => some (i, d.found)
  | _ => none

end Deed

variable [Exchange σ α]

/-- What a deed can come to while every evaluation has its producers. -/
inductive Deed.Turn (d : SessionDeed σ α) : Engine.Outcome σ α → Prop
  | aside {raised : List (Message (Payload α))} {outcome : Engine.Outcome σ α}
    (hneutral : d.found.Neutral raised outcome) (haccepted : d.accepted? = none)
    (hjudged : d.judged? = none) (hended : d.ended? = none) : Turn d outcome
  | accepts {i : Nat} {trigger : Trigger} {e : Engine σ α} {s : SymbolEvaluation α}
    (haccepted : d.accepted? = some ⟨i, trigger, e⟩) (hjudged : d.judged? = none)
    (hended : d.ended? = none) (hs : e.evaluationAt? i = some s.updateStrategies)
    (hspares : d.found.Spares e) :
    Turn d (.send .strategy (e.matrixMessage s.updateStrategies) (.verdicts i trigger), e)
  | judges {i : Nat} {trigger : Trigger} {m : Message (Payload α)}
    (hact : d.act = .goOn (.verdicts i trigger)) (hm : d.found.request? i trigger = some m) :
    Turn d (.send .tradingMode m (.conclusion i), d.found)
  | judgesAndEnds {i : Nat} {trigger : Trigger} (hact : d.act = .goOn (.verdicts i trigger))
    (hnone : d.found.request? i trigger = none) : Turn d (d.found.conclude i)
  | ends {i : Nat} (hact : d.act = .goOn (.conclusion i)) : Turn d (d.found.conclude i)

/-- Every deed is one of these: it has nothing to do with cycles, or it is an accepted trigger, due
verdicts or the end of a cycle. -/
theorem Deed.turn {d : SessionDeed σ α} (h : d.found.Publishes) :
    d.Turn (d.act.outcome Engine.handlers d.found) := by
  obtain ⟨found, act⟩ := d
  cases act with
  | begin a role m =>
    have houtcome : (Act.begin a role m).outcome Engine.handlers found
      = Engine.startMessage role m found := rfl
    rw [houtcome]
    -- only a task's own consumer begins cycles, and only with triggers that the task accepts
    cases hcall : role.call? m with
    | none =>
      exact .aside (Engine.neutral_startMessage hcall found) (by simp [accepted?, hcall]) rfl rfl
    | some call =>
      obtain ⟨i, trigger⟩ := call
      rw [Engine.startMessage_of_call hcall]
      cases haccepts : found.accepts i trigger with
      | false =>
        rw [Engine.beginCycle_of_dropped haccepts]
        exact .aside found.neutral_refl (by simp [accepted?, hcall, haccepts]) rfl rfl
      | true =>
        obtain ⟨e', s, hbegin, hs, hspares⟩ := Engine.beginCycle_of_accepted h haccepts
        rw [hbegin]
        exact .accepts (by simp [accepted?, hcall, haccepts, hbegin]) rfl rfl hs hspares
  | goOn stage =>
    have houtcome : (Act.goOn stage).outcome Engine.handlers found
      = Engine.resumeStage stage found := rfl
    rw [houtcome]
    cases stage with
    | verdicts i trigger =>
      rw [Engine.resumeStage, Engine.handOnVerdicts_eq h]
      cases hrequest : found.request? i trigger with
      | none => exact .judgesAndEnds rfl hrequest
      | some m => exact .judges rfl hrequest
    | conclusion i => exact .ends rfl
    | matching w => exact .aside (Engine.neutral_resumeStage rfl found) rfl rfl rfl
    | nothing => exact .aside (Engine.neutral_resumeStage rfl found) rfl rfl rfl

/-- What a deed adds to what is handed on and exported, by its moments. -/
structure Deed.Adds (d : SessionDeed σ α) (outcome : Engine.Outcome σ α) : Prop where
  grows : d.found.Grows outcome.2
  written : ∀ m ∈ d.accepted?, ∃ s, m.engine.evaluationAt? m.task
    = some (SymbolEvaluation.updateStrategies s)
  matrices : ((outcome.1.sends.filter (·.1 = .strategy)).map (·.2)).map some
    = d.accepted?.toList.map Moment.matrix?
  requests : (outcome.1.sends.filter (·.1 = .tradingMode)).map (·.2)
    = d.judged?.toList.filterMap Moment.request?
  archive_eq : outcome.2.archive
    = (d.ended?.toList.filterMap fun (i, e) => e.saved? i).foldl Exporter.attempt d.found.archive

/-- Whichever turn a deed takes, it adds what its moment says: an accepted trigger its matrix, due
verdicts their request, the end of a cycle its export, and anything else nothing. -/
theorem Deed.Turn.adds {d : SessionDeed σ α} {outcome : Engine.Outcome σ α}
    (h : d.Turn outcome) : d.Adds outcome := by
  -- a cycle that ends here, and hands nothing on, adds its export
  have hconclude : ∀ {i}, d.judged?.toList.filterMap Moment.request? = [] → d.accepted? = none →
      d.ended? = some (i, d.found) → d.Adds (d.found.conclude i) := by
    intro i hjudged haccepted hended
    obtain ⟨failure, hdone⟩ := (d.found.conclude_spec i).done
    refine ⟨d.found.grows_conclude i, by simp [haccepted], ?_, ?_, ?_⟩
    · rw [hdone, haccepted]
      rfl
    · rw [hdone, hjudged]
      rfl
    · rw [d.found.archive_conclude, hended]
      cases hsaved : d.found.saved? i <;> simp [hsaved]
  cases h with
  | aside hneutral haccepted hjudged hended =>
    refine ⟨hneutral.spares.toGrows, by simp [haccepted], ?_, ?_, ?_⟩
    · rw [hneutral.sends_eq, haccepted]
      simp [List.filter_map, Function.comp_def]
    · rw [hneutral.sends_eq, hjudged]
      simp [List.filter_map, Function.comp_def]
    · rw [hneutral.spares.archive_eq, hended]
      rfl
  | accepts haccepted hjudged hended hs hspares =>
    refine ⟨hspares.toGrows, ?_, ?_, ?_, ?_⟩
    · rw [haccepted]
      rintro m ⟨rfl⟩
      exact ⟨_, hs⟩
    · rw [haccepted]
      simp [Next.sends, Moment.matrix?, hs]
    · rw [hjudged]
      simp [Next.sends]
    · rw [hended]
      exact hspares.archive_eq
  | @judges i trigger m hact hm =>
    have hjudged : d.judged? = some ⟨i, trigger, d.found⟩ := by rw [judged?, hact]
    have haccepted : d.accepted? = none := by rw [accepted?, hact]
    have hended : d.ended? = none := by simp [ended?, hact, hm]
    refine ⟨.refl _, by simp [haccepted], ?_, ?_, ?_⟩
    · rw [haccepted]
      simp [Next.sends]
    · rw [hjudged]
      simp [Next.sends, Moment.request?, hm]
    · rw [hended]
      rfl
  | @judgesAndEnds i trigger hact hnone =>
    have hjudged : d.judged? = some ⟨i, trigger, d.found⟩ := by rw [judged?, hact]
    refine hconclude ?_ (by rw [accepted?, hact]) (by simp [ended?, hact, hnone])
    rw [hjudged]
    simp [Moment.request?, hnone]
  | ends hact =>
    refine hconclude ?_ (by rw [accepted?, hact]) (by rw [ended?, hact])
    rw [judged?, hact]
    rfl

/-! ## The moments of a story -/

/-- The moments when cycles had just written their notes, in order. -/
def Story.accepted (r : SessionStory σ α) : List (Moment σ α) := r.deeds.filterMap Deed.accepted?

omit [Amount α] [Written α] [Exchange σ α] in
/-- The moments when verdicts were due, in order. -/
def Story.judged (r : SessionStory σ α) : List (Moment σ α) := r.deeds.filterMap Deed.judged?

omit [Written α] [Exchange σ α] in
/-- The moments when cycles ended, in order. -/
def Story.ended (r : SessionStory σ α) : List (Nat × Engine σ α) := r.deeds.filterMap Deed.ended?

section Perform

variable (r : SessionStory σ α) (others : List (Stage α)) (act : Act Role (Payload α) (Stage α))

/-- One more deed may be one more accepted trigger. -/
theorem Story.accepted_perform : (r.perform Engine.handlers others act).accepted
    = r.accepted ++ (Deed.accepted? ⟨r.shared, act⟩).toList := filterMap_concat _ _ _

/-- One more deed may be one more moment of verdicts. -/
theorem Story.judged_perform : (r.perform Engine.handlers others act).judged
    = r.judged ++ (Deed.judged? ⟨r.shared, act⟩).toList := filterMap_concat _ _ _

/-- One more deed may be one more end of a cycle. -/
theorem Story.ended_perform : (r.perform Engine.handlers others act).ended
    = r.ended ++ (Deed.ended? ⟨r.shared, act⟩).toList := filterMap_concat _ _ _

end Perform

/-- What somebody outside does leaves the cycles to themselves: only cycles hand on matrices and
verdicts. -/
structure Occurrence.Proper (o : Occurrence Role (Payload α) (Engine σ α)) : Prop where
  within : o.Within Session.dealings
  post : ∀ ⦃topic : Topic⦄ ⦃m : Message (Payload α)⦄, o.post? = some (topic, m) →
    topic ≠ .strategy ∧ topic ≠ .tradingMode

namespace Session

omit [Written α] [Exchange σ α] in
/-- At its beginning a session has no story yet. -/
theorem World.tells {s : Session σ α} (h : World s) :
    Story.Tells ({ shared := s.shared } : SessionStory σ α) [] s := by
  refine h.induction (P := fun s => Story.Tells ({ shared := s.shared } : SessionStory σ α) [] s)
    (fun _ queueSize tradeFilterSize => ⟨rfl, .refl _, List.nodup_nil, fun topic => ?_⟩)
    fun {s} hs topic role _ subscription => ?_
  · cases topic <;> exact ⟨_, rfl, rfl, fun _ => rfl⟩
  · have hsubscribed := hs.modify topic fun c => c.silent_subscribe role subscription
    have hshared : (Network.subscribe s topic role subscription).shared = s.shared :=
      hsubscribed.shared_eq
    rw [hshared]
    exact hsubscribed

/-- The story of a session from its beginning on. -/
def story (s₀ : Session σ α) (all : List (Occurrence Role (Payload α) (Engine σ α))) :
    SessionStory σ α :=
  Story.run Engine.handlers { shared := s₀.shared } all

/-- These occurrences are how some events went, from the beginning of a session on: they lead to
where the session is then, and what was posted and which tasks were called from outside is what the
events say. -/
structure Recounts (s₀ : Session σ α) (events : List (SessionEvent σ α))
    (all : List (Occurrence Role (Payload α) (Engine σ α))) : Prop where
  proper : ∀ o ∈ all, o.Proper
  posts : all.filterMap Occurrence.post? = (s₀.allPosts events).map fun m => (m.payload.topic, m)
  calls : all.filterMap Occurrence.call? = events.flatMap calls
  tells : (s₀.story all).Tells [] (s₀.after events)

/-- Whatever happens to a session has a story. -/
theorem exists_recounts {s₀ : Session σ α} (hworld : World s₀) {events : List (SessionEvent σ α)}
    (hproper : ∀ event ∈ events, event.Proper) :
    ∃ all, s₀.Recounts events all := by
  obtain ⟨all, hwithin, hposts, hcalls, htells⟩ :=
    hworld.tells.continues (leads_after s₀ hproper)
  refine ⟨all, fun o ho => ⟨hwithin o ho, fun topic m hpost => ?_⟩, hposts, hcalls, htells⟩
  have hposted : (topic, m) ∈ all.filterMap Occurrence.post? :=
    List.mem_filterMap.2 ⟨o, ho, hpost⟩
  rw [hposts] at hposted
  obtain ⟨m', hm', heq⟩ := List.mem_map.1 hposted
  cases heq
  exact topic_allPosts hproper hm'

section Records

variable {s₀ : Session σ α} {events : List (SessionEvent σ α)}
  {all : List (Occurrence Role (Payload α) (Engine σ α))}

/-- The channels have on record what the story says was sent. -/
theorem Recounts.messages_eq (h : s₀.Recounts events all) (topic : Topic) :
    (Network.channelAt (s₀.after events) topic).messages = (s₀.story all).sentOn topic := by
  obtain ⟨c, hc, hmessages, -⟩ := h.tells.fills topic
  rw [Network.channelAt, hc]
  exact hmessages

/-- The channels have on record what the story says consumers began with. -/
theorem Recounts.begunBy_eq (h : s₀.Recounts events all) (topic : Topic) (i : Nat) :
    (Network.channelAt (s₀.after events) topic).begunBy i = (s₀.story all).begunAt ⟨topic, i⟩ := by
  obtain ⟨c, hc, -, hbegun⟩ := h.tells.fills topic
  rw [Network.channelAt, hc]
  exact hbegun i

/-- What was posted on a topic. -/
theorem Recounts.posts_on (h : s₀.Recounts events all) (topic : Topic) :
    ((all.filterMap Occurrence.post?).filter (·.1 = topic)).map (·.2)
      = (s₀.allPosts events).filter (·.payload.topic = topic) := by
  rw [h.posts, List.filter_map, List.map_map]
  exact List.map_id _

end Records

end Session

/-- What was handed on and exported is what the moments of cycles say. -/
structure Accounts (start : Engine σ α) (r : SessionStory σ α) : Prop where
  grows : start.Grows r.shared
  written : ∀ m ∈ r.accepted, ∃ s, m.engine.evaluationAt? m.task
    = some (SymbolEvaluation.updateStrategies s)
  matrices : (r.sentOn .strategy).map some = r.accepted.map Moment.matrix?
  requests : r.sentOn .tradingMode = r.judged.filterMap Moment.request?
  archive_eq : r.shared.archive
    = (r.ended.filterMap fun (i, e) => e.saved? i).foldl Exporter.attempt start.archive

namespace Accounts

variable {start : Engine σ α} {r : SessionStory σ α}

/-- At its beginning a story has no moments, and nothing was handed on or exported. -/
theorem refl (start : Engine σ α) : Accounts start { shared := start } :=
  ⟨.refl start, by simp [Story.accepted], rfl, rfl, rfl⟩

/-- Somebody does something. -/
theorem perform (h : Accounts start r) (hpublishes : start.Publishes) (others : List (Stage α))
    (act : Act Role (Payload α) (Stage α)) :
    Accounts start (r.perform Engine.handlers others act) := by
  have hturn : Deed.Turn ⟨r.shared, act⟩ (act.outcome Engine.handlers r.shared) :=
    Deed.turn (hpublishes.grows h.grows)
  have hadds := hturn.adds
  have hsent : (r.perform Engine.handlers others act).sent
      = r.sent ++ (act.outcome Engine.handlers r.shared).1.sends := rfl
  refine ⟨h.grows.trans hadds.grows, fun m hm => ?_, ?_, ?_, ?_⟩
  · rw [Story.accepted_perform] at hm
    rcases List.mem_append.1 hm with hm | hm
    · exact h.written m hm
    · exact hadds.written m (Option.mem_toList.1 hm)
  · rw [Story.sentOn_eq hsent, List.map_append, h.matrices, hadds.matrices,
      Story.accepted_perform, List.map_append]
  · rw [Story.sentOn_eq hsent, h.requests, hadds.requests, Story.judged_perform,
      List.filterMap_append]
  · rw [Story.ended_perform, List.filterMap_append, List.foldl_append, ← h.archive_eq]
    exact hadds.archive_eq

/-- What somebody does adds what its moment says; what somebody posts is neither matrix nor
verdicts; other changes export nothing. -/
theorem step (h : Accounts start r) (hpublishes : start.Publishes)
    {o : Occurrence Role (Payload α) (Engine σ α)} (ho : o.Proper) :
    Accounts start (r.step Engine.handlers o) := by
  cases o with
  | begin a label m => exact h.perform hpublishes _ _
  | goOn place =>
    simp only [Story.step]
    split
    · exact h
    · exact h.perform hpublishes _ _
  | post topic m =>
    obtain ⟨hstrategy, htradingMode⟩ := ho.post rfl
    have hsent : (r.step Engine.handlers (.post topic m)).sent = r.sent ++ [(topic, m)] := rfl
    have hnone : ∀ topic', topic ≠ topic' →
        (r.step Engine.handlers (.post topic m)).sentOn topic' = r.sentOn topic' := by
      intro topic' htopic
      rw [Story.sentOn_eq hsent]
      simp [htopic]
    refine ⟨h.grows, h.written, ?_, ?_, h.archive_eq⟩
    · rw [hnone _ hstrategy]
      exact h.matrices
    · rw [hnone _ htradingMode]
      exact h.requests
  | change f =>
    have hspares : r.shared.Spares (f r.shared) := ho.within r.shared
    exact ⟨h.grows.trans hspares.toGrows, h.written, h.matrices, h.requests,
      hspares.archive_eq.trans h.archive_eq⟩

end Accounts

end Deeds

end MarketEngine
