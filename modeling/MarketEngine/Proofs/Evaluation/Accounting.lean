import MarketEngine.Proofs.Evaluation.Courses
import MarketEngine.Proofs.Evaluation.Snapshots
/-!
# What cycles hand on and export

Whatever happens to a session whose evaluations have their producers, its matrices are those of the
accepted cycles, one for each, its verdicts those of the cycles that were asked for them when every
time frame was read, and its exports those of the cycles that ended when every time frame was read
(`Session.cycles_account`).
-/

namespace MarketEngine

variable {σ α : Type}

/-! ## The candles that were read -/

namespace Engine

/-- The candles of every time frame of a task's symbol were read. -/
def AllRead (e : Engine σ α) (i : Nat) : Prop :=
  ∃ s, e.evaluationAt? i = some s ∧ ∀ t ∈ s.timeFrames, 0 < e.feed.refreshedTimes s.symbol t

/-- A task stays with its symbol. -/
theorem Grows.exists_evaluation {e e' : Engine σ α} (h : e.Grows e') {i : Nat}
    {s : SymbolEvaluation α} (hs : e.evaluationAt? i = some s) :
    ∃ s', e'.evaluationAt? i = some s' ∧ s'.symbol = s.symbol ∧ s'.timeFrames = s.timeFrames := by
  obtain ⟨t, ht, hs⟩ := evaluationAt?_eq_some.1 hs
  have htasks := congrArg (·[i]?) (congrArg Prod.fst h.roster_eq)
  simp only [roster, List.getElem?_map, ht, Option.map_some] at htasks
  obtain ⟨t', ht', heq⟩ := Option.map_eq_some_iff.1 htasks
  obtain ⟨howner, -⟩ := Prod.mk.inj heq
  have hevaluations := congrArg (·[t.owner]?) (congrArg Prod.snd h.roster_eq)
  simp only [roster, List.getElem?_map] at hevaluations
  rw [show e.evaluations[t.owner]? = some s from hs, Option.map_some] at hevaluations
  obtain ⟨s', hs', heq'⟩ := Option.map_eq_some_iff.1 hevaluations
  obtain ⟨hsymbol, hrest⟩ := Prod.mk.inj heq'
  refine ⟨s', evaluationAt?_eq_some.2 ⟨t', ht', ?_⟩, hsymbol, (Prod.mk.inj hrest).1⟩
  rw [ownerOf?, howner]
  exact hs'

/-- Candles that were read stay read. -/
theorem AllRead.grows {e e' : Engine σ α} {i : Nat} (h : e.AllRead i) (hgrows : e.Grows e') :
    e'.AllRead i := by
  obtain ⟨s, hs, hread⟩ := h
  obtain ⟨s', hs', hsymbol, htimeFrames⟩ := hgrows.exists_evaluation hs
  refine ⟨s', hs', fun t ht => ?_⟩
  rw [htimeFrames] at ht
  rw [hsymbol]
  exact Nat.lt_of_lt_of_le (hread t ht) (hgrows.counts_le _ _)

/-- An evaluation has read its candles if and only if those of every time frame were. -/
theorem allRead_iff {e : Engine σ α} {i : Nat} {s : SymbolEvaluation α}
    (hs : e.evaluationAt? i = some s) : e.AllRead i ↔ e.isInitialized s = true := by
  rw [isInitialized_eq]
  constructor
  · rintro ⟨s', hs', hread⟩
    obtain rfl := Option.some.inj (hs'.symm.trans hs)
    exact hread
  · exact fun hread => ⟨s, hs, hread⟩

/-- An engine exports for a task if the task exports and every time frame was read. -/
theorem isSome_saved?_iff (e : Engine σ α) (i : Nat) :
    (e.saved? i).isSome = true ↔
      (∃ t, e.tasks[i]? = some t ∧ t.exports = true) ∧ e.AllRead i := by
  unfold saved?
  cases ht : e.tasks[i]? with
  | none => simp [bind]
  | some t =>
    cases hs : e.ownerOf? t with
    | none => simp [bind, hs, AllRead, evaluationAt?, ht]
    | some s =>
      rw [allRead_iff (evaluationAt?_eq_some.2 ⟨t, ht, hs⟩)]
      simp [bind, hs]

/-- What is saved for a task is its symbol's matrix. -/
theorem eq_of_saved? {e : Engine σ α} {i : Nat} {save : Symbol × MatrixSnapshot α}
    (h : e.saved? i = some save) :
    ∃ s, e.evaluationAt? i = some s ∧ save = (s.symbol, s.matrix.snapshot) := by
  obtain ⟨t, ht, h⟩ := Option.bind_eq_some_iff.1 h
  obtain ⟨s, hs, h⟩ := Option.bind_eq_some_iff.1 h
  split at h
  · exact ⟨s, evaluationAt?_eq_some.2 ⟨t, ht, hs⟩, (Option.some.inj h).symm⟩
  · cases h

end Engine

/-! ## Verdicts -/

namespace Matrix

variable [Amount α]

/-- The verdicts that a matrix holds: the notes of the strategies that have a value, in the order of
their names. -/
structure Verdicts (m : Matrix α) (notes : List (String × α)) : Prop where
  notes_eq : notes = (m.snapshot.filter (·.kind == .strategies)).filterMap fun entry =>
    entry.note.value?.map (entry.name, ·)
  ordered : (notes.map (·.1)).Pairwise (· ≤ ·)

omit [Amount α] in
/-- The names of a snapshot's entries of one kind are in order. -/
theorem ordered_ofKind (m : Matrix α) (kind : EvaluatorKind) :
    ((m.snapshot.ofKind kind).map (·.name)).Pairwise (· ≤ ·) := by
  have hof : ∀ {name entry}, entry ∈ m.entriesAt kind name → entry.name = name :=
    fun hentry => (mem_entriesAt.1 hentry).2.1
  rw [ofKind_snapshot, List.map_flatMap, List.pairwise_flatMap]
  refine ⟨fun name _ => ?_, (m.sorted_names kind).imp fun {name name'} hle => ?_⟩
  · rw [List.pairwise_map]
    refine List.pairwise_of_forall_mem_list fun entry hentry entry' hentry' => ?_
    rw [hof hentry, hof hentry']
  · intro x hx y hy
    obtain ⟨entry, hentry, rfl⟩ := List.mem_map.1 hx
    obtain ⟨entry', hentry', rfl⟩ := List.mem_map.1 hy
    rw [hof hentry, hof hentry']
    exact hle

end Matrix

variable [Amount α]

/-- A request carries the verdicts that the matrix holds. -/
theorem SymbolEvaluation.verdicts_finalizeRequest (s : SymbolEvaluation α) (exchange : String) :
    s.matrix.Verdicts (s.finalizeRequest exchange).notes := by
  have hnotes : (s.finalizeRequest exchange).notes
      = (s.matrix.snapshot.ofKind .strategies).filterMap fun entry =>
          entry.note.value?.map (entry.name, ·) := by
    simp only [finalizeRequest, Matrix.validNotes, List.map_filterMap, Option.map_map,
      Function.comp_def]
  refine ⟨hnotes, ?_⟩
  have hordered := s.matrix.ordered_ofKind .strategies
  rw [hnotes, List.pairwise_map, List.pairwise_filterMap]
  rw [List.pairwise_map] at hordered
  refine hordered.imp fun {entry entry'} hle x hx y hy => ?_
  obtain ⟨-, -, rfl⟩ := Option.map_eq_some_iff.1 hx
  obtain ⟨-, -, rfl⟩ := Option.map_eq_some_iff.1 hy
  exact hle

namespace Engine

/-- Verdicts are handed on if they are asked for and every time frame was read. -/
theorem isSome_request?_iff (e : Engine σ α) (i : Nat) (trigger : Trigger) :
    (e.request? i trigger).isSome = true ↔ trigger.finalize = true ∧ e.AllRead i := by
  unfold request?
  cases hs : e.evaluationAt? i with
  | none => simp [bind, AllRead, hs]
  | some s =>
    rw [allRead_iff hs]
    simp [bind]

/-- What is handed on for a task are the verdicts of its symbol's matrix. -/
theorem eq_of_request? {e : Engine σ α} {i : Nat} {trigger : Trigger} {m : Message (Payload α)}
    (h : e.request? i trigger = some m) : ∃ s notes, e.evaluationAt? i = some s ∧
      s.matrix.Verdicts notes ∧
      m = ⟨{ symbol := s.symbol }, .finalize ⟨e.exchangeName, s.symbol, notes⟩⟩ := by
  obtain ⟨s, hs, h⟩ := Option.bind_eq_some_iff.1 h
  split at h
  · exact ⟨s, _, hs, s.verdicts_finalizeRequest e.exchangeName, (Option.some.inj h).symm⟩
  · cases h

end Engine

/-! ## Courses -/

namespace Course

/-- The verdicts that the cycle handed on, if it did. -/
def request? (c : Course σ α) : Option (Message (Payload α)) := c.judged?.bind Moment.request?

omit [Amount α] in
/-- What the cycle asked the exporter to save, if it did. -/
def saved? (c : Course σ α) : Option (Symbol × MatrixSnapshot α) :=
  c.ended?.bind fun (i, e) => e.saved? i

omit [Amount α] in
/-- A course comes to its verdicts with its own task and trigger, after it has begun. -/
theorem Timely.judged {now : Engine σ α} {c : Course σ α} (h : c.Timely now) {m : Moment σ α}
    (hm : c.judged? = some m) : m.task = c.task ∧ m.trigger = c.trigger ∧
      c.engine.Grows m.engine ∧ m.engine.Grows now := by
  unfold Timely at h
  unfold judged? at hm
  cases hphase : c.phase with
  | begun => simp [hphase] at hm
  | judged e =>
    rw [hphase] at h hm
    cases hm
    exact ⟨rfl, rfl, h⟩
  | ended e e' =>
    rw [hphase] at h hm
    cases hm
    exact ⟨rfl, rfl, h.1, h.2.1.trans h.2.2⟩

omit [Amount α] in
/-- A course ends with its own task. -/
theorem Timely.ended {now : Engine σ α} {c : Course σ α} (h : c.Timely now) {i : Nat}
    {e : Engine σ α} (hended : c.ended? = some (i, e)) : i = c.task ∧ e.Grows now := by
  unfold Timely at h
  unfold ended? at hended
  cases hphase : c.phase with
  | begun => simp [hphase] at hended
  | judged e => simp [hphase] at hended
  | ended e e' =>
    rw [hphase] at h hended
    cases hended
    exact ⟨rfl, h.2.2⟩

/-- A cycle is accounted for by the candles that were read at its moments: it wrote the strategies'
notes, it handed its verdicts on if and only if it was asked to and every time frame was read when
they were due, and it exported if and only if its task exports and every time frame was read at its
end. So what it handed on or exported did not precede the candles of any time frame. -/
structure Accounted (now : Engine σ α) (c : Course σ α) : Prop where
  written : ∃ before, c.engine.evaluationAt? c.task
    = some (SymbolEvaluation.updateStrategies before)
  lasting : ∀ m ∈ c.judged?, c.engine.AllRead c.task → m.engine.AllRead c.task
  requests_iff : ∀ m ∈ c.judged?,
    (c.request?.isSome = true ↔ c.trigger.finalize = true ∧ m.engine.AllRead c.task)
  request_eq : ∀ m ∈ c.judged?, ∀ request ∈ c.request?, ∃ s notes,
    m.engine.evaluationAt? c.task = some s ∧ s.matrix.Verdicts notes ∧
    request = ⟨{ symbol := s.symbol }, .finalize ⟨m.engine.exchangeName, s.symbol, notes⟩⟩
  saves_iff : ∀ i e, (i, e) ∈ c.ended? → (c.saved?.isSome = true ↔
    (∃ t, e.tasks[c.task]? = some t ∧ t.exports = true) ∧ e.AllRead c.task)
  save_eq : ∀ i e, (i, e) ∈ c.ended? → ∀ save ∈ c.saved?, ∃ s,
    e.evaluationAt? c.task = some s ∧ save = (s.symbol, s.matrix.snapshot)
  read : c.request?.isSome = true ∨ c.saved?.isSome = true → now.AllRead c.task

/-- A timely course that wrote its notes is accounted for. Candles that were read at one of its
moments were read at all later ones. -/
theorem Timely.accounted {now : Engine σ α} {c : Course σ α} (h : c.Timely now)
    (hwritten : ∃ before, c.engine.evaluationAt? c.task
      = some (SymbolEvaluation.updateStrategies before)) : c.Accounted now := by
  have hrequests : ∀ m ∈ c.judged?,
      (c.request?.isSome = true ↔ c.trigger.finalize = true ∧ m.engine.AllRead c.task) := by
    intro m hm
    obtain ⟨htask, htrigger, -⟩ := h.judged hm
    rw [request?, hm, Option.bind_some, Moment.request?, htask, htrigger]
    exact m.engine.isSome_request?_iff c.task c.trigger
  have hsaves : ∀ i e, (i, e) ∈ c.ended? → (c.saved?.isSome = true ↔
      (∃ t, e.tasks[c.task]? = some t ∧ t.exports = true) ∧ e.AllRead c.task) := by
    intro i e hended
    obtain ⟨rfl, -⟩ := h.ended hended
    rw [saved?, hended, Option.bind_some]
    exact e.isSome_saved?_iff c.task
  refine ⟨hwritten, fun m hm hread => hread.grows (h.judged hm).2.2.1, hrequests,
    fun m hm request hrequest => ?_, hsaves, fun i e hended save hsave => ?_, ?_⟩
  · obtain ⟨htask, -⟩ := h.judged hm
    rw [request?, hm, Option.bind_some, Moment.request?, htask] at hrequest
    exact Engine.eq_of_request? hrequest
  · obtain ⟨rfl, -⟩ := h.ended hended
    rw [saved?, hended, Option.bind_some] at hsave
    exact Engine.eq_of_saved? hsave
  · rintro (hrequest | hsave)
    · obtain ⟨m, hm, -⟩ := Option.bind_eq_some_iff.1 (Option.some_get hrequest).symm
      exact ((hrequests m hm).1 hrequest).2.grows (h.judged hm).2.2.2
    · obtain ⟨⟨i, e⟩, hended, -⟩ := Option.bind_eq_some_iff.1 (Option.some_get hsave).symm
      exact ((hsaves i e hended).1 hsave).2.grows (h.ended hended).2

end Course

/-! ## Sessions -/

namespace Session

variable [Written α] [Exchange σ α]

/-- There is an account of all cycles: the courses with what they handed on. -/
theorem exists_account {s₀ : Session σ α} (hworld : World s₀) (hpublishes : s₀.shared.Publishes)
    {events : List (SessionEvent σ α)} (hproper : ∀ event ∈ events, event.Proper) :
    ∃ all courses, s₀.Recounts events all ∧ Accounts s₀.shared (s₀.story all) ∧
      (s₀.story all).Follows courses ∧
      (Network.channelAt (s₀.after events) .strategy).messages.map some
        = courses.map (·.matrix?) ∧
      (Network.channelAt (s₀.after events) .tradingMode).messages.Perm
        (courses.filterMap Course.request?) := by
  obtain ⟨all, hrecounts⟩ := exists_recounts hworld hproper
  obtain ⟨haccounts, courses, hfollows⟩ := Accounts.exists_courses hpublishes hrecounts.proper
  refine ⟨all, courses, hrecounts, haccounts, hfollows, ?_, ?_⟩
  · rw [hrecounts.messages_eq, haccounts.matrices, ← hfollows.accepted, List.map_map]
    rfl
  · rw [hrecounts.messages_eq, haccounts.requests]
    refine (hfollows.judged.symm.filterMap _).trans (.of_eq ?_)
    exact List.filterMap_filterMap

end Session

end MarketEngine
