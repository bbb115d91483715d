import MarketEngine.Proofs.Evaluation.Moments
/-!
# Courses of cycles

Every accepted cycle has a course: it begins, its verdicts come due, and it ends. The moments of a
story are those of the courses, each of one course only, and what is left to do for cycles is left
to do for the courses that have not ended (`Story.Follows`). On its course a cycle sees the candles
that were read grow only.
-/

namespace MarketEngine

variable {σ α : Type}

/-- Whether a stage belongs to a cycle. -/
def Stage.ofCycle (stage : Stage α) : Bool := stage.task?.isSome

/-- How far a cycle got, with the engine that it found when its verdicts were due and at its end. -/
inductive Phase (σ α : Type) where
  | begun
  | judged (atVerdicts : Engine σ α)
  | ended (atVerdicts atEnd : Engine σ α)

/-- A cycle from the moment on when it had written its notes. -/
structure Course (σ α : Type) extends Moment σ α where
  phase : Phase σ α := .begun

namespace Course

/-- The moment when the verdicts were due. -/
def judged? (c : Course σ α) : Option (Moment σ α) :=
  match c.phase with
  | .begun => none
  | .judged e => some ⟨c.task, c.trigger, e⟩
  | .ended e _ => some ⟨c.task, c.trigger, e⟩

/-- The end of the cycle. -/
def ended? (c : Course σ α) : Option (Nat × Engine σ α) :=
  match c.phase with
  | .ended _ e => some (c.task, e)
  | _ => none

/-- What is left to do for the cycle. -/
def left? (c : Course σ α) : Option (Stage α) :=
  match c.phase with
  | .begun => some (.verdicts c.task c.trigger)
  | .judged _ => some (.conclusion c.task)
  | .ended .. => none

/-- What is left of a cycle belongs to one. -/
theorem filter_left? (c : Course σ α) :
    c.left?.toList.filter Stage.ofCycle = c.left?.toList := by
  unfold left?
  split <;> rfl

/-- A course whose verdicts are due has just begun. -/
theorem phase_of_verdicts {c : Course σ α} {i : Nat} {trigger : Trigger}
    (h : c.left? = some (.verdicts i trigger)) :
    c.task = i ∧ c.trigger = trigger ∧ c.phase = .begun := by
  unfold left? at h
  split at h
  · next hphase =>
    cases h
    exact ⟨rfl, rfl, hphase⟩
  · cases h
  · cases h

/-- A course whose end is due has had its verdicts. -/
theorem phase_of_conclusion {c : Course σ α} {i : Nat} (h : c.left? = some (.conclusion i)) :
    c.task = i ∧ ∃ e, c.phase = .judged e := by
  unfold left? at h
  split at h
  · cases h
  · next e hphase =>
    cases h
    exact ⟨rfl, e, hphase⟩
  · cases h

/-- The engine grows from each moment of the course to the next, and up to now. -/
def Timely (now : Engine σ α) (c : Course σ α) : Prop :=
  match c.phase with
  | .begun => c.engine.Grows now
  | .judged e => c.engine.Grows e ∧ e.Grows now
  | .ended e e' => c.engine.Grows e ∧ e.Grows e' ∧ e'.Grows now

/-- A course stays timely as the engine grows. -/
theorem Timely.grows {now now' : Engine σ α} {c : Course σ α} (h : c.Timely now)
    (hgrows : now.Grows now') : c.Timely now' := by
  unfold Timely at h ⊢
  split at h
  · exact h.trans hgrows
  · exact ⟨h.1, h.2.trans hgrows⟩
  · exact ⟨h.1, h.2.1, h.2.2.trans hgrows⟩

/-- Since a course began the engine has only grown. -/
theorem Timely.engine {now : Engine σ α} {c : Course σ α} (h : c.Timely now) :
    c.engine.Grows now := by
  unfold Timely at h
  split at h
  · exact h
  · exact h.1.trans h.2
  · exact h.1.trans (h.2.1.trans h.2.2)

end Course

variable [Amount α] [Written α] [Exchange σ α]

/-- The courses of the cycles of a story, in the order of acceptance. -/
structure Story.Follows (r : SessionStory σ α) (courses : List (Course σ α)) : Prop where
  accepted : courses.map (·.toMoment) = r.accepted
  judged : (courses.filterMap Course.judged?).Perm r.judged
  ended : (courses.filterMap Course.ended?).Perm r.ended
  left : (courses.filterMap Course.left?).Perm (r.underWay.filter Stage.ofCycle)
  timely : ∀ c ∈ courses, c.Timely r.shared

namespace Story.Follows

variable {r : SessionStory σ α} {courses : List (Course σ α)}

/-- At its beginning a story has no courses. -/
theorem refl (start : Engine σ α) : Follows ({ shared := start } : SessionStory σ α) [] :=
  ⟨rfl, .refl _, .refl _, .refl _, by simp⟩

/-- What is left to do for a cycle is left to do for one of the courses. -/
theorem exists_course (h : r.Follows courses) {stage : Stage α} (hstage : stage ∈ r.underWay)
    (htask : stage.ofCycle = true) :
    ∃ (j : Nat) (c : Course σ α), courses[j]? = some c ∧ c.left? = some stage := by
  have hmem : stage ∈ courses.filterMap Course.left? :=
    h.left.mem_iff.2 (List.mem_filter.2 ⟨hstage, htask⟩)
  obtain ⟨c, hc, hleft⟩ := List.mem_filterMap.1 hmem
  obtain ⟨j, hj⟩ := List.getElem?_of_mem hc
  exact ⟨j, c, hj, hleft⟩

/-- Somebody does something that is no moment of a cycle. -/
theorem aside (h : r.Follows courses) {act : Act Role (Payload α) (Stage α)}
    {others : List (Stage α)} (hothers : (act.rest?.toList ++ others).Perm r.underWay)
    {raised : List (Message (Payload α))}
    (hneutral : r.shared.Neutral raised (act.outcome Engine.handlers r.shared))
    (haccepted : Deed.accepted? ⟨r.shared, act⟩ = none)
    (hjudged : Deed.judged? ⟨r.shared, act⟩ = none) (hended : Deed.ended? ⟨r.shared, act⟩ = none) :
    (r.perform Engine.handlers others act).Follows courses := by
  -- what is gone on with is nothing of a cycle, and nothing of one is left
  have hrest : act.rest?.toList.filter Stage.ofCycle = [] := by
    cases act with
    | begin a role m => rfl
    | goOn stage =>
      cases stage with
      | verdicts i trigger => simp [Deed.judged?] at hjudged
      | conclusion i => simp [Deed.ended?] at hended
      | matching w => rfl
      | nothing => rfl
  have hrests : (act.outcome Engine.handlers r.shared).1.rests.filter Stage.ofCycle = [] := by
    rw [List.filter_eq_nil_iff]
    intro stage hstage
    simp [Stage.ofCycle, hneutral.rests stage hstage]
  have hleft := hothers.filter Stage.ofCycle
  rw [List.filter_append, hrest, List.nil_append] at hleft
  refine ⟨?_, ?_, ?_, ?_, fun c hc => (h.timely c hc).grows hneutral.spares.toGrows⟩
  · rw [accepted_perform, haccepted, h.accepted]
    exact (List.append_nil _).symm
  · rw [judged_perform, hjudged]
    exact h.judged.trans (.of_eq (List.append_nil _).symm)
  · rw [ended_perform, hended]
    exact h.ended.trans (.of_eq (List.append_nil _).symm)
  · rw [perform, List.filter_append, hrests, List.append_nil]
    exact h.left.trans hleft.symm

/-- A cycle is accepted, and has a course from now on. -/
theorem accept (h : r.Follows courses) {act : Act Role (Payload α) (Stage α)}
    {others : List (Stage α)} (hothers : (act.rest?.toList ++ others).Perm r.underWay)
    {i : Nat} {trigger : Trigger} {e : Engine σ α} {m : Message (Payload α)}
    (haccepted : Deed.accepted? ⟨r.shared, act⟩ = some ⟨i, trigger, e⟩)
    (hjudged : Deed.judged? ⟨r.shared, act⟩ = none) (hended : Deed.ended? ⟨r.shared, act⟩ = none)
    (houtcome : act.outcome Engine.handlers r.shared = (.send .strategy m (.verdicts i trigger), e))
    (hspares : r.shared.Spares e) :
    (r.perform Engine.handlers others act).Follows (courses ++ [⟨⟨i, trigger, e⟩, .begun⟩]) := by
  have hshared : (r.perform Engine.handlers others act).shared = e := by rw [perform, houtcome]
  have hothers' : others.Perm r.underWay := by
    cases act with
    | begin a role m => exact hothers
    | goOn stage => simp [Deed.accepted?] at haccepted
  refine ⟨?_, ?_, ?_, ?_, fun c hc => ?_⟩
  · rw [accepted_perform, haccepted, List.map_append, h.accepted]
    rfl
  · rw [judged_perform, hjudged, filterMap_concat]
    exact h.judged.append_right _
  · rw [ended_perform, hended, filterMap_concat]
    exact h.ended.append_right _
  · rw [perform, filterMap_concat, List.filter_append, houtcome]
    exact (h.left.trans (hothers'.symm.filter _)).append_right _
  · rw [hshared]
    rcases List.mem_append.1 hc with hc | hc
    · exact (h.timely c hc).grows hspares.toGrows
    · rw [List.mem_singleton.1 hc]
      exact .refl e

/-- Somebody goes on with a cycle, and its course goes on to another phase. -/
theorem advance (h : r.Follows courses) {stage : Stage α} {others : List (Stage α)}
    (hothers : (stage :: others).Perm r.underWay) (htask : stage.ofCycle = true) {j : Nat}
    {c : Course σ α} (hc : courses[j]? = some c) (hstage : c.left? = some stage) (phase : Phase σ α)
    (hjudged : (Course.judged? { c with phase }).toList
      = c.judged?.toList ++ (Deed.judged? ⟨r.shared, .goOn stage⟩).toList)
    (hended : (Course.ended? { c with phase }).toList
      = c.ended?.toList ++ (Deed.ended? ⟨r.shared, .goOn stage⟩).toList)
    (hleft : (Engine.resumeStage stage r.shared).1.rests
      = (Course.left? { c with phase }).toList)
    (hgrows : r.shared.Grows (Engine.resumeStage stage r.shared).2)
    (htimely : Course.Timely (Engine.resumeStage stage r.shared).2 { c with phase }) :
    (r.perform Engine.handlers others (.goOn stage)).Follows
      (courses.set j { c with phase }) := by
  obtain ⟨hj, rfl⟩ := List.getElem?_eq_some_iff.1 hc
  refine ⟨?_, ?_, ?_, ?_, fun c' hc' => ?_⟩
  · -- the moment of acceptance stays what it was
    have hsame : (courses.set j { courses[j] with phase }).map (·.toMoment)
        = courses.map (·.toMoment) := map_set_of_eq hj rfl
    rw [accepted_perform, hsame, h.accepted]
    exact (List.append_nil _).symm
  · rw [judged_perform]
    exact perm_filterMap_set h.judged hc hjudged
  · rw [ended_perform]
    exact perm_filterMap_set h.ended hc hended
  · -- what is left of the other courses is left to do for others
    have hold := filterMap_set_perm Course.left? hj courses[j]
    rw [List.set_getElem_self, hstage] at hold
    have hothers' := hothers.filter Stage.ofCycle
    rw [List.filter_cons_of_pos htask] at hothers'
    have hrest := ((hold.symm.trans h.left).trans hothers'.symm).cons_inv
    refine (filterMap_set_perm Course.left? hj _).trans ?_
    have hrests : ((Act.goOn stage).outcome Engine.handlers r.shared).1.rests
      = (Course.left? { courses[j] with phase }).toList := hleft
    rw [perform, List.filter_append, hrests, Course.filter_left?]
    exact List.perm_append_comm.trans (hrest.append_right _)
  -- for the other courses only more candles were read
  · rcases List.mem_or_eq_of_mem_set hc' with hc' | rfl
    · exact (h.timely c' hc').grows hgrows
    · exact htimely

/-- An act begins a course, takes one on to its next moment, or has nothing to do with courses. -/
theorem perform (h : r.Follows courses) (hpublishes : r.shared.Publishes)
    {act : Act Role (Payload α) (Stage α)} {others : List (Stage α)}
    (hothers : (act.rest?.toList ++ others).Perm r.underWay) :
    ∃ courses', (r.perform Engine.handlers others act).Follows courses' := by
  have hturn : Deed.Turn ⟨r.shared, act⟩ (act.outcome Engine.handlers r.shared) :=
    Deed.turn hpublishes
  generalize houtcome : act.outcome Engine.handlers r.shared = outcome at hturn
  cases hturn with
  | aside hneutral haccepted hjudged hended =>
    exact ⟨_, h.aside hothers (houtcome ▸ hneutral) haccepted hjudged hended⟩
  | accepts haccepted hjudged hended hs hspares =>
    exact ⟨_, h.accept hothers haccepted hjudged hended houtcome hspares⟩
  | @judges i trigger m hact hm =>
    obtain rfl : act = .goOn (.verdicts i trigger) := hact
    -- what is left to do is left of a course, whose phase it says
    obtain ⟨j, c, hc, hleft⟩ := h.exists_course (hothers.subset List.mem_cons_self) rfl
    obtain ⟨rfl, rfl, hphase⟩ := Course.phase_of_verdicts hleft
    have htimely := h.timely c (List.mem_of_getElem? hc)
    rw [Course.Timely, hphase] at htimely
    have hresume : Engine.resumeStage (.verdicts c.task c.trigger) r.shared
      = (.send .tradingMode m (.conclusion c.task), r.shared) := houtcome
    refine ⟨_, h.advance hothers rfl hc hleft (.judged r.shared) ?_ ?_ ?_ ?_ ?_⟩
    · simp [Course.judged?, hphase, Deed.judged?]
    · simp [Course.ended?, hphase, Deed.ended?, hm]
    · rw [hresume]
      rfl
    · rw [hresume]
      exact .refl _
    · rw [hresume]
      exact ⟨htimely, .refl _⟩
  | @judgesAndEnds i trigger hact hnone =>
    obtain rfl : act = .goOn (.verdicts i trigger) := hact
    obtain ⟨j, c, hc, hleft⟩ := h.exists_course (hothers.subset List.mem_cons_self) rfl
    obtain ⟨rfl, rfl, hphase⟩ := Course.phase_of_verdicts hleft
    have htimely := h.timely c (List.mem_of_getElem? hc)
    rw [Course.Timely, hphase] at htimely
    have hresume : Engine.resumeStage (.verdicts c.task c.trigger) r.shared
      = r.shared.conclude c.task := houtcome
    have hgrows := r.shared.grows_conclude c.task
    obtain ⟨failure, hdone⟩ := (r.shared.conclude_spec c.task).done
    refine ⟨_, h.advance hothers rfl hc hleft (.ended r.shared r.shared) ?_ ?_ ?_ ?_ ?_⟩
    · simp [Course.judged?, hphase, Deed.judged?]
    · simp [Course.ended?, hphase, Deed.ended?, hnone]
    · rw [hresume, hdone]
      rfl
    · rw [hresume]
      exact hgrows
    · rw [hresume]
      exact ⟨htimely, .refl _, hgrows⟩
  | @ends i hact =>
    obtain rfl : act = .goOn (.conclusion i) := hact
    obtain ⟨j, c, hc, hleft⟩ := h.exists_course (hothers.subset List.mem_cons_self) rfl
    obtain ⟨rfl, e, hphase⟩ := Course.phase_of_conclusion hleft
    have htimely := h.timely c (List.mem_of_getElem? hc)
    rw [Course.Timely, hphase] at htimely
    have hresume : Engine.resumeStage (.conclusion c.task) r.shared
      = r.shared.conclude c.task := houtcome
    have hgrows := r.shared.grows_conclude c.task
    obtain ⟨failure, hdone⟩ := (r.shared.conclude_spec c.task).done
    refine ⟨_, h.advance hothers rfl hc hleft (.ended e r.shared) ?_ ?_ ?_ ?_ ?_⟩
    · simp [Course.judged?, hphase, Deed.judged?]
    · simp [Course.ended?, hphase, Deed.ended?]
    · rw [hresume, hdone]
      rfl
    · rw [hresume]
      exact hgrows
    · rw [hresume]
      exact ⟨htimely.1, htimely.2, hgrows⟩

/-- Whatever happens, the courses go on with the story. -/
theorem step (h : r.Follows courses) (hpublishes : r.shared.Publishes)
    {o : Occurrence Role (Payload α) (Engine σ α)} (ho : o.Proper) :
    ∃ courses', (r.step Engine.handlers o).Follows courses' := by
  cases o with
  | begin a label m => exact h.perform hpublishes (.refl _)
  | goOn place =>
    simp only [Story.step]
    split
    · exact ⟨courses, h⟩
    · next rest hrest =>
      obtain ⟨hplace, rfl⟩ := List.getElem?_eq_some_iff.1 hrest
      exact h.perform hpublishes (List.getElem_cons_eraseIdx_perm hplace)
  | post topic m => exact ⟨courses, h.accepted, h.judged, h.ended, h.left, h.timely⟩
  | change f =>
    have hspares : r.shared.Spares (f r.shared) := ho.within r.shared
    exact ⟨courses, h.accepted, h.judged, h.ended, h.left,
      fun c hc => (h.timely c hc).grows hspares.toGrows⟩

end Story.Follows

/-- Every story of an engine whose evaluations have their producers follows courses, and accounts
for what was handed on and exported. -/
theorem Accounts.exists_courses {s₀ : Session σ α} (hpublishes : s₀.shared.Publishes)
    {all : List (Occurrence Role (Payload α) (Engine σ α))} (hall : ∀ o ∈ all, o.Proper) :
    Accounts s₀.shared (s₀.story all) ∧ ∃ courses, (s₀.story all).Follows courses := by
  refine List.foldlRecOn (motive := fun r => Accounts s₀.shared r ∧
    ∃ courses, Story.Follows r courses) all _ ⟨.refl _, _, .refl _⟩ ?_
  rintro r ⟨haccounts, courses, hfollows⟩ o ho
  exact ⟨haccounts.step hpublishes (hall o ho),
    hfollows.step (hpublishes.grows haccounts.grows) (hall o ho)⟩

end MarketEngine
