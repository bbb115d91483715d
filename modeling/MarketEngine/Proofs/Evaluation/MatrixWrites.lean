import MarketEngine.Proofs.Evaluation.Snapshots
import Mathlib.Data.List.DropRight
import Mathlib.Data.List.Induction
/-!
# The last writers of a matrix

A matrix is a map of last writers: after any writes an evaluator has the last note that was written
without a time frame, or else, for each time frame, the last note that was written for it since
then. Snapshots list just these notes, in order, and agree with what is read from the matrix itself
(`Matrix.snapshot_writeAll`).
-/

namespace MarketEngine

variable {α : Type}

/-- A note that is written to a matrix. -/
structure NoteWrite (α : Type) where
  kind : EvaluatorKind
  name : String
  note : Note α
  timeFrame : Option TimeFrame

namespace NoteWrite

/-- Whether it is a note of this evaluator. -/
def isOf (w : NoteWrite α) (kind : EvaluatorKind) (name : String) : Bool :=
  w.kind == kind && w.name == name

/-- What stands in the matrix: what is no number counts as pending. -/
def stored [Amount α] (w : NoteWrite α) : Note α :=
  match w.note with
  | .value x => if Amount.isUndefined x then .pending else .value x
  | .pending => .pending

/-- What is stored of a write is its note, pending if that is no number. -/
theorem checked_note [Amount α] (w : NoteWrite α) : w.note.checked = w.stored := by
  unfold stored Note.checked
  cases w.note with
  | value x => by_cases hx : Amount.isUndefined x = true <;> simp [Note.value?, Note.ofOption, hx]
  | pending => rfl

/-- What is stored is a number. -/
theorem isUndefined_of_stored [Amount α] {w : NoteWrite α} {x : α} (h : w.stored = .value x) :
    Amount.isUndefined x = false := by
  unfold stored at h
  split at h
  · split at h
    · cases h
    · next hx =>
      cases h
      simpa using hx
  · cases h

end NoteWrite

/-! ## Writing -/

namespace Matrix

section Writing

variable [Amount α]

def write (m : Matrix α) (w : NoteWrite α) : Matrix α := m.setNote w.kind w.name w.note w.timeFrame

/-- Writes notes, one after the other. -/
def writeAll (m : Matrix α) (ws : List (NoteWrite α)) : Matrix α := ws.foldl write m

/-- The last write comes to what the others left. -/
theorem writeAll_concat (m : Matrix α) (ws : List (NoteWrite α)) (w : NoteWrite α) :
    m.writeAll (ws ++ [w]) = (m.writeAll ws).write w := by
  simp [writeAll]

/-- Whatever is written, each evaluator has one cell. -/
theorem nodup_writeAll {m : Matrix α} (h : m.cells.keys.Nodup) (ws : List (NoteWrite α)) :
    (m.writeAll ws).cells.keys.Nodup := by
  induction ws using List.reverseRecOn with
  | nil => exact h
  | append_singleton ws w ih =>
    rw [writeAll_concat]
    exact nodup_setNote _ _ _ _ ih

/-- What is written does not depend on the types of the notes. -/
theorem cells_writeAll {m m' : Matrix α} (h : m.cells = m'.cells) (ws : List (NoteWrite α)) :
    (m.writeAll ws).cells = (m'.writeAll ws).cells := by
  induction ws using List.reverseRecOn with
  | nil => exact h
  | append_singleton ws w ih => simp only [writeAll_concat, write, setNote, ih]

/-- A write stores its note in its place. It leaves the evaluator's notes for other time frames if
it has a time frame itself, and otherwise none. -/
theorem noteAt?_write (m : Matrix α) (w : NoteWrite α) (t : Option TimeFrame) :
    (m.write w).noteAt? w.kind w.name t = if t = w.timeFrame then some w.stored
      else if w.timeFrame.isSome && t.isSome then m.noteAt? w.kind w.name t else none := by
  rw [write, noteAt?_setNote, w.checked_note]

/-- Writes under other names leave a note alone. -/
theorem noteAt?_writeAll_of_forall_ne {ws : List (NoteWrite α)} {kind : EvaluatorKind}
    {name : String} (h : ∀ w ∈ ws, (kind, name) ≠ (w.kind, w.name)) (m : Matrix α)
    (t : Option TimeFrame) : (m.writeAll ws).noteAt? kind name t = m.noteAt? kind name t := by
  induction ws using List.reverseRecOn with
  | nil => rfl
  | append_singleton ws w ih =>
    rw [writeAll_concat, write, noteAt?_setNote_of_ne _ _ _ _ _ (h w (by simp)),
      ih fun w hw => h w (by simp [hw])]

/-- Of writes under different names, each one does to its own what it does alone. -/
theorem noteAt?_writeAll_of_mem {ws : List (NoteWrite α)}
    (hdistinct : ws.Pairwise fun w w' => (w.kind, w.name) ≠ (w'.kind, w'.name))
    {w : NoteWrite α} (hw : w ∈ ws) (m : Matrix α) (t : Option TimeFrame) :
    (m.writeAll ws).noteAt? w.kind w.name t = (m.write w).noteAt? w.kind w.name t := by
  induction ws generalizing m with
  | nil => cases hw
  | cons w' ws ih =>
    obtain ⟨hhead, hrest⟩ := List.pairwise_cons.1 hdistinct
    rcases List.mem_cons.1 hw with rfl | hw
    · exact noteAt?_writeAll_of_forall_ne hhead (m.write w) t
    · have hbefore : (m.write w').noteAt? w.kind w.name t = m.noteAt? w.kind w.name t :=
        noteAt?_setNote_of_ne _ _ _ _ _ (hhead w hw).symm t
      rw [writeAll, List.foldl_cons, ← writeAll, ih hrest hw, noteAt?_write, noteAt?_write,
        hbefore]

end Writing

/-! ## The last writes -/

/-- The writes at the end that all have a time frame. -/
def framed (ws : List (NoteWrite α)) : List (NoteWrite α) := ws.rtakeWhile (·.timeFrame.isSome)

/-- The last of these writes for a time frame. -/
def lastFor? (ws : List (NoteWrite α)) (t : TimeFrame) : Option (NoteWrite α) :=
  ((framed ws).filter (·.timeFrame == some t)).getLast?

variable [Amount α]

/-- What the writes of an evaluator's notes leave: if the last one had no time frame, its note, and
otherwise a note for each time frame that was written in the longest suffix of writes that all had
one, the last for it. -/
def entriesAfter (kind : EvaluatorKind) (name : String) (ws : List (NoteWrite α)) :
    List (MatrixEntry α) :=
  match ws.getLast? with
  | none => []
  | some w =>
    if w.timeFrame.isNone then [⟨kind, name, none, w.stored⟩]
    else TimeFrame.all.filterMap fun t =>
      (lastFor? ws t).map fun w => ⟨kind, name, some t, w.stored⟩

/-- The note at a place after the writes of an evaluator's notes. -/
def noteAfter? (ws : List (NoteWrite α)) : Option TimeFrame → Option (Note α)
  | none => (ws.getLast?.filter (·.timeFrame.isNone)).map (·.stored)
  | some t => (lastFor? ws t).map (·.stored)

/-- One more write changes what is left as it changes the matrix. -/
theorem noteAfter?_concat (ws : List (NoteWrite α)) (w : NoteWrite α) (t : Option TimeFrame) :
    noteAfter? (ws ++ [w]) t = if t = w.timeFrame then some w.stored
      else if w.timeFrame.isSome && t.isSome then noteAfter? ws t else none := by
  cases hw : w.timeFrame with
  | none =>
    cases t with
    | none => simp [noteAfter?, hw]
    | some t => simp [noteAfter?, lastFor?, framed, hw]
  | some u =>
    cases t with
    | none => simp [noteAfter?, hw]
    | some t =>
      have hframed : framed (ws ++ [w]) = framed ws ++ [w] := by
        simp [framed, hw]
      by_cases htu : t = u
      · simp [noteAfter?, lastFor?, hframed, hw, htu]
      · simp [noteAfter?, lastFor?, hframed, List.filter_append, hw, htu, Ne.symm htu]

/-- A note stands where the last writes left it. -/
theorem noteAt?_writeAll (ws : List (NoteWrite α)) (kind : EvaluatorKind) (name : String)
    (t : Option TimeFrame) : (({} : Matrix α).writeAll ws).noteAt? kind name t
      = noteAfter? (ws.filter (·.isOf kind name)) t := by
  induction ws using List.reverseRecOn generalizing t with
  | nil => cases t <;> rfl
  | append_singleton ws w ih =>
    rw [writeAll_concat]
    by_cases hw : w.isOf kind name = true
    · have hplace := hw
      simp only [NoteWrite.isOf, Bool.and_eq_true, beq_iff_eq] at hplace
      obtain ⟨rfl, rfl⟩ := hplace
      rw [noteAt?_write, ih, List.filter_append, List.filter_singleton, hw, cond_true,
        noteAfter?_concat]
    · have hne : (kind, name) ≠ (w.kind, w.name) := by
        intro heq
        cases heq
        simp [NoteWrite.isOf] at hw
      rw [write, noteAt?_setNote_of_ne _ _ _ _ _ hne, ih, List.filter_append,
        List.filter_singleton]
      simp [hw]

/-- What is left was written. -/
theorem exists_of_noteAfter? {ws : List (NoteWrite α)} {t : Option TimeFrame} {note : Note α}
    (h : noteAfter? ws t = some note) : ∃ w : NoteWrite α, w.stored = note := by
  cases t with
  | none => exact (Option.map_eq_some_iff.1 h).imp fun _ hw => hw.2
  | some t => exact (Option.map_eq_some_iff.1 h).imp fun _ hw => hw.2

omit [Amount α] in
/-- The entries of an evaluator, place by place. -/
theorem entriesAt_eq (m : Matrix α) (kind : EvaluatorKind) (name : String) :
    m.entriesAt kind name = (none :: TimeFrame.all.map some).filterMap fun t =>
      (m.noteAt? kind name t).map (⟨kind, name, t, ·⟩) := by
  unfold entriesAt noteAt?
  rcases m.cells.get? (kind, name) with _ | (_ | _)
  all_goals simp [cellEntries, Cell.noteAt?]

/-- What some writes leave, place by place. -/
theorem entriesAfter_eq (kind : EvaluatorKind) (name : String) (ws : List (NoteWrite α)) :
    entriesAfter kind name ws = (none :: TimeFrame.all.map some).filterMap fun t =>
      (noteAfter? ws t).map (⟨kind, name, t, ·⟩) := by
  rw [List.filterMap_cons, List.filterMap_map]
  rcases List.eq_nil_or_concat' ws with rfl | ⟨ws, w, rfl⟩
  · simp [entriesAfter, noteAfter?, lastFor?, framed]
  · cases hw : w.timeFrame with
    | none => simp [entriesAfter, noteAfter?, lastFor?, framed, Option.filter, hw]
    | some t => simp [entriesAfter, noteAfter?, Option.filter, hw, Function.comp_def]

/-- After any writes to a fresh matrix:

* the snapshot is in order by kind, by the bytes of the name and by time frame, and no entry holds
  what is no number;
* the entries of each evaluator are what the writes of its own notes leave;
* reading a note from the matrix gives the value of the entry at that time frame or without one, and
  no value if there is neither;
* reading it from the snapshot gives the same wherever there is an entry at exactly that place. -/
theorem snapshot_writeAll (ws : List (NoteWrite α)) :
    let m := ({} : Matrix α).writeAll ws
    m.snapshot.Pairwise MatrixEntry.Precedes ∧
    (∀ entry ∈ m.snapshot, ∀ x, entry.note = .value x → Amount.isUndefined x = false) ∧
    (∀ kind name, m.snapshot.filter (fun entry => entry.kind == kind && entry.name == name)
      = entriesAfter kind name (ws.filter (·.isOf kind name))) ∧
    (∀ kind name t,
      (∀ entry ∈ m.snapshot, entry.Answers kind name t →
        m.note? kind name t = entry.note.value?) ∧
      ((∀ entry ∈ m.snapshot, ¬entry.Answers kind name t) → m.note? kind name t = none)) ∧
    ∀ entry ∈ m.snapshot, m.snapshot.note? entry.kind entry.name entry.timeFrame
      = m.note? entry.kind entry.name entry.timeFrame := by
  intro m
  have hdistinct : m.cells.keys.Nodup := nodup_writeAll (m := {}) List.nodup_nil ws
  refine ⟨pairwise_snapshot hdistinct, fun entry hentry x hx => ?_, fun kind name => ?_,
    fun kind name t => ⟨fun entry hentry => note?_of_answers hentry,
      note?_of_forall_not_answers⟩,
    fun entry hentry => ?_⟩
  · have hnote := mem_snapshot.1 hentry
    rw [noteAt?_writeAll, hx] at hnote
    obtain ⟨w, hw⟩ := exists_of_noteAfter? hnote
    exact NoteWrite.isUndefined_of_stored hw
  · rw [filter_snapshot hdistinct, entriesAt_eq, entriesAfter_eq]
    simp only [m, noteAt?_writeAll]
  · rw [note?_snapshot, mem_snapshot.1 hentry, Option.bind_some]
    exact (note?_of_answers hentry ⟨rfl, rfl, .inr rfl⟩).symm

end Matrix

end MarketEngine
