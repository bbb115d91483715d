import MarketEngine.Evaluation.Matrix
import MarketEngine.Proofs.Tables
import MarketEngine.Proofs.Text.ByteOrder
import Mathlib.Data.List.Sort
/-!
# Notes by their place

A matrix has at most one note at a place, which is a kind, a name and, possibly, a time frame
(`Matrix.noteAt?`). A snapshot lists what stands at the places (`Matrix.mem_snapshot`), and as long
as no cell is held twice it lists them in order (`Matrix.pairwise_snapshot`). A write puts a note at
its place and takes away those of the other form that stood under its name
(`Matrix.noteAt?_setNote`).
-/

namespace MarketEngine

variable {α : Type}

/-! ## Entries that share a key -/

/-- Of entries that share a key, either all have the key asked for or none has. -/
theorem filter_of_forall_key_eq {β κ : Type} [DecidableEq κ] {key : β → κ} {l : List β}
    {k : κ} (h : ∀ b ∈ l, key b = k) (k' : κ) :
    l.filter (key · == k') = if k = k' then l else [] := by
  split
  · next heq => exact List.filter_eq_self.2 fun b hb => by simp [h b hb, heq]
  · next hne => exact List.filter_eq_nil_iff.2 fun b hb => by simp [h b hb, hne]

/-- Of distinct entries only one contributes. -/
theorem flatMap_ite_eq {β γ : Type} [DecidableEq β] {l : List β} (h : l.Nodup) (b : β)
    (f : β → List γ) :
    (l.flatMap fun c => if c = b then f c else []) = if b ∈ l then f b else [] := by
  induction l with
  | nil => rfl
  | cons c rest ih =>
    obtain ⟨hc, hrest⟩ := List.nodup_cons.1 h
    rw [List.flatMap_cons, ih hrest]
    by_cases heq : c = b
    · subst heq
      simp [hc]
    · simp [heq, Ne.symm heq]

/-! ## The order of entries -/

/-- The place of a kind in a matrix. -/
def EvaluatorKind.rank : EvaluatorKind → Nat
  | technical => 0
  | social => 1
  | realTime => 2
  | strategies => 3

/-- Entries are in order by kind, then by the bytes of their names, then by time frame. -/
def MatrixEntry.Precedes (a b : MatrixEntry α) : Prop :=
  a.kind.rank < b.kind.rank ∨ a.kind = b.kind ∧
    (Text.bytes a.name < Text.bytes b.name ∨ a.name = b.name ∧
      ∃ t ∈ a.timeFrame, ∃ t' ∈ b.timeFrame, t.minutes < t'.minutes)

/-- The entry answers for a time frame: for its own, or for any if it has none. -/
def MatrixEntry.Answers (entry : MatrixEntry α) (kind : EvaluatorKind) (name : String)
    (t : Option TimeFrame) : Prop :=
  entry.kind = kind ∧ entry.name = name ∧ (entry.timeFrame = none ∨ entry.timeFrame = t)

/-! ## The place of a note -/

/-- The note of a cell for a time frame, or without one. -/
def Cell.noteAt? : Cell α → Option TimeFrame → Option (Note α)
  | .single note, none => some note
  | .byTimeFrame notes, some t => notes.get? t
  | _, _ => none

namespace Matrix

/-- The note at exactly this place. -/
def noteAt? (m : Matrix α) (kind : EvaluatorKind) (name : String) (t : Option TimeFrame) :
    Option (Note α) :=
  (m.cells.get? (kind, name)).bind (·.noteAt? t)

/-- The entries of one evaluator. -/
def entriesAt (m : Matrix α) (kind : EvaluatorKind) (name : String) : List (MatrixEntry α) :=
  (m.cells.get? (kind, name)).elim [] (cellEntries kind name)

/-- A cell lists the notes that stand in it, each under its kind and name. -/
theorem mem_cellEntries {kind : EvaluatorKind} {name : String} {cell : Cell α}
    {entry : MatrixEntry α} : entry ∈ cellEntries kind name cell ↔
      entry.kind = kind ∧ entry.name = name ∧ cell.noteAt? entry.timeFrame = some entry.note := by
  obtain ⟨kind', name', t, note⟩ := entry
  cases cell with
  | single note' => cases t <;> simp [cellEntries, Cell.noteAt?, eq_comm]
  | byTimeFrame notes =>
    have hall : ∀ t, t ∈ TimeFrame.all := fun t => by cases t <;> decide
    cases t with
    | none => simp [cellEntries, Cell.noteAt?]
    | some t =>
      simp only [cellEntries, List.mem_filterMap, Option.map_eq_some_iff, Cell.noteAt?]
      constructor
      · rintro ⟨t', -, note', hnote', heq⟩
        cases heq
        exact ⟨rfl, rfl, hnote'⟩
      · rintro ⟨rfl, rfl, hnote⟩
        exact ⟨t, hall t, note, hnote, rfl⟩

/-- The entries of an evaluator are the notes that stand at its places. -/
theorem mem_entriesAt {m : Matrix α} {kind : EvaluatorKind} {name : String}
    {entry : MatrixEntry α} : entry ∈ m.entriesAt kind name ↔
      entry.kind = kind ∧ entry.name = name ∧
        m.noteAt? kind name entry.timeFrame = some entry.note := by
  unfold entriesAt noteAt?
  cases m.cells.get? (kind, name) with
  | none => simp
  | some cell => exact mem_cellEntries

/-- An evaluator is named if it has a cell. -/
theorem mem_names {m : Matrix α} {kind : EvaluatorKind} {name : String} :
    name ∈ m.names kind ↔ (m.cells.get? (kind, name)).isSome = true := by
  rw [names, List.mem_mergeSort, ← Table.mem_keys_iff]
  simp

/-- A snapshot goes kind by kind, and by name in each. -/
theorem snapshot_eq (m : Matrix α) : m.snapshot = EvaluatorKind.all.flatMap fun kind =>
    (m.names kind).flatMap (m.entriesAt kind) := rfl

/-- Names that were first written in their order need no sorting. -/
theorem snapshot_eq_of_sorted {m : Matrix α} (h : ∀ kind ∈ EvaluatorKind.all,
      ((m.cells.keys.filter (·.1 == kind)).map (·.2)).Pairwise (· ≤ ·)) :
    m.snapshot = EvaluatorKind.all.flatMap fun kind =>
      ((m.cells.keys.filter (·.1 == kind)).map (·.2)).flatMap (m.entriesAt kind) := by
  refine List.flatMap_congr fun kind hkind => ?_
  rw [names, List.mergeSort_of_pairwise ((h kind hkind).imp (by simp))]
  rfl

/-- A snapshot holds what stands at the places. -/
theorem mem_snapshot {m : Matrix α} {entry : MatrixEntry α} : entry ∈ m.snapshot ↔
    m.noteAt? entry.kind entry.name entry.timeFrame = some entry.note := by
  simp only [snapshot_eq, List.mem_flatMap, mem_entriesAt, mem_names]
  constructor
  · rintro ⟨kind, -, name, -, rfl, rfl, hnote⟩
    exact hnote
  · intro hnote
    have hkind : entry.kind ∈ EvaluatorKind.all := by cases entry.kind <;> decide
    obtain ⟨cell, hcell, -⟩ := Option.bind_eq_some_iff.1 hnote
    exact ⟨entry.kind, hkind, entry.name, by simp [hcell], rfl, rfl, hnote⟩

/-! ## The order of a snapshot -/

/-- The entries of a kind come from the evaluators of that kind. -/
theorem ofKind_snapshot (m : Matrix α) (kind : EvaluatorKind) :
    m.snapshot.ofKind kind = (m.names kind).flatMap (m.entriesAt kind) := by
  have hentries : ∀ kind', ∀ entry ∈ (m.names kind').flatMap (m.entriesAt kind'),
      entry.kind = kind' := by
    intro kind' entry hentry
    obtain ⟨name, -, hname⟩ := List.mem_flatMap.1 hentry
    exact (mem_entriesAt.1 hname).1
  have hfilter := fun kind' => filter_of_forall_key_eq (hentries kind') kind
  simp only [MatrixSnapshot.ofKind, snapshot_eq, List.filter_flatMap] at hfilter ⊢
  simp only [hfilter]
  cases kind <;> simp [EvaluatorKind.all]

/-- Names are listed in the order of their characters. -/
theorem sorted_names (m : Matrix α) (kind : EvaluatorKind) :
    (m.names kind).Pairwise (· ≤ ·) := List.pairwise_mergeSort' _ _

/-- Within a cell the shorter time frame comes first. -/
theorem pairwise_cellEntries (kind : EvaluatorKind) (name : String) (cell : Cell α) :
    (cellEntries kind name cell).Pairwise MatrixEntry.Precedes := by
  cases cell with
  | single note => exact List.pairwise_singleton _ _
  | byTimeFrame notes =>
    have hall : TimeFrame.all.Pairwise fun t t' => t.minutes < t'.minutes := by decide
    refine List.pairwise_filterMap.2 (hall.imp fun {t t'} hlt entry hentry entry' hentry' => ?_)
    obtain ⟨note, -, rfl⟩ := Option.map_eq_some_iff.1 hentry
    obtain ⟨note', -, rfl⟩ := Option.map_eq_some_iff.1 hentry'
    exact .inr ⟨rfl, .inr ⟨rfl, t, rfl, t', rfl, hlt⟩⟩

/-- The entries of an evaluator are in order. -/
theorem pairwise_entriesAt (m : Matrix α) (kind : EvaluatorKind) (name : String) :
    (m.entriesAt kind name).Pairwise MatrixEntry.Precedes := by
  unfold entriesAt
  cases m.cells.get? (kind, name) with
  | none => exact .nil
  | some cell => exact pairwise_cellEntries kind name cell

variable {m : Matrix α} (h : m.cells.keys.Nodup)
include h

/-- Each name is listed once, as each evaluator has one cell. -/
theorem nodup_names (kind : EvaluatorKind) : (m.names kind).Nodup := by
  refine (List.mergeSort_perm _ _).nodup_iff.2 ((h.filter _).map_on ?_)
  rintro ⟨kind', name⟩ hmem ⟨kind'', name'⟩ hmem' heq
  simp only [List.mem_filter, beq_iff_eq] at hmem hmem' heq
  rw [hmem.2, hmem'.2, heq]

/-- The order of characters is that of the bytes. -/
theorem pairwise_names (kind : EvaluatorKind) :
    (m.names kind).Pairwise fun name name' => Text.bytes name < Text.bytes name' :=
  ((m.sorted_names kind).and (nodup_names h kind)).imp fun ⟨hle, hne⟩ =>
    Text.bytes_lt_bytes (lt_of_le_of_ne hle hne)

/-- A snapshot is in order. -/
theorem pairwise_snapshot : m.snapshot.Pairwise MatrixEntry.Precedes := by
  have hranks : EvaluatorKind.all.Pairwise fun kind kind' => kind.rank < kind'.rank := by decide
  rw [snapshot_eq, List.pairwise_flatMap]
  refine ⟨fun kind _ => ?_, hranks.imp fun {kind kind'} hlt entry hentry entry' hentry' => ?_⟩
  · rw [List.pairwise_flatMap]
    refine ⟨fun name _ => m.pairwise_entriesAt kind name, (pairwise_names h kind).imp ?_⟩
    intro name name' hlt entry hentry entry' hentry'
    obtain ⟨hkind, hname, -⟩ := mem_entriesAt.1 hentry
    obtain ⟨hkind', hname', -⟩ := mem_entriesAt.1 hentry'
    refine .inr ⟨hkind.trans hkind'.symm, .inl ?_⟩
    rwa [hname, hname']
  · obtain ⟨name, -, hentry⟩ := List.mem_flatMap.1 hentry
    obtain ⟨name', -, hentry'⟩ := List.mem_flatMap.1 hentry'
    refine .inl ?_
    rwa [(mem_entriesAt.1 hentry).1, (mem_entriesAt.1 hentry').1]

/-- The entries of one evaluator stand together. -/
theorem filter_snapshot (kind : EvaluatorKind) (name : String) :
    m.snapshot.filter (fun entry => entry.kind == kind && entry.name == name)
      = m.entriesAt kind name := by
  have hentries : ∀ name', ∀ entry ∈ m.entriesAt kind name', entry.name = name' :=
    fun name' entry hentry => (mem_entriesAt.1 hentry).2.1
  have hfilter := fun name' => filter_of_forall_key_eq (hentries name') name
  have hsplit : m.snapshot.filter (fun entry => entry.kind == kind && entry.name == name)
      = (m.snapshot.ofKind kind).filter (·.name == name) := by
    simp only [MatrixSnapshot.ofKind, List.filter_filter, Bool.and_comm]
  rw [hsplit, ofKind_snapshot, List.filter_flatMap]
  simp only [hfilter]
  rw [flatMap_ite_eq (nodup_names h kind)]
  split
  · rfl
  · next habsent =>
    rw [mem_names, Option.not_isSome_iff_eq_none] at habsent
    rw [entriesAt, habsent, Option.elim_none]

omit h

/-! ## Reading -/

/-- The value of a snapshot at a place is that of the note there. -/
theorem note?_snapshot [Amount α] (m : Matrix α) (kind : EvaluatorKind) (name : String)
    (t : Option TimeFrame) :
    m.snapshot.note? kind name t = (m.noteAt? kind name t).bind (·.value?) := by
  unfold MatrixSnapshot.note?
  cases hfound : m.snapshot.find? (·.isAt kind name t) with
  | none =>
    cases hnote : m.noteAt? kind name t with
    | none => rfl
    | some note =>
      have hentry : (⟨kind, name, t, note⟩ : MatrixEntry α) ∈ m.snapshot := mem_snapshot.2 hnote
      simpa [MatrixEntry.isAt] using List.find?_eq_none.1 hfound _ hentry
  | some entry =>
    have hplace := List.find?_some hfound
    have hentry := mem_snapshot.1 (List.mem_of_find?_eq_some hfound)
    simp only [MatrixEntry.isAt, Bool.and_eq_true, beq_iff_eq] at hplace
    obtain ⟨⟨rfl, rfl⟩, rfl⟩ := hplace
    rw [hentry, Option.bind_some, Option.bind_some]

/-- A note without a time frame answers first, and otherwise the one for the time frame that is
asked for. -/
theorem note?_eq [Amount α] (m : Matrix α) (kind : EvaluatorKind) (name : String)
    (t : Option TimeFrame) : m.note? kind name t
      = ((m.noteAt? kind name none).or (m.noteAt? kind name t)).bind (·.value?) := by
  unfold note? noteAt?
  cases m.cells.get? (kind, name) with
  | none => cases t <;> rfl
  | some cell => cases cell <;> cases t <;> simp [Cell.noteAt?]

/-- Where there are notes by time frame there is none without. -/
theorem noteAt?_none_of_isSome {m : Matrix α} {kind : EvaluatorKind} {name : String}
    {t : TimeFrame} (h : (m.noteAt? kind name (some t)).isSome = true) :
    m.noteAt? kind name none = none := by
  rw [noteAt?] at h ⊢
  generalize m.cells.get? (kind, name) = cell at h ⊢
  rcases cell with _ | (_ | _)
  · rfl
  · cases h
  · rfl

/-- What is read is the value of the entry that answers. -/
theorem note?_of_answers [Amount α] {m : Matrix α} {entry : MatrixEntry α}
    (h : entry ∈ m.snapshot) {kind : EvaluatorKind} {name : String} {t : Option TimeFrame}
    (hanswers : entry.Answers kind name t) : m.note? kind name t = entry.note.value? := by
  obtain ⟨rfl, rfl, htimeFrame⟩ := hanswers
  have hnote := mem_snapshot.1 h
  rw [note?_eq]
  rcases htimeFrame with hnone | rfl
  · rw [hnone] at hnote
    rw [hnote, Option.some_or, Option.bind_some]
  · cases htimeFrame : entry.timeFrame with
    | none =>
      rw [htimeFrame] at hnote
      rw [hnote, Option.some_or, Option.bind_some]
    | some t =>
      rw [htimeFrame] at hnote
      rw [noteAt?_none_of_isSome (by rw [hnote]; rfl), Option.none_or, hnote, Option.bind_some]

/-- Where no entry answers there is no value. -/
theorem note?_of_forall_not_answers [Amount α] {m : Matrix α} {kind : EvaluatorKind}
    {name : String} {t : Option TimeFrame}
    (h : ∀ entry ∈ m.snapshot, ¬entry.Answers kind name t) : m.note? kind name t = none := by
  have hnone : ∀ t', t' = none ∨ t' = t → m.noteAt? kind name t' = none := by
    intro t' ht'
    cases hnote : m.noteAt? kind name t' with
    | none => rfl
    | some note => exact absurd ⟨rfl, rfl, ht'⟩ (h ⟨kind, name, t', note⟩ (mem_snapshot.2 hnote))
  rw [note?_eq, hnone none (.inl rfl), hnone t (.inr rfl)]
  rfl

/-! ## Writing -/

/-- What is written stands in its place. A note for a time frame leaves those for others, and a note
without one leaves none. -/
theorem noteAt?_writeCell (cell : Option (Cell α)) (note : Note α) (t t' : Option TimeFrame) :
    (writeCell cell note t).noteAt? t' = if t' = t then some note
      else if t.isSome && t'.isSome then cell.bind (·.noteAt? t') else none := by
  cases t with
  | none => cases t' <;> simp [writeCell, Cell.noteAt?]
  | some t =>
    cases t' with
    | none => rcases cell with _ | (_ | _) <;> simp [writeCell, Cell.noteAt?]
    | some t' =>
      -- the notes that the write adds to are none where the cell had none by time frame
      obtain ⟨notes, hnotes, hold⟩ : ∃ notes : Table TimeFrame (Note α),
          writeCell cell note (some t) = .byTimeFrame (notes.put t note) ∧
          notes.get? t' = cell.bind (·.noteAt? (some t')) := by
        rcases cell with _ | (_ | notes)
        · exact ⟨[], rfl, rfl⟩
        · exact ⟨[], rfl, rfl⟩
        · exact ⟨notes, rfl, rfl⟩
      rw [hnotes, ← hold, Cell.noteAt?, Table.get?_put]
      simp

variable [Amount α] (m : Matrix α) (kind : EvaluatorKind) (name : String) (note : Note α)
  (t : Option TimeFrame)

/-- A note that is written gives each evaluator no second cell. -/
theorem nodup_setNote {m : Matrix α} (h : m.cells.keys.Nodup) :
    (m.setNote kind name note t).cells.keys.Nodup :=
  Table.nodup_keys_put h _ _

/-- A write under another name leaves a note alone. -/
theorem noteAt?_setNote_of_ne {kind' : EvaluatorKind} {name' : String}
    (h : (kind', name') ≠ (kind, name)) (t' : Option TimeFrame) :
    (m.setNote kind name note t).noteAt? kind' name' t' = m.noteAt? kind' name' t' := by
  rw [noteAt?, setNote, Table.get?_put, if_neg (by simpa using h), ← noteAt?]

/-- A write puts the note at its place, keeps those for other time frames if it is for one, and
takes away those of the other form. -/
theorem noteAt?_setNote (t' : Option TimeFrame) :
    (m.setNote kind name note t).noteAt? kind name t' = if t' = t then some note.checked
      else if t.isSome && t'.isSome then m.noteAt? kind name t' else none := by
  rw [noteAt?, setNote, Table.get?_put, if_pos (beq_self_eq_true _), Option.bind_some,
    noteAt?_writeCell, ← noteAt?]

end Matrix

end MarketEngine
