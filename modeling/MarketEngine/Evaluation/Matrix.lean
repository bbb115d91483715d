import MarketEngine.Evaluation.Note
import MarketEngine.Table
/-!
# Evaluation matrix

The latest note of every evaluator of a symbol. An evaluator has either a single note or a note for
each time frame it was evaluated in, whichever it was given last. A snapshot lists the notes by
kind, name and time frame.
-/

namespace MarketEngine

/-- The notes of one evaluator. -/
inductive Cell (α : Type) where
  | single (note : Note α)
  | byTimeFrame (notes : Table TimeFrame (Note α))
  deriving Repr

/-- One note of a snapshot. -/
structure MatrixEntry (α : Type) where
  kind : EvaluatorKind
  name : String
  timeFrame : Option TimeFrame
  note : Note α
  deriving Repr

namespace MatrixEntry

variable {α : Type}

/-- Kind and name, and the time frame if there is one, with slashes between them. -/
def key (e : MatrixEntry α) : String :=
  match e.timeFrame with
  | some t => e.kind.label ++ "/" ++ e.name ++ "/" ++ t.name
  | none => e.kind.label ++ "/" ++ e.name

/-- Whether the entry stands at exactly this place. -/
def isAt (e : MatrixEntry α) (kind : EvaluatorKind) (name : String) (t : Option TimeFrame) :
    Bool :=
  e.kind == kind && e.name == name && e.timeFrame == t

end MatrixEntry

/-- The notes of a matrix, in order. -/
abbrev MatrixSnapshot (α : Type) := List (MatrixEntry α)

namespace MatrixSnapshot

variable {α : Type}

def keys (s : MatrixSnapshot α) : List String := s.map MatrixEntry.key

def ofKind (s : MatrixSnapshot α) (kind : EvaluatorKind) : MatrixSnapshot α :=
  s.filter (·.kind == kind)

/-- The value at exactly this place. -/
def note? [Amount α] (s : MatrixSnapshot α) (kind : EvaluatorKind) (name : String)
    (t : Option TimeFrame) : Option α :=
  (s.find? (·.isAt kind name t)).bind (·.note.value?)

end MatrixSnapshot

structure Matrix (α : Type) where
  cells : Table (EvaluatorKind × String) (Cell α) := []
  /-- The type of each evaluator's note. -/
  types : Table String String := []
  deriving Repr

namespace Matrix

variable {α : Type}

/-- The cell after writing a note, for one time frame or for all. -/
def writeCell (cell : Option (Cell α)) (note : Note α) : Option TimeFrame → Cell α
  | none => .single note
  | some t =>
    match cell with
    | some (.byTimeFrame notes) => .byTimeFrame (notes.put t note)
    | _ => .byTimeFrame [(t, note)]

/-- Writes an evaluator's note. A note for a time frame starts a cell of notes by time frame where
there was none; a note without one replaces all of them. -/
def setNote [Amount α] (m : Matrix α) (kind : EvaluatorKind) (name : String) (note : Note α)
    (t : Option TimeFrame) : Matrix α :=
  { m with
    cells := m.cells.put (kind, name) (writeCell (m.cells.get? (kind, name)) note.checked t) }

/-- The value of an evaluator's note. A single note answers for every time frame. -/
def note? [Amount α] (m : Matrix α) (kind : EvaluatorKind) (name : String)
    (t : Option TimeFrame) : Option α :=
  match m.cells.get? (kind, name), t with
  | none, _ => none
  | some (.single note), _ => note.value?
  | some (.byTimeFrame notes), some t => (notes.get? t).bind (·.value?)
  | some (.byTimeFrame _), none => none

def setType (m : Matrix α) (name type : String) : Matrix α :=
  { m with types := m.types.put name type }

def type? (m : Matrix α) (name : String) : Option String := m.types.get? name

/-- The notes of a cell, the shortest time frame first. -/
def cellEntries (kind : EvaluatorKind) (name : String) : Cell α → List (MatrixEntry α)
  | .single note => [⟨kind, name, none, note⟩]
  | .byTimeFrame notes =>
    TimeFrame.all.filterMap fun t => (notes.get? t).map fun note => ⟨kind, name, some t, note⟩

/-- The names of the evaluators of a kind, in the order of their characters. -/
def names (m : Matrix α) (kind : EvaluatorKind) : List String :=
  ((m.cells.keys.filter (·.1 == kind)).map (·.2)).mergeSort (· ≤ ·)

/-- All notes by kind, name and time frame. -/
def snapshot (m : Matrix α) : MatrixSnapshot α :=
  EvaluatorKind.all.flatMap fun kind =>
    (m.names kind).flatMap fun name =>
      (m.cells.get? (kind, name)).elim [] (cellEntries kind name)

/-- The notes of one kind that have a value. -/
def validNotes [Amount α] (m : Matrix α) (kind : EvaluatorKind) :
    List (String × Option TimeFrame × α) :=
  (m.snapshot.ofKind kind).filterMap fun e => e.note.value?.map fun x => (e.name, e.timeFrame, x)

end Matrix

end MarketEngine
