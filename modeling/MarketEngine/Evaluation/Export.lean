import MarketEngine.Evaluation.Matrix
import MarketEngine.Files.Folder
import MarketEngine.Files.Path
/-!
# Evaluation exports

An exporter writes the notes of each symbol's matrix to a file of its own, one line for every
snapshot, under a header line with the keys of the notes. Whenever the keys are not those of the
symbol's last snapshot, the file starts anew; so it does with the first snapshot, whatever stood in
it before.
-/

namespace MarketEngine

structure Exporter where
  /-- How the path of the export folder is shown. -/
  place : String
  /-- The keys of the last snapshot of each symbol. -/
  headers : Table Symbol (List String) := []
  deriving Repr

/-- The export file that could not be opened. -/
structure ExportError where
  path : String
  deriving Repr, DecidableEq

def ExportError.message (e : ExportError) : String := "failed to open evaluation export " ++ e.path

namespace Exporter

variable {α : Type} [Amount α] [Written α]

/-- The name of a symbol's file, with hyphens for the slashes of the symbol. -/
def fileName (symbol : Symbol) : String :=
  symbol.map (fun c => if c = '/' then '-' else c) ++ "_evaluations.csv"

def path (e : Exporter) (symbol : Symbol) : String := Path.join e.place (fileName symbol)

/-- A line of fields. -/
def line (fields : List String) : String := String.intercalate ";" fields ++ "\n"

/-- One field for every note: its value, or nothing while it is pending. -/
def row (s : MatrixSnapshot α) : List String := s.map fun e => e.note.value?.elim "" Written.text

/-- Writes a snapshot to the file of its symbol. -/
def save (e : Exporter) (folder : Folder) (symbol : Symbol) (s : MatrixSnapshot α) :
    Except ExportError (Exporter × Folder) :=
  let name := fileName symbol
  let written :=
    if e.headers.get? symbol == some s.keys then folder.append? name (line (row s))
    else folder.write? name (line s.keys ++ line (row s))
  match written with
  | none => .error ⟨e.path symbol⟩
  | some folder => .ok ({ e with headers := e.headers.put symbol s.keys }, folder)

end Exporter

end MarketEngine
