import MarketEngine.Files.Folder
import MarketEngine.Text.Blank
/-!
# Disks

A working folder, and the folders above it up to the root. Of the folders on a disk only these are
there. A path leads from the folder above the working folder, or from the root if it begins with a
slash, through folders to a file.
-/

namespace MarketEngine

structure Disk where
  /-- The name of the working folder. -/
  name : String
  /-- The working folder, and those above it. -/
  folders : List Folder
  deriving Repr

namespace Disk

/-- A disk with a working folder in a folder that lies in the root. -/
def around (name : String) (folder : Folder) : Disk where
  name
  folders := [folder, ({} : Folder).makeFolder name, {}]

/-- The working folder. -/
def folder (d : Disk) : Folder := (d.folders.head?).getD {}

/-- Goes from one folder to the next by a component of a path. Folders are numbered upwards from
the working folder, and the one above the root is the root. -/
def enter (d : Disk) (level : Nat) (component : List Char) : Option Nat :=
  if component = [] ∨ component = ['.'] then some level
  else if component = ['.', '.'] then some (min (level + 1) (d.folders.length - 1))
  else if level = 1 ∧ component = d.name.toList then some 0
  else none

/-- The folder that components lead to. -/
def follow? (d : Disk) (path : String) (components : List (List Char)) : Option Nat :=
  components.foldlM d.enter (if path.toList.head? = some '/' then d.folders.length - 1 else 1)

/-- Whether a path leads to a folder that is there. -/
def hasFolder (d : Disk) (path : String) : Bool :=
  (d.follow? path (Text.splitAll '/' path.toList)).isSome

/-- The folder and the name that a path leads to. -/
def place? (d : Disk) (path : String) : Option (Nat × String) := do
  let components := Text.splitAll '/' path.toList
  return (← d.follow? path components.dropLast, String.ofList (components.getLastD []))

def read? (d : Disk) (path : String) : Option String := do
  let (level, name) ← d.place? path
  (← d.folders[level]?).read? name

/-- Puts a file in place of the one that a path leads to. -/
def write? (d : Disk) (path content : String) : Option Disk := do
  let (level, name) ← d.place? path
  let f ← (← d.folders[level]?).write? name content
  return { d with folders := d.folders.set level f }

/-- Takes a file away. -/
def erase (d : Disk) (path : String) : Disk :=
  match d.place? path with
  | none => d
  | some (level, name) => { d with folders := d.folders.modify level (·.erase name) }

/-- Moves a file, in place of the one that is there. -/
def rename? (d : Disk) (path newPath : String) : Option Disk := do
  let content ← d.read? path
  let moved ← d.write? newPath content
  return if d.place? path = d.place? newPath then moved else moved.erase path

end Disk

end MarketEngine
