import MarketEngine.Table
/-!
# Folders

A folder of text files, as far as settings and exports need one: files are read, written, extended
and erased by name. A folder may be missing, and then nothing in it can be read or written.
-/

namespace MarketEngine

/-- What stands under a name in a folder. -/
inductive FileNode where
  | text (content : String)
  | folder
  deriving Repr, DecidableEq

structure Folder where
  nodes : Table String FileNode := []
  missing : Bool := false
  deriving Repr, DecidableEq

namespace Folder

/-- Whether a file can have this name: it is not empty, does not lead out of the folder, and is no
longer than 255 bytes. -/
def isFileName (name : String) : Bool :=
  name ≠ "" && name ≠ "." && name ≠ ".." && !name.any (fun c => c == '/' || c == '\x00')
    && name.utf8ByteSize ≤ 255

def read? (f : Folder) (name : String) : Option String :=
  match f.nodes.get? name with
  | some (.text content) => if f.missing then none else some content
  | _ => none

/-- Puts a file in place of what has this name, unless that is a folder. -/
def write? (f : Folder) (name content : String) : Option Folder :=
  if f.missing || !isFileName name || f.nodes.get? name == some .folder then none
  else some { f with nodes := f.nodes.put name (.text content) }

/-- Adds to the end of a file, which is empty if it was not there. -/
def append? (f : Folder) (name content : String) : Option Folder :=
  f.write? name ((f.read? name).getD "" ++ content)

def erase (f : Folder) (name : String) : Folder :=
  { f with nodes := f.nodes.filter (·.1 ≠ name) }

def makeFolder (f : Folder) (name : String) : Folder :=
  { f with nodes := f.nodes.put name .folder }

/-- The names in the folder, in the order of their characters. -/
def names (f : Folder) : List String := f.nodes.keys.mergeSort (· ≤ ·)

end Folder

end MarketEngine
