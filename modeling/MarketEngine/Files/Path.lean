/-!
# Paths

The components of a path stand between slashes. The last one names a file, unless it is two points,
which stand for the folder above; empty components and single points count for nothing.
-/

namespace MarketEngine.Path

/-- The path of something in a folder. A name that begins with a slash is a path of its own. -/
def join (folder name : String) : String :=
  if name.toList.head? = some '/' then name
  else if folder.toList.getLast?.all (· = '/') then folder ++ name
  else folder ++ "/" ++ name

/-- A path, written backwards, without the slashes and single points at its end. -/
def dropMarks : List Char → List Char
  | '/' :: back => dropMarks back
  | '.' :: '/' :: back => dropMarks back
  | back => back

/-- The name of the file at the end of a path. -/
def fileName? (path : List Char) : Option (List Char) :=
  let name := ((dropMarks path.reverse).takeWhile (· ≠ '/')).reverse
  if name = [] ∨ name = ['.'] ∨ name = ['.', '.'] then none else some name

/-- What follows the last point of a name, unless the name begins with that point. -/
def extension? (name : List Char) : Option (List Char) :=
  if ((name.reverse.dropWhile (· ≠ '.')).drop 1).isEmpty then none
  else some (name.reverse.takeWhile (· ≠ '.')).reverse

/-- A name without its extension, and without the point before that. -/
def stem (name : List Char) : List Char :=
  match extension? name with
  | none => name
  | some e => name.take (name.length - (e.length + 1))

/-- Gives the file at the end of a path an extension, in place of the one it has. Where there is no
file the path stays as it is. -/
def setExtension (path e : List Char) : List Char :=
  match fileName? path with
  | none => path
  | some name => ((dropMarks path.reverse).drop name.length).reverse ++ stem name ++ '.' :: e

/-- A path with another extension. The end of the text makes room for it: it gives up as many
characters as the extension has that was there. What is left of a name of two points and an
extension are two points; these name no file, and take no extension. -/
def withExtension (path e : String) : String :=
  let path := path.toList
  let room := ((fileName? path).bind extension?).elim 0 List.length
  String.ofList (setExtension (path.take (path.length - room)) e.toList)

end MarketEngine.Path
