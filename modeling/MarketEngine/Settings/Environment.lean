import MarketEngine.Settings.Basic
import MarketEngine.Text.Alphanumeric
import MarketEngine.Text.Upper
/-!
# Environment

Variables of the process may override settings. A file of variables is read first; a variable that
the process has already keeps its value. The file has one assignment to a line, with comments,
quotes, escapes and references to other variables; reading stops at the first line that is none.
-/

namespace MarketEngine

/-- The variables of the process. -/
abbrev Variables := Table String String

namespace Variables

/-- How far a reference to a variable has been read. -/
inductive Reference where
  | none
  /-- After the dollar sign. -/
  | bare
  /-- After the opening brace. -/
  | braced
  deriving Repr, DecidableEq

/-- Where in a value the reader stands. -/
inductive Place where
  | plain
  | singleQuoted
  | doubleQuoted
  /-- After a blank, where only a comment may follow. -/
  | ending
  deriving Repr, DecidableEq

/-- A value under way. The texts are kept in reverse. -/
structure ValueReader where
  place : Place := .plain
  /-- Whether a backslash has just been read. -/
  escaped : Bool := false
  reference : Reference := .none
  name : List Char := []
  output : List Char := []

/-- What a name refers to. The variables stand as texts `name=value`, and a name refers to what
follows `name=` in such a text; so a name that itself has a sign of equality in it refers to the end
of a value. -/
def referred? (vars : Variables) (name : List Char) : Option (List Char) :=
  vars.findSome? fun (key, value) =>
    List.isPrefixOf? (name ++ ['=']) (key.toList ++ '=' :: value.toList)

/-- Puts the value of the referred variable, or nothing if there is none, into the output. -/
def ValueReader.resolve (vars : Variables) (r : ValueReader) : ValueReader :=
  let value := (vars.referred? r.name.reverse).getD []
  { r with name := [], output := value.reverse ++ r.output, reference := .none }

def ValueReader.push (r : ValueReader) (c : Char) : ValueReader :=
  { r with output := c :: r.output }

/-- A character outside of references, escapes and single quotes. -/
def ValueReader.readPlain (r : ValueReader) (c : Char) : ValueReader :=
  if c = '$' then { r with reference := .bare }
  else if c = '\\' then { r with escaped := true }
  else if r.place = .doubleQuoted then
    if c = '"' then { r with place := .plain } else r.push c
  else if c = '\'' then { r with place := .singleQuoted }
  else if c = '"' then { r with place := .doubleQuoted }
  else if c = ' ' ∨ c = '\t' then { r with place := .ending }
  else r.push c

/-- The characters of a value, one after the other, up to a comment. -/
def ValueReader.read? (vars : Variables) (r : ValueReader) : List Char → Option ValueReader
  | [] => some r
  | c :: rest =>
    if r.place = .ending then
      if c = ' ' ∨ c = '\t' then read? vars r rest
      else if c = '#' then some r
      else none
    else if r.escaped then
      let r := { r with escaped := false }
      if c = 'n' then read? vars (r.push '\n') rest
      else if c = '\\' ∨ c = '\'' ∨ c = '"' ∨ c = '$' ∨ c = ' ' then read? vars (r.push c) rest
      else none
    else if r.place = .singleQuoted then
      read? vars (if c = '\'' then { r with place := .plain } else r.push c) rest
    else match r.reference with
      | .none => read? vars (r.readPlain c) rest
      | .bare =>
        if Text.isAlphanumeric c then read? vars { r with name := c :: r.name } rest
        else if c = '{' ∧ r.name = [] then read? vars { r with reference := .braced } rest
        else if c = '$' then read? vars { r.resolve vars with reference := .bare } rest
        else read? vars ((r.resolve vars).push c) rest
      | .braced =>
        if c = '}' then read? vars (r.resolve vars) rest
        else read? vars { r with name := c :: r.name } rest

/-- The value that is written after the sign of equality. Quotes and braces have to be closed. -/
def value? (vars : Variables) (cs : List Char) : Option String := do
  let r ← ValueReader.read? vars {} cs
  if r.reference = .braced ∨ r.place = .singleQuoted ∨ r.place = .doubleQuoted then none
  else return String.ofList (r.resolve vars).output.reverse

def isKeyStart (c : Char) : Bool := c.isAlpha || c == '_'

def isKeyChar (c : Char) : Bool := c.isAlphanum || c == '_' || c == '.'

/-- The key at the front of a line, and the rest after the blanks that follow it. -/
def key? (cs : List Char) : Option (String × List Char) :=
  if cs.head?.any isKeyStart then
    some (String.ofList (cs.takeWhile isKeyChar), (cs.dropWhile isKeyChar).dropWhile Text.isBlank)
  else none

/-- What a line says: nothing, or a value for a key. The word `export` may stand before the key. -/
def line? (vars : Variables) (line : List Char) : Option (Option (String × String)) := do
  let cs := Text.trimBoth Text.isBlank line
  if cs.isEmpty || cs.head? == some '#' then return none
  let (key, rest) ← key? cs
  let (key, rest) ←
    if key == "export" && rest.head? != some '=' then key? rest else some (key, rest)
  match rest with
  | '=' :: value =>
    let value := value.dropWhile Text.isBlank
    if value.isEmpty || value.head? == some '#' then return some (key, "")
    return some (key, ← value? vars value)
  | _ => none

/-- Reads lines of assignments, up to the first that is none. -/
def readLines (vars : Variables) : List (List Char) → Variables
  | [] => vars
  | line :: rest =>
    match line? vars line with
    | none => vars
    | some none => readLines vars rest
    | some (some (key, value)) =>
      readLines (if (vars.get? key).isSome then vars else vars.put key value) rest

/-- Reads a file of variables. -/
def readText (vars : Variables) (text : String) : Variables :=
  vars.readLines (Text.splitAll '\n' text.toList)

end Variables

namespace Settings

variable {α : Type}

/-- The pieces of a list of names, without the blanks around them, and without empty ones. -/
def listItems (s : String) : List String :=
  ((Text.splitAll ',' s.toList).map fun cs => Text.trim (String.ofList cs)).filter (· ≠ "")

/-- Applies the variables that override settings. -/
def override (s : Settings α) (vars : Variables) : Settings α :=
  let s := match vars.get? "AURORA_EXCHANGE" with
    | some name => if Text.trim name = "" then s else { s with exchangeName := Text.trim name }
    | none => s
  let s := match vars.get? "AURORA_SYMBOLS" with
    | some names => { s with symbols := (listItems names).map Text.upper }
    | none => s
  let s := match vars.get? "AURORA_TIME_FRAMES" with
    | some names => { s with timeFrames := (listItems names).filterMap TimeFrame.ofName? }
    | none => s
  match vars.get? "AURORA_SAVE_EVALUATIONS" with
  | some flag =>
    { s with saveEvaluations := ["1", "true", "TRUE", "yes"].contains (Text.trim flag) }
  | none => s

end Settings

end MarketEngine
