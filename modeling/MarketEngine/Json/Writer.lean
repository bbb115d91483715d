import MarketEngine.Json.Basic
/-!
# Writing JSON texts

`Json.write` sets a value out, either without any blank or with one item to a line, indented by two
blanks for every level.
-/

namespace MarketEngine.Json

/-- Whether items stand on lines of their own. -/
inductive Style where
  | compact
  | indented
  deriving Repr, DecidableEq

/-- A hexadecimal digit. -/
def writeHexDigit (n : Nat) : Char := Nat.digitChar (n % 16)

/-- A character inside a text: quotes, backslashes and control characters are escaped. -/
def writeChar (c : Char) : List Char :=
  match c with
  | '"' => ['\\', '"']
  | '\\' => ['\\', '\\']
  | '\x08' => ['\\', 'b']
  | '\x0c' => ['\\', 'f']
  | '\n' => ['\\', 'n']
  | '\r' => ['\\', 'r']
  | '\t' => ['\\', 't']
  | c =>
    if c.toNat < 0x20 then
      ['\\', 'u', '0', '0', writeHexDigit (c.toNat / 16), writeHexDigit c.toNat]
    else [c]

/-- A text in quotes. What is no text is written as one half of a surrogate pair. -/
def writeText : Option String → List Char
  | some s => '"' :: s.toList.flatMap writeChar ++ ['"']
  | none => "\"\\ud800\"".toList

/-- The break before an item or a closing bracket. -/
def Style.newline (style : Style) (depth : Nat) : List Char :=
  match style with
  | .compact => []
  | .indented => '\n' :: List.replicate (2 * depth) ' '

def Style.colon : Style → List Char
  | .compact => [':']
  | .indented => [':', ' ']

mutual

/-- The text of a value that stands inside `depth` brackets. -/
def write (style : Style) (depth : Nat) : Json → List Char
  | null => "null".toList
  | bool true => "true".toList
  | bool false => "false".toList
  | number n => n.write
  | text s => writeText s
  | array [] => ['[', ']']
  | array (item :: items) =>
    '[' :: writeItems style (depth + 1) (item :: items) ++ style.newline depth ++ [']']
  | object [] => ['{', '}']
  | object (field :: fields) =>
    '{' :: writeFields style (depth + 1) (field :: fields) ++ style.newline depth ++ ['}']

/-- Items with commas between them. -/
def writeItems (style : Style) (depth : Nat) : List Json → List Char
  | [] => []
  | [item] => style.newline depth ++ item.write style depth
  | item :: items =>
    style.newline depth ++ item.write style depth ++ ',' :: writeItems style depth items

/-- Fields with commas between them. -/
def writeFields (style : Style) (depth : Nat) : List (Option String × Json) → List Char
  | [] => []
  | [(name, value)] =>
    style.newline depth ++ writeText name ++ style.colon ++ value.write style depth
  | (name, value) :: fields =>
    style.newline depth ++ writeText name ++ style.colon ++ value.write style depth
      ++ ',' :: writeFields style depth fields

end

/-- The text of a value. -/
def render (style : Style) (j : Json) : String := String.ofList (j.write style 0)

end MarketEngine.Json
