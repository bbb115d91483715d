/-!
# Decimal numerals

A numeral is a decimal number as it stands in a text: sign, whole part, digits after the point,
exponent. `Numeral.write` sets it out and `Numeral.read?` takes one from the front of a text,
by the strict grammar of interchange formats: no superfluous leading zero, a digit on either side
of a point, a digit in every exponent.
-/

namespace MarketEngine.Decimal

structure Numeral where
  negative : Bool
  whole : Nat
  /-- The digits after the point; there is no point when there are none. -/
  fraction : List (Fin 10)
  exponent : Option Int
  deriving Repr, DecidableEq

/-- The decimal digits of a number, the greatest first; `0` has none. -/
def digitsOf (n : Nat) : List (Fin 10) :=
  if n = 0 then [] else digitsOf (n / 10) ++ [Fin.ofNat 10 n]
  decreasing_by omega

/-- The number with these digits after those of `n`. -/
def ofDigitsFrom (n : Nat) (digits : List (Fin 10)) : Nat :=
  digits.foldl (fun m d => 10 * m + d.val) n

def writeDigit (d : Fin 10) : Char := Nat.digitChar d.val

/-- A whole number in decimal digits. -/
def writeNat (n : Nat) : List Char :=
  if n = 0 then ['0'] else (digitsOf n).map writeDigit

/-- A whole number in decimal digits, with its sign. -/
def writeSigned (n : Int) : List Char := (if n < 0 then '-' else '+') :: writeNat n.natAbs

def Numeral.write (n : Numeral) : List Char :=
  (if n.negative then ['-'] else []) ++ writeNat n.whole
    ++ (if n.fraction.isEmpty then [] else '.' :: n.fraction.map writeDigit)
    ++ (match n.exponent with
        | none => []
        | some e => 'e' :: writeSigned e)

/-- The value of a decimal digit. -/
def readDigit? (c : Char) : Option (Fin 10) :=
  if c.isDigit then some (Fin.ofNat 10 (c.toNat - '0'.toNat)) else none

/-- The digits at the front of a text, and the rest of it. -/
def readDigits : List Char → List (Fin 10) × List Char
  | [] => ([], [])
  | c :: rest =>
    match readDigit? c with
    | none => ([], c :: rest)
    | some d => let (ds, rest) := readDigits rest; (d :: ds, rest)

/-- A whole part: one zero, or digits that start with another digit. -/
def readWhole? (text : List Char) : Option (Nat × List Char) :=
  match readDigits text with
  | ([], _) => none
  | (0 :: _ :: _, _) => none
  | (ds, rest) => some (ofDigitsFrom 0 ds, rest)

/-- The digits after a point, if there is a point. -/
def readFraction? : List Char → Option (List (Fin 10) × List Char)
  | '.' :: rest =>
    match readDigits rest with
    | ([], _) => none
    | (ds, rest) => some (ds, rest)
  | text => some ([], text)

/-- The sign and digits after the `e` of an exponent. -/
def readPower? (text : List Char) : Option (Int × List Char) :=
  let (negative, text) := match text with
    | '-' :: rest => (true, rest)
    | '+' :: rest => (false, rest)
    | _ => (false, text)
  match readDigits text with
  | ([], _) => none
  | (ds, rest) =>
    let power : Int := ofDigitsFrom 0 ds
    some (if negative then -power else power, rest)

/-- An exponent, if there is one. -/
def readExponent? : List Char → Option (Option Int × List Char)
  | 'e' :: rest => (readPower? rest).map fun (e, rest) => (some e, rest)
  | 'E' :: rest => (readPower? rest).map fun (e, rest) => (some e, rest)
  | text => some (none, text)

/-- The numeral at the front of a text, and the rest of it. -/
def Numeral.read? (text : List Char) : Option (Numeral × List Char) := do
  let (negative, text) := match text with
    | '-' :: rest => (true, rest)
    | _ => (false, text)
  let (whole, text) ← readWhole? text
  let (fraction, text) ← readFraction? text
  let (exponent, text) ← readExponent? text
  return (⟨negative, whole, fraction, exponent⟩, text)

/-- The whole number that a numeral without point and exponent writes. Minus zero is none. -/
def Numeral.integer? (n : Numeral) : Option Int :=
  if n.fraction.isEmpty && n.exponent.isNone && !(n.negative && n.whole == 0) then
    some (if n.negative then -(n.whole : Int) else n.whole)
  else none

end MarketEngine.Decimal
