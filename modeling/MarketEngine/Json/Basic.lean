import MarketEngine.Decimal.Numeral
/-!
# JSON values

The values of the interchange format, with numbers as the numerals that were written and objects as
the lists of fields that were written.
-/

namespace MarketEngine

/-- A value of the interchange format. A text that holds half of a surrogate pair can be written but
is no text; it stands here as `none`. -/
inductive Json where
  | null
  | bool (b : Bool)
  | number (n : Decimal.Numeral)
  | text (s : Option String)
  | array (items : List Json)
  | object (fields : List (Option String × Json))

namespace Json

instance : Inhabited Json := ⟨null⟩

def ofString (s : String) : Json := text (some s)

def ofInt (n : Int) : Json := number ⟨n < 0, n.natAbs, [], none⟩

def ofNat (n : Nat) : Json := ofInt n

/-- The object with these fields. -/
def record (fields : List (String × Json)) : Json := object (fields.map fun f => (some f.1, f.2))

end Json

end MarketEngine
