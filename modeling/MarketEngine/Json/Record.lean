import MarketEngine.Json.Basic
import MarketEngine.Amount
import MarketEngine.Decimal.Reading
/-!
# Values as JSON

How numbers, texts, enumerations and records stand in JSON, and how they are read back. A record is
an object with its fields under their names in any order, where other fields are ignored and a
repeated one is refused, or an array with its fields in their declared order.
-/

namespace MarketEngine

/-- Amounts that stand in JSON as numbers. One that is not finite has no numeral and stands as
`null`, which is no number to a reader. -/
class JsonAmount (α : Type) where
  numeral? : α → Option Decimal.Numeral
  ofNumeral? : Decimal.Numeral → Option α

instance : JsonAmount Float where
  numeral? x := Decimal.Layout.settings.numeral? (Decimal.Parts.ofBits x.toBits.toNat)
  ofNumeral? := Decimal.Numeral.stepwise?

namespace Json

/-! ## Plain values -/

def ofAmount {α : Type} [JsonAmount α] (x : α) : Json :=
  match JsonAmount.numeral? x with
  | some n => number n
  | none => null

def amount? {α : Type} [JsonAmount α] : Json → Option α
  | number n => JsonAmount.ofNumeral? n
  | _ => none

def string? : Json → Option String
  | text s => s
  | _ => none

def bool? : Json → Option Bool
  | bool b => some b
  | _ => none

/-- A whole number, written without point and exponent, in the range from `low` to `high`. -/
def intBetween? (low high : Int) : Json → Option Int
  | number n => n.integer?.filter fun i => low ≤ i ∧ i ≤ high
  | _ => none

/-- A whole number of 64 bits with a sign. -/
def int64? : Json → Option Int := intBetween? (-Int.pow 2 63) (Int.pow 2 63 - 1)

/-- A whole number of 64 bits without a sign. -/
def nat64? (j : Json) : Option Nat := (intBetween? 0 (Int.pow 2 64 - 1) j).map Int.toNat

/-- A whole number of 32 bits without a sign. -/
def nat32? (j : Json) : Option Nat := (intBetween? 0 (Int.pow 2 32 - 1) j).map Int.toNat

def listOf? {β : Type} (read : Json → Option β) : Json → Option (List β)
  | array items => items.mapM read
  | _ => none

/-- An array of exactly two items. -/
def pair? {β γ : Type} (first : Json → Option β) (second : Json → Option γ) :
    Json → Option (β × γ)
  | array [a, b] => do return (← first a, ← second b)
  | _ => none

def ofOption {β : Type} (write : β → Json) : Option β → Json
  | none => null
  | some b => write b

/-! ## Enumerations -/

/-- A choice without data, written as its name. An object whose only field has that name and the
value `null` means the same. -/
def choice? {β : Type} (name : β → String) (all : List β) : Json → Option β
  | text (some s) => all.find? (name · == s)
  | object [(some s, null)] => all.find? (name · == s)
  | _ => none

/-! ## Records -/

/-- The fields of a record that were given. -/
structure Record where
  fields : List (String × Json)
  /-- Whether they were given by position, where an earlier field can only be left out together with
  all later ones. -/
  positional : Bool

/-- The given fields with known names; a name that is no text is refused, and so is a repeated known
name. -/
def knownFields? (names : List String) : List (Option String × Json) →
    Option (List (String × Json))
  | [] => some []
  | (none, _) :: _ => none
  | (some name, value) :: rest => do
    let fields ← knownFields? names rest
    if names.contains name then
      if (fields.lookup name).isSome then none else return (name, value) :: fields
    else return fields

/-- The fields of a record with these names, in declared order. -/
def record? (names : List String) : Json → Option Record
  | object fields => (knownFields? names fields).map (⟨·, false⟩)
  | array items => if items.length ≤ names.length then some ⟨names.zip items, true⟩ else none
  | _ => none

namespace Record

variable {β : Type}

/-- A field that has to be given. -/
def required (r : Record) (name : String) (read : Json → Option β) : Option β :=
  (r.fields.lookup name).bind read

/-- A field that has the value `initial` when it is not given. -/
def withDefault (r : Record) (name : String) (initial : β) (read : Json → Option β) : Option β :=
  match r.fields.lookup name with
  | none => some initial
  | some j => read j

/-- A field whose value may be `null`, which also stands for one that is not given by name. -/
def optional (r : Record) (name : String) (read : Json → Option β) : Option (Option β) :=
  match r.fields.lookup name with
  | none => if r.positional then none else some none
  | some null => some none
  | some j => (read j).map some

end Record

end Json

end MarketEngine
