import MarketEngine.Error
import MarketEngine.Table
import MarketEngine.Market.Quote
/-!
# Portfolio

Balances by currency. `Portfolio.applyFill` moves the money of one fill, or refuses and moves none.
-/

namespace MarketEngine

/-- The balance of every currency that has one. -/
structure Portfolio (α : Type) where
  balances : Table Currency α
  deriving Repr

namespace Portfolio

variable {α : Type} [Amount α]

/-- The balance of a currency; one without an entry has none. -/
def balance (p : Portfolio α) (c : Currency) : α := (p.balances.get? c).getD Amount.zero

def setBalance (p : Portfolio α) (c : Currency) (x : α) : Portfolio α :=
  { p with balances := p.balances.put c x }

/-- Moves the money of a fill: on a buy the value and the fee leave the quote currency and the
quantity enters the base currency; on a sell the quantity leaves the base currency and the value
less the fee enters the quote currency. Nothing moves when the leaving amount is not there. -/
def applyFill (p : Portfolio α) (symbol : Symbol) (side : Side) (price quantity fee : α) :
    Except (EngineError α) (Portfolio α) :=
  let (base, quote) := symbol.currencies
  let value := price * quantity
  match side with
  | .buy =>
    let required := value + fee
    if p.balance quote < required then
      .error (.insufficientFunds quote required (p.balance quote))
    else
      let p := p.setBalance quote (p.balance quote - required)
      .ok (p.setBalance base (p.balance base + quantity))
  | .sell =>
    if p.balance base < quantity then
      .error (.insufficientFunds base quantity (p.balance base))
    else
      let p := p.setBalance base (p.balance base - quantity)
      .ok (p.setBalance quote (p.balance quote + (value - fee)))

omit [Amount α] in
/-- Takes over the free amounts that the exchange reports. -/
def sync (p : Portfolio α) (reported : List (AssetBalance α)) : Portfolio α :=
  reported.foldl (fun p b => { p with balances := p.balances.put b.asset b.free }) p

end Portfolio

end MarketEngine
