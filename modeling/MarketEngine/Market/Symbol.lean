import MarketEngine.Text.Blank
/-!
# Symbols

A symbol names a market as base and quote currency, such as `BTC/USDT`. The wildcard stands for
every symbol where messages are routed.
-/

namespace MarketEngine

abbrev Symbol := String

abbrev Currency := String

namespace Symbol

/-- The routing name of every symbol together. -/
def wildcard : Symbol := "*"

/-- The base and the quote currency: the texts before and after the first slash. A symbol without
a slash is all base, and its quote currency is the empty text. -/
def currencies (s : Symbol) : Currency × Currency :=
  match Text.splitFirst '/' s.toList with
  | some (base, quote) => (String.ofList base, String.ofList quote)
  | none => (s, "")

def base (s : Symbol) : Currency := (currencies s).1

def quote (s : Symbol) : Currency := (currencies s).2

end Symbol

end MarketEngine
