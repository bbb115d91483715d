import MarketEngine.Codec.Quote
import MarketEngine.Evaluation.Note
/-!
# Notes and triggers as JSON
-/

namespace MarketEngine

open Json

variable {α : Type} [JsonAmount α]

namespace EvaluatorKind

def name : EvaluatorKind → String
  | technical => "Ta"
  | social => "Social"
  | realTime => "RealTime"
  | strategies => "Strategies"

def ofName? (s : String) : Option EvaluatorKind := all.find? (·.name == s)

def toJson (k : EvaluatorKind) : Json := ofString k.name

def ofJson? : Json → Option EvaluatorKind := choice? name all

end EvaluatorKind

namespace Note

/-- A value stands under the name `Value`. -/
def toJson : Note α → Json
  | value x => Json.record [("Value", ofAmount x)]
  | pending => ofString "Pending"

def ofJson? : Json → Option (Note α)
  | text (some "Pending") => some pending
  | object [(some "Pending", null)] => some pending
  | object [(some "Value", j)] => (amount? j).map value
  | _ => none

end Note

namespace Trigger

def toJson (t : Trigger) : Json :=
  Json.record [("source", ofString t.source), ("force_refresh", bool t.forceRefresh),
    ("finalize", bool t.finalize), ("interruption", bool t.interruption)]

def ofJson? (j : Json) : Option Trigger := do
  let r ← record? ["source", "force_refresh", "finalize", "interruption"] j
  return {
    source := ← r.required "source" string?
    forceRefresh := ← r.required "force_refresh" bool?
    finalize := ← r.required "finalize" bool?
    interruption := ← r.required "interruption" bool? }

end Trigger

namespace CandleUpdate

def toJson (u : CandleUpdate α) : Json :=
  Json.record [("time_frame", u.timeFrame.toJson), ("candle", u.candle.toJson)]

def ofJson? (j : Json) : Option (CandleUpdate α) := do
  let r ← record? ["time_frame", "candle"] j
  return {
    timeFrame := ← r.required "time_frame" TimeFrame.ofJson?
    candle := ← r.required "candle" Candle.ofJson? }

end CandleUpdate

end MarketEngine
