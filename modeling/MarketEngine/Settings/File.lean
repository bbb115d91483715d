import MarketEngine.Files.Disk
import MarketEngine.Files.Path
import MarketEngine.Json.Reader
import MarketEngine.Json.Writer
import MarketEngine.Settings.Codec
/-!
# Settings files

Settings are loaded from a JSON file and saved to one: first whole to a temporary file beside it,
which is then renamed, so that no reader ever meets half a file.
-/

namespace MarketEngine

/-- What failed in loading or saving settings, and for which path. -/
inductive SettingsFileError where
  | unreadable (path : String)
  | malformed (path : String)
  | unwritable (path : String)
  | notRenamed (path : String)
  deriving Repr, DecidableEq

def SettingsFileError.message : SettingsFileError → String
  | .unreadable path => "failed to read engine config from " ++ path
  | .malformed path => "failed to parse engine config from " ++ path
  | .unwritable path => "failed to write tmp config to " ++ path
  | .notRenamed path => "failed to rename tmp config to " ++ path

/-- The path of the temporary file for a file of settings. -/
def temporaryPath (path : String) : String := Path.withExtension path "json.tmp"

namespace Settings

variable {α : Type} [JsonAmount α]

/-- The text of a file of settings. -/
def fileText (s : Settings α) : String := s.toJson.render .indented

/-- Loads settings. -/
def load [DefaultAmounts α] (d : Disk) (path : String) : Except SettingsFileError (Settings α) :=
  match d.read? path with
  | none => .error (.unreadable path)
  | some text =>
    match (Json.parse? text).bind ofJson? with
    | none => .error (.malformed path)
    | some s => .ok s

/-- Saves settings. -/
def save (s : Settings α) (d : Disk) (path : String) : Except SettingsFileError Disk :=
  match d.write? (temporaryPath path) s.fileText with
  | none => .error (.unwritable (temporaryPath path))
  | some d =>
    match d.rename? (temporaryPath path) path with
    | none => .error (.notRenamed path)
    | some d => .ok d

end Settings

end MarketEngine
