import CrashSearch.Decimal.Layout
import CrashSearch.Session
import CrashSearch.Toml.Document

/-!
# Reading settings

Settings are a TOML document. What is missing has its usual value, and what is not known is
passed over.

## Main definitions

* `Session.ofText?`: the settings of a text.
* `SettingsError.message`: the wording of what is wrong with them.
-/

namespace CrashSearch

/-- Why settings were not read. -/
inductive SettingsError where
  /-- The text is no TOML, or does not have the form of settings. -/
  | form
  /-- The share of the cores is not more than nothing and at most all. -/
  | fraction (value : Float)

/-- The wording of an error. -/
def SettingsError.message : SettingsError → String
  | form => "the text has not the form of settings"
  | fraction value => "worker_fraction must be in (0, 1], got " ++ Layout.plain.render value

namespace Toml.Item

def asText : Item → Option String
  | .string s => some s
  | _ => none

def asTexts : Item → Option (List String)
  | .array items => items.mapM asText
  | _ => none

/-- A number; an integer is taken as the nearest floating-point number. -/
def asFloat : Item → Option Float
  | .float x => some x
  | .integer n => some (if n < 0 then -Float.ofNat n.natAbs else Float.ofNat n.natAbs)
  | _ => none

end Toml.Item

namespace Session

/-- The value of a key, or the usual one if it is missing. -/
def entry {α : Type} (entries : Toml.Entries) (key : String) (read : Toml.Item → Option α)
    (usual : α) : Option α :=
  match entries.lookup key with
  | some item => read item
  | none => some usual

/-- The settings that some entries give. -/
def ofEntries? (entries : Toml.Entries) : Option Session := do
  return {
    libraryPrefixes := ← entry entries "library_prefixes" Toml.Item.asTexts default.libraryPrefixes
    instrumentationMarker :=
      ← entry entries "instrumentation_marker" Toml.Item.asText default.instrumentationMarker
    reflectionMarkers :=
      ← entry entries "reflection_markers" Toml.Item.asTexts default.reflectionMarkers
    workerFraction := ← entry entries "worker_fraction" Toml.Item.asFloat default.workerFraction
    logLevel := ← entry entries "log_level" Toml.Item.asText default.logLevel }

/-- The settings of a text. -/
def ofText? (text : String) : Except SettingsError Session :=
  match Toml.Document.ofText? text >>= ofEntries? with
  | none => .error .form
  | some s =>
    if validFraction s.workerFraction then .ok s else .error (.fraction s.workerFraction)

end Session

end CrashSearch
