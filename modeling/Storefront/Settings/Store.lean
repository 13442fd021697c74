import Storefront.Outcome
import Storefront.Schema.Default

/-!
The settings that assets see: the defaults of the theme's settings schema with stored values
assigned over them.
-/

namespace Storefront.Settings

def presetsOf (data : Dict Value) : Dict Value :=
  match Value.field data "presets" with
  | .map presets => presets
  | _ => []

/-- The values of the preset `Default`, none where there is no such object. -/
def defaultPreset (presets : Dict Value) : Dict Value :=
  ((presets.get? "Default").bind Value.asMap?).getD []

/-- The stored values that apply: the current ones, or those of the preset that is current by name,
or those of the default preset. -/
def stored {ε : Type} (data : Dict Value) : Outcome ε (Dict Value) :=
  let presets := presetsOf data
  match Value.field data "current" with
  | .map values => pure values
  | .str name => match (presets.get? name).bind Value.asMap? with
    | some values => pure values
    | none => do
      Outcome.warn (.missingPreset name)
      return defaultPreset presets
  | _ => pure (defaultPreset presets)

/-- The settings for decoded settings data and a decoded settings schema, either of which may be
null. -/
def visible (data schema : Value) : Outcome Schema.Error (Dict Value) := do
  let base ← .ofExcept (themeDefaults schema)
  let values ← stored (data.asMap?.getD [])
  return Dict.merge base values

end Storefront.Settings
