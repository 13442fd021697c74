import Storefront.Json.Error
import Storefront.Value

/-!
What can be wrong with a schema.
-/

namespace Storefront.Schema

/-- Why a schema is malformed. A `place` names the setting or the list in words. -/
inductive Fault where
  | invalidJson (e : Json.Error)
  | payloadNotObject
  | settingsNotList (place : String)
  | settingNotObject (place : String)
  | settingWithoutType (place : String)
  | notFiniteNumber (place : String) (got : Value)
  | notObject (place : String) (got : Value)
  | restrictionNotObject (field : String)
  | blocksNotList
  | blockWithoutType (position : Nat)
  | presetsNotList
  | presetBlocksNotList (preset : String)

def Fault.message : Fault → String
  | .invalidJson e => s!"Schema JSON is invalid: {e.message}"
  | .payloadNotObject => "Schema payload must be a JSON object."
  | .settingsNotList place => s!"'settings' in {place} must be a list."
  | .settingNotObject place => s!"{place} must be an object."
  | .settingWithoutType place => s!"{place} is missing 'type'."
  | .notFiniteNumber place got => s!"{place} must be a finite number, got {got.literal}."
  | .notObject place got => s!"'{place}' must be an object, got {got.literal}."
  | .restrictionNotObject field => s!"'{field}' must be an object."
  | .blocksNotList => "'blocks' must be a list."
  | .blockWithoutType position => s!"Block #{position} must be an object with a 'type'."
  | .presetsNotList => "'presets' must be a list."
  | .presetBlocksNotList preset => s!"'blocks' of preset '{preset}' must be a list."

/-- A malformed schema counts as absent where a section file is read; an integer beyond all
floating-point numbers, where a finite number is expected, does not and ends the reading. -/
inductive Error where
  | malformed (fault : Fault)
  | integerTooLarge

end Storefront.Schema
