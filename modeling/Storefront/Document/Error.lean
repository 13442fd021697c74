import Storefront.Json.Error
import Storefront.Value

/-!
What can be wrong with a document.
-/

namespace Storefront.Document

/-- A `place` names a section or a block in words. -/
inductive Error where
  | invalidJson (source : String) (e : Json.Error)
  | templateNotObject
  | groupNotObject
  | unknownGroupKind (got : Value)
  | sectionsNotObject
  | orderNotList
  | blocksNotObject (place : String)
  | blockOrderNotList (place : String)
  | settingsNotObject (place : String)
  | disabledNotBool (place : String) (got : Value)
  | settingsDataNotObject
  | settingsSchemaNotList

def Error.message : Error → String
  | .invalidJson source e => s!"Failed to parse {source}: {e.message}"
  | .templateNotObject => "Template document must be a JSON object."
  | .groupNotObject => "Section group document must be a JSON object."
  | .unknownGroupKind got =>
    s!"Section group type {got.literal} is not one of header, footer, aside."
  | .sectionsNotObject => "'sections' must be an object keyed by section id."
  | .orderNotList => "'order' must be a list of ids."
  | .blocksNotObject place => s!"'blocks' of {place} must be an object."
  | .blockOrderNotList place => s!"'block_order' of {place} must be a list of ids."
  | .settingsNotObject place => s!"'settings' of {place} must be a JSON object."
  | .disabledNotBool place got =>
    s!"'disabled' of {place} must be true or false, got {got.literal}."
  | .settingsDataNotObject => "settings_data.json must contain a JSON object."
  | .settingsSchemaNotList => "settings_schema.json must contain a JSON array."

end Storefront.Document
