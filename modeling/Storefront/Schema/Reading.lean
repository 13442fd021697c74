import Storefront.Schema.Error
import Storefront.Schema.Section
import Storefront.Text.Blank

/-!
Reading of schemas from decoded data. Members are read in a fixed order, so that of several faults
always the same one is told.
-/

namespace Storefront

namespace Schema

def fail {α : Type} (fault : Fault) : Except Error α := .error (.malformed fault)

/-- The trimmed text of a value, unless it is null or blank. -/
def text? : Value → Option String
  | .null => none
  | v => some (Text.trimmed v.text) |>.filter (· ≠ "")

/-- The texts of a list, or one text alone. -/
def texts? : Value → Option (List String)
  | .str s => some [s]
  | .list items => some (items.map Value.text)
  | _ => none

/-- The fields of an object; null counts as an empty one. -/
def fieldsOf (place : String) : Value → Except Error (Dict Value)
  | .null => .ok []
  | .map fields => .ok fields
  | v => fail (.notObject place v)

/-- A finite number, or none for null. -/
def number? (place : String) : Value → Except Error (Option Number)
  | .null => .ok none
  | .number (.int n) =>
    if Number.fitsBinary64 n then .ok (some (.int n)) else .error .integerTooLarge
  | .number (.float x) =>
    if x.isFinite then .ok (some (.float x)) else fail (.notFiniteNumber place (.number (.float x)))
  | v => fail (.notFiniteNumber place v)

def toInteger : Number → Int
  | .int n => n
  | .float x => x.truncate

/-- A finite number without its fractional part, or none for null. -/
def integer? (place : String) (v : Value) : Except Error (Option Int) :=
  return (← number? place v).map toInteger

end Schema

open Schema Value

namespace Choice

def ofFields (fields : Dict Value) : Choice where
  value := field fields "value"
  label := (field fields "label").textOrEmpty
  group := text? (field fields "group")

/-- The options in a list, without those that are no objects. -/
def ofValue : Value → List Choice
  | .list items => items.filterMap fun v => v.asMap?.map ofFields
  | _ => []

end Choice

namespace Setting

def Family.read (label : String) (fields : Dict Value) : Family → Except Schema.Error Kind
  | .checkbox => return .checkbox
  | .number => return .number (← number? s!"{label} placeholder" (field fields "placeholder"))
  | .range => do
    let low ← number? s!"{label} min" (field fields "min")
    let high ← number? s!"{label} max" (field fields "max")
    let step ← number? s!"{label} step" (field fields "step")
    return .range low high step (text? (field fields "unit"))
  | .text => return .text (text? (field fields "placeholder"))
  | .choice => return .choice (Choice.ofValue (field fields "options"))
  | .color => return .color
  | .font => return .font
  | .resource => return .resource
  | .resourceList => return .resourceList (← integer? s!"{label} limit" (field fields "limit"))
  | .display => return .display (field fields "content").textOrEmpty
  | .unknown => return .unknown

def ofValue (place : String) : Value → Except Schema.Error Setting
  | .map fields => match field fields "type" with
    | .str type =>
      if type = "" then fail (.settingWithoutType place)
      else do
        let family := Family.ofType type
        let kind ← family.read s!"{place} ({type})" fields
        return {
          type
          id := if family = .display then none else text? (field fields "id")
          label := (field fields "label").textOrEmpty
          info := text? (field fields "info")
          declared := Dict.get? fields "default"
          kind }
    | _ => fail (.settingWithoutType place)
  | _ => fail (.settingNotObject place)

/-- The settings in a list, of which the first has the number `position`. -/
def listOfValues (place : String) (position : Nat) :
    List Value → Except Schema.Error (List Setting)
  | [] => .ok []
  | v :: vs => do
    let s ← ofValue s!"{place} setting #{position}" v
    return s :: (← listOfValues place (position + 1) vs)

/-- The settings declared at a place; null counts as none. -/
def listOfValue (place : String) : Value → Except Schema.Error (List Setting)
  | .null => .ok []
  | .list items => listOfValues place 0 items
  | _ => fail (.settingsNotList place)

end Setting

namespace BlockDefinition

def ofValue (position : Nat) : Value → Except Schema.Error BlockDefinition
  | .map fields =>
    if (field fields "type").isFilled then do
      let type := (field fields "type").text
      let limit ← integer? s!"block '{type}' limit" (field fields "limit")
      let settings ← Setting.listOfValue s!"block '{type}'" (field fields "settings")
      return { type, name := (field fields "name").textOrEmpty, limit, settings }
    else fail (.blockWithoutType position)
  | _ => fail (.blockWithoutType position)

def listOfValues (position : Nat) : List Value → Except Schema.Error (List BlockDefinition)
  | [] => .ok []
  | v :: vs => do
    let b ← ofValue position v
    return b :: (← listOfValues (position + 1) vs)

def listOfValue : Value → Except Schema.Error (List BlockDefinition)
  | .null => .ok []
  | .list items => listOfValues 0 items
  | _ => fail .blocksNotList

end BlockDefinition

namespace Preset

/-- The blocks of a preset; entries without a type are passed over. -/
def blocksOfValues (name : String) : List Value → Except Schema.Error (List PresetBlock)
  | [] => .ok []
  | .map fields :: vs =>
    if (field fields "type").isFilled then do
      let settings ← fieldsOf s!"preset '{name}' block settings" (field fields "settings")
      return { type := (field fields "type").text, settings } :: (← blocksOfValues name vs)
    else blocksOfValues name vs
  | _ :: vs => blocksOfValues name vs

def blocksOfValue (name : String) (v : Value) : Except Schema.Error (List PresetBlock) :=
  if v.isFilled then
    match v with
    | .list items => blocksOfValues name items
    | _ => fail (.presetBlocksNotList name)
  else .ok []

def ofFields (fields : Dict Value) : Except Schema.Error Preset := do
  let name := (field fields "name").textOrEmpty
  let blocks ← blocksOfValue name (field fields "blocks")
  let settings ← fieldsOf s!"preset '{name}' settings" (field fields "settings")
  return { name, settings, blocks }

/-- The presets in a list, without the entries that are no objects. -/
def listOfValue : Value → Except Schema.Error (List Preset)
  | .null => .ok []
  | .list items => (items.filterMap Value.asMap?).mapM ofFields
  | _ => fail .presetsNotList

end Preset

def Restriction.ofValue (name : String) : Value → Except Schema.Error (Option Restriction)
  | .null => .ok none
  | .map fields => .ok (some {
      templates := texts? (field fields "templates")
      groups := texts? (field fields "groups") })
  | _ => fail (.restrictionNotObject name)

/-- The schema that decoded data describes. -/
def SectionSchema.ofValue : Value → Except Schema.Error SectionSchema
  | .map fields => do
    let settings ← Setting.listOfValue "schema" (field fields "settings")
    let blocks ← BlockDefinition.listOfValue (field fields "blocks")
    let presets ← Preset.listOfValue (field fields "presets")
    let limit ← integer? "limit" (field fields "limit")
    let maxBlocks ← integer? "max_blocks" (field fields "max_blocks")
    let enabledOn ← Restriction.ofValue "enabled_on" (field fields "enabled_on")
    let disabledOn ← Restriction.ofValue "disabled_on" (field fields "disabled_on")
    let locales ← fieldsOf "locales" (field fields "locales")
    return {
      name := (field fields "name").textOrEmpty
      settings, blocks, presets
      tag := text? (field fields "tag")
      className := text? (field fields "class")
      limit, maxBlocks, enabledOn, disabledOn, locales
      raw := fields }
  | _ => fail .payloadNotObject

end Storefront
