import Storefront.Document
import Storefront.Document.Error
import Storefront.Json.Decode
import Storefront.Outcome
import Storefront.Schema.Reading

/-!
Reading of documents from decoded data. Sections and blocks without a type are dropped with a
warning; members of a wrong kind are errors.
-/

namespace Storefront

namespace Document

/-- The value in JSON text with comments. -/
def decode (source : String) (text : String) : Except Error Value :=
  (Json.decodeCommented text.toList).mapError (.invalidJson source)

def settingsOf (place : String) : Value → Except Error (Dict Value)
  | .null => .ok []
  | .map fields => .ok fields
  | _ => .error (.settingsNotObject place)

def flagOf (place : String) : Value → Except Error Bool
  | .null => .ok false
  | .bool b => .ok b
  | v => .error (.disabledNotBool place v)

/-- The ids in a list; null counts as none. -/
def idsOf (error : Error) : Value → Except Error (List String)
  | .null => .ok []
  | .list items => .ok (items.map Value.text)
  | _ => .error error

/-- The fields of an object that has a type, with the type. -/
def typed? : Value → Option (String × Dict Value)
  | .map fields =>
    let type := Value.field fields "type"
    if type.isFilled then some (type.text, fields) else none
  | _ => none

end Document

open Document

def BlockStub.ofFields (place type : String) (fields : Dict Value) : Except Error BlockStub := do
  let settings ← settingsOf place (Value.field fields "settings")
  let disabled ← flagOf place (Value.field fields "disabled")
  return { type, settings, disabled }

namespace SectionStub

/-- The blocks of a section, added to the ones before them. -/
def readBlocks (place : String) (blocks : Dict BlockStub) :
    List (String × Value) → Outcome Error (Dict BlockStub)
  | [] => pure blocks
  | (id, v) :: entries => match typed? v with
    | none => do
      Outcome.warn (.droppedBlock id)
      readBlocks place blocks entries
    | some (type, fields) => do
      let block ← .ofExcept (BlockStub.ofFields s!"block '{id}' of {place}" type fields)
      readBlocks place (blocks.insert id block) entries

/-- A section of the type. -/
def ofFields (type : String) (fields : Dict Value) : Outcome Error SectionStub := do
  let place := s!"section type '{type}'"
  let entries ← match Value.field fields "blocks" with
    | .map entries => pure entries
    | v => if v.isFilled then Outcome.fail (.blocksNotObject place) else pure []
  let blocks ← readBlocks place [] entries
  let settings ← .ofExcept (settingsOf place (Value.field fields "settings"))
  let blockOrder ← .ofExcept (idsOf (.blockOrderNotList place) (Value.field fields "block_order"))
  let disabled ← .ofExcept (flagOf place (Value.field fields "disabled"))
  return { type, settings, blocks, blockOrder, disabled }

/-- The sections of a document, added to the ones before them. -/
def readAll (sections : Dict SectionStub) :
    List (String × Value) → Outcome Error (Dict SectionStub)
  | [] => pure sections
  | (id, v) :: entries => match typed? v with
    | none => do
      Outcome.warn (.droppedSection id)
      readAll sections entries
    | some (type, fields) => do
      let stub ← ofFields type fields
      readAll (sections.insert id stub) entries

/-- The sections of a document by id; null counts as none. -/
def mapOfValue : Value → Outcome Error (Dict SectionStub)
  | .null => pure []
  | .map entries => readAll [] entries
  | _ => Outcome.fail .sectionsNotObject

end SectionStub

/-- The order in which sections are placed: the given ids, or all sections as they stand. -/
def Document.orderOf (sections : Dict SectionStub) : Value → Except Error (List String)
  | .null => .ok sections.keys
  | v => idsOf .orderNotList v

def Layout.ofValue : Value → Layout
  | .null => .unspecified
  | .bool false => .disabled
  | v => .named v.text

def Template.ofValue : Value → Outcome Error Template
  | .map fields => do
    let sections ← SectionStub.mapOfValue (Value.field fields "sections")
    let order ← .ofExcept (orderOf sections (Value.field fields "order"))
    return {
      sections, order
      layout := .ofValue (Value.field fields "layout")
      wrapper := Schema.text? (Value.field fields "wrapper") }
  | _ => Outcome.fail .templateNotObject

namespace SectionGroup

/-- The kind that the data declares if it is a known one, or else the fallback. -/
def kindOf (fallback : Option String) (declared : Value) : Except Error String :=
  let known := match declared with
    | .str kind => if kinds.contains kind then some kind else none
    | _ => none
  match known <|> fallback with
  | some kind => .ok kind
  | none => .error (.unknownGroupKind declared)

def ofValue (fallback : Option String) : Value → Outcome Error SectionGroup
  | .map fields => do
    let kind ← .ofExcept (kindOf fallback (Value.field fields "type"))
    let sections ← SectionStub.mapOfValue (Value.field fields "sections")
    let order ← .ofExcept (orderOf sections (Value.field fields "order"))
    let name := Value.field fields "name"
    return { kind, sections, order, name := if name.isFilled then name.text else kind }
  | _ => Outcome.fail .groupNotObject

end SectionGroup

end Storefront
