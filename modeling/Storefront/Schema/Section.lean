import Storefront.Schema.Setting

/-!
Section schemas: the settings, block types and presets that a section file declares for the editor.
-/

namespace Storefront

/-- A block type that a section accepts. -/
structure BlockDefinition where
  type : String
  name : String
  limit : Option Int
  settings : List Setting

structure PresetBlock where
  type : String
  settings : Dict Value

/-- A starter configuration that is offered when a section is added. -/
structure Preset where
  name : String
  settings : Dict Value
  blocks : List PresetBlock

/-- Names of templates and of section groups; `none` says nothing about them. -/
structure Restriction where
  templates : Option (List String)
  groups : Option (List String)

structure SectionSchema where
  name : String
  settings : List Setting
  blocks : List BlockDefinition
  presets : List Preset
  tag : Option String
  className : Option String
  limit : Option Int
  maxBlocks : Option Int
  enabledOn : Option Restriction
  disabledOn : Option Restriction
  locales : Dict Value
  /-- The decoded payload that the schema was read from. -/
  raw : Dict Value

namespace SectionSchema

/-- The ids of the settings that have one, in order. -/
def settingIds (s : SectionSchema) : List String := s.settings.filterMap Setting.id?

def blockTypes (s : SectionSchema) : List String := s.blocks.map (·.type)

/-- The first block definition of the type. -/
def findBlock? (s : SectionSchema) (type : String) : Option BlockDefinition :=
  s.blocks.find? (·.type = type)

end SectionSchema

end Storefront
