import Storefront.Text.Order
import Storefront.Text.Search
import Storefront.Theme

/-!
The section files of a theme, as the editor lists them.
-/

namespace Storefront.Theme

def isSectionName (name : String) : Bool := Text.endsWith name.toList sectionEnding.toList

/-- The type of the section file of a name. -/
def typeOfName (name : String) : String :=
  .ofList (Text.dropEnding sectionEnding.toList name.toList)

/-- The types of all section files, sorted. -/
def sectionTypes (theme : Theme) (t : FileTree) : Except Error (List String) := do
  let names ← (t.filesIn theme.sectionsDirectory isSectionName).mapError .file
  return Text.sorted (names.map typeOfName)

/-- A section file as the editor lists it. -/
structure SectionInfo where
  type : String
  name : String
  schema : Option SectionSchema

namespace SectionInfo

def ofSchema (type : String) (schema : Option SectionSchema) : SectionInfo where
  type := type
  name := match schema with
    | some schema => if schema.name = "" then type else schema.name
    | none => type
  schema := schema

def presets (s : SectionInfo) : List Preset := (s.schema.map (·.presets)).getD []

def hasBlocks (s : SectionInfo) : Bool := (s.schema.map (!·.blocks.isEmpty)).getD false

def maxBlocks (s : SectionInfo) : Option Int := s.schema.bind (·.maxBlocks)

def blockTypes (s : SectionInfo) : List String := (s.schema.map (·.blockTypes)).getD []

end SectionInfo

/-- All section files, by type. -/
def catalog (theme : Theme) (t : FileTree) : Session (List SectionInfo) := do
  let types ← .lift (.ofExcept (theme.sectionTypes t))
  types.mapM fun type => return .ofSchema type (← theme.schemaFor t type)

end Storefront.Theme
