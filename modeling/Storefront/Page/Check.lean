import Storefront.Page
import Storefront.Schema.Issue

/-!
Issues of composed sections: those of the schema, of the section's values, of the values of its
blocks, and of the number of its blocks.
-/

namespace Storefront.SectionInstance

/-- The issues of a block's values, where the schema declares its type. -/
def blockIssues (schema : SectionSchema) (b : BlockInstance) : List Issue :=
  match schema.findBlock? b.type with
  | none => []
  | some definition => (Setting.issues b.settings definition.settings).map fun i =>
    { i with subject := s!"{b.id}.{i.subject}" }

/-- The issue of too many blocks in all. -/
def totalIssues (schema : SectionSchema) (blocks : List BlockInstance) : List Issue :=
  match schema.maxBlocks with
  | some limit =>
    if limit < blocks.length then [⟨"blocks", .tooManyBlocks blocks.length limit⟩] else []
  | none => []

/-- The issue of too many blocks of a definition's type. -/
def limitIssue? (blocks : List BlockInstance) (definition : BlockDefinition) : Option Issue :=
  let count := blocks.countP (·.type = definition.type)
  match definition.limit with
  | some limit =>
    if limit < count then some ⟨"blocks", .tooManyOfType definition.type count limit⟩ else none
  | none => none

/-- All issues of a section; without a schema there are none. -/
def issues (s : SectionInstance) : List Issue :=
  match s.schema with
  | none => []
  | some schema =>
    schema.issues ++ Setting.issues s.settings schema.settings ++
    s.blocks.flatMap (blockIssues schema) ++ totalIssues schema s.blocks ++
    schema.blocks.filterMap (limitIssue? s.blocks)

end Storefront.SectionInstance
