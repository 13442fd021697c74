import Storefront.Page

/-!
Composed pages as plain data. Of a section's schema only the name is kept.
-/

namespace Storefront

namespace BlockInstance

def payload (b : BlockInstance) : Value :=
  .map [("id", .str b.id), ("type", .str b.type), ("settings", .map b.settings),
    ("disabled", .bool b.disabled)]

end BlockInstance

namespace SectionInstance

def schemaName (s : SectionInstance) : Value :=
  match s.schema with
  | some schema => .str schema.name
  | none => .null

def payload (s : SectionInstance) : Value :=
  .map [("id", .str s.id), ("type", .str s.type), ("name", s.schemaName),
    ("region", .str s.region.name), ("index", .int s.index), ("disabled", .bool s.disabled),
    ("settings", .map s.settings), ("block_order", .list (s.blockOrder.map .str)),
    ("blocks", .list (s.blocks.map BlockInstance.payload))]

end SectionInstance

def Page.payload (page : Page) : Value :=
  .map [("layout", .str page.layout),
    ("sections", .list (page.sections.map SectionInstance.payload))]

end Storefront
