import Storefront.Value

/-!
Authored documents: page templates and section groups, with the sections and blocks they place.
-/

namespace Storefront

/-- A block as a document places it. -/
structure BlockStub where
  type : String
  settings : Dict Value
  disabled : Bool

/-- A section as a document places it. -/
structure SectionStub where
  type : String
  settings : Dict Value
  blocks : Dict BlockStub
  blockOrder : List String
  disabled : Bool

/-- The layout that a template asks for. -/
inductive Layout where
  | unspecified
  | disabled
  | named (name : String)
  deriving DecidableEq, Repr

/-- The name of the layout that renders the page. -/
def Layout.name : Layout → String
  | .unspecified => "theme"
  | .disabled => "none"
  | .named name => name

structure Template where
  sections : Dict SectionStub
  order : List String
  layout : Layout
  wrapper : Option String

/-- Sections that several pages share in one region. -/
structure SectionGroup where
  kind : String
  sections : Dict SectionStub
  order : List String
  name : String

namespace SectionGroup

/-- The kinds that a document may declare. -/
def kinds : List String := ["header", "footer", "aside"]

def empty (kind : String) : SectionGroup := { kind, sections := [], order := [], name := kind }

end SectionGroup

end Storefront
