import Storefront.Document
import Storefront.Schema.Default

/-!
Composed pages. The sections of the header group, the template and the footer group stand in this
order under one index. Each has the settings of its schema's defaults with the authored values
assigned over them, and so has each of its blocks.
-/

namespace Storefront

inductive Region where
  | header
  | template
  | footer
  deriving DecidableEq, Repr

namespace Region

def name : Region → String
  | .header => "header"
  | .template => "template"
  | .footer => "footer"

def all : List Region := [.header, .template, .footer]

end Region

structure BlockInstance where
  id : String
  type : String
  settings : Dict Value
  disabled : Bool

structure SectionInstance where
  id : String
  type : String
  /-- The schema that the settings were resolved against, if the section has one. -/
  schema : Option SectionSchema
  settings : Dict Value
  blocks : List BlockInstance
  /-- The authored order of the blocks, with the ids that name none. -/
  blockOrder : List String
  disabled : Bool
  /-- The place on the whole page, from 0. -/
  index : Nat
  region : Region

structure Page where
  layout : String
  sections : List SectionInstance

/-- A section of a document at its place on the page. -/
structure Placement where
  region : Region
  id : String
  stub : SectionStub
  index : Nat

namespace Placement

/-- The sections of a document in its order; ids that name none are passed over. -/
def ofDocument (region : Region) (sections : Dict SectionStub) (order : List String) :
    List (Region × String × SectionStub) :=
  order.filterMap fun id => (sections.get? id).map (region, id, ·)

def ofGroup (region : Region) : Option SectionGroup → List (Region × String × SectionStub)
  | some group => ofDocument region group.sections group.order
  | none => []

/-- The sections of all documents with their indexes. -/
def all (template : Template) (header footer : Option SectionGroup) : List Placement :=
  let stubs := ofGroup .header header ++
    ofDocument .template template.sections template.order ++ ofGroup .footer footer
  stubs.zipIdx.map fun ((region, id, stub), index) => { region, id, stub, index }

end Placement

namespace BlockStub

/-- The block with the settings of its type, where the schema declares the type. -/
def resolve (schema : Option SectionSchema) (id : String) (b : BlockStub) : BlockInstance :=
  let defaults := match schema.bind (·.findBlock? b.type) with
    | some definition => definition.defaults
    | none => []
  { id, type := b.type, settings := Dict.merge defaults b.settings, disabled := b.disabled }

end BlockStub

namespace SectionStub

/-- The blocks in their order; ids that name none are passed over. -/
def resolveBlocks (schema : Option SectionSchema) (s : SectionStub) : List BlockInstance :=
  s.blockOrder.filterMap fun id => (s.blocks.get? id).map (BlockStub.resolve schema id)

def resolveSettings (schema : Option SectionSchema) (s : SectionStub) : Dict Value :=
  let defaults := match schema with
    | some schema => Setting.defaults schema.settings
    | none => []
  Dict.merge defaults s.settings

end SectionStub

def Placement.resolve (p : Placement) (schema : Option SectionSchema) : SectionInstance where
  id := p.id
  type := p.stub.type
  schema := schema
  settings := p.stub.resolveSettings schema
  blocks := p.stub.resolveBlocks schema
  blockOrder := p.stub.blockOrder
  disabled := p.stub.disabled
  index := p.index
  region := p.region

/-- Why there is no page to compose or no section to give. -/
inductive Page.Error where
  | templateRequired
  | templateNotFound (name directory : String)
  | unknownSection (id : String)
  deriving DecidableEq, Repr

def Page.Error.message : Page.Error → String
  | .templateRequired => "A template document is required to compose a page."
  | .templateNotFound name directory => s!"Template '{name}' not found in {directory}."
  | .unknownSection id => s!"Unknown section '{id}'."

namespace Page

/-- The page of a template and two groups, with the schemas that `lookup` gives for the types of
its sections, asked for in page order. -/
def compose {m : Type → Type} [Monad m] (lookup : String → m (Option SectionSchema))
    (template : Template) (header footer : Option SectionGroup) : m Page := do
  let sections ← (Placement.all template header footer).mapM fun p => do
    return p.resolve (← lookup p.stub.type)
  return { layout := template.layout.name, sections }

/-- The page, where there is a template. -/
def composeRequired (lookup : String → Option SectionSchema) (template : Option Template)
    (header footer : Option SectionGroup) : Except Page.Error Page :=
  match template with
  | none => .error .templateRequired
  | some template => .ok (Id.run (compose (m := Id) lookup template header footer))

/-- The sections of the region, in page order. -/
def inRegion (page : Page) (region : Region) : List SectionInstance :=
  page.sections.filter (·.region = region)

/-- The first section of the id, in the region if one is given. -/
def find? (page : Page) (id : String) (region : Option Region) : Option SectionInstance :=
  page.sections.find? fun s => s.id = id && (region.isNone || region = some s.region)

def get (page : Page) (id : String) (region : Option Region) : Except Page.Error SectionInstance :=
  match page.find? id region with
  | some s => .ok s
  | none => .error (.unknownSection id)

end Page

end Storefront
