import Mathlib.Data.List.Basic
import Storefront.Proofs.Page.Composition

/-!
A composed page as documents: each section is a stub with the settings that it has, and so is each
of its blocks. Composing these documents against the same schemas gives the page again, since
settings that the defaults have been merged into keep every value and every place when that is done
once more.
-/

namespace Storefront

/-! ### A page as documents -/

def BlockInstance.stub (b : BlockInstance) : BlockStub where
  type := b.type
  settings := b.settings
  disabled := b.disabled

def SectionInstance.stub (s : SectionInstance) : SectionStub where
  type := s.type
  settings := s.settings
  blocks := Dict.ofList (s.blocks.map fun b => (b.id, b.stub))
  blockOrder := s.blockOrder
  disabled := s.disabled

namespace Page

/-- The sections of a region by id. -/
def stubs (page : Page) (region : Region) : Dict SectionStub :=
  Dict.ofList ((page.inRegion region).map fun s => (s.id, s.stub))

def ids (page : Page) (region : Region) : List String := (page.inRegion region).map (·.id)

def group (page : Page) (region : Region) : SectionGroup where
  kind := region.name
  sections := page.stubs region
  order := page.ids region
  name := region.name

/-- The documents that place the sections of a page as they are, in a layout. -/
def documents (page : Page) (layout : Layout) : Documents where
  template :=
    { sections := page.stubs .template, order := page.ids .template, layout, wrapper := none }
  header := some (page.group .header)
  footer := some (page.group .footer)

end Page

/-! ### Stubs with resolved settings -/

/-- The stub with its settings and those of its blocks resolved. Ids that name no block stay in the
order. -/
def SectionStub.settled (schema : Option SectionSchema) (s : SectionStub) : SectionStub where
  type := s.type
  settings := s.resolveSettings schema
  blocks := Dict.ofList ((s.resolveBlocks schema).map fun b => (b.id, b.stub))
  blockOrder := s.blockOrder
  disabled := s.disabled

theorem Setting.merge_defaults_merge (declared : List Setting) (authored : Dict Value) :
    Dict.merge (defaults declared) (Dict.merge (defaults declared) authored) =
      Dict.merge (defaults declared) authored :=
  Dict.merge_merge_self (Dict.nodup_keys_ofList _) authored

section settled

variable (schema : Option SectionSchema)

theorem BlockStub.resolve_stub_resolve (id : String) (b : BlockStub) :
    (b.resolve schema id).stub.resolve schema id = b.resolve schema id := by
  cases h : schema.bind (·.findBlock? b.type) with
  | none =>
    simp only [resolve, BlockInstance.stub, h]
    rw [Dict.merge_merge_self (d := []) List.nodup_nil]
  | some definition =>
    simp only [resolve, BlockInstance.stub, h, BlockDefinition.defaults]
    rw [Setting.merge_defaults_merge]

namespace SectionStub

variable (s : SectionStub)

theorem resolveSettings_settled :
    (s.settled schema).resolveSettings schema = s.resolveSettings schema := by
  cases schema with
  | none => exact Dict.merge_merge_self (d := []) List.nodup_nil s.settings
  | some schema => exact Setting.merge_defaults_merge schema.settings s.settings

/-- A settled stub has the blocks that are in its order. -/
theorem get?_blocks_settled (id : String) : (s.settled schema).blocks.get? id =
    if id ∈ s.blockOrder then (s.blocks.get? id).map fun b => (b.resolve schema id).stub
    else none := by
  have hentries : ((s.resolveBlocks schema).map fun b => (b.id, b.stub)) =
      s.blockOrder.filterMap fun id =>
        ((s.blocks.get? id).map fun b => (b.resolve schema id).stub).map (id, ·) := by
    rw [resolveBlocks, List.map_filterMap]
    refine List.filterMap_congr fun id _ => ?_
    rw [Option.map_map, Option.map_map]
    rfl
  rw [settled, hentries, Dict.get?_ofList_filterMap]

theorem resolveBlocks_settled :
    (s.settled schema).resolveBlocks schema = s.resolveBlocks schema := by
  rw [resolveBlocks, resolveBlocks]
  refine List.filterMap_congr fun id (hid : id ∈ s.blockOrder) => ?_
  rw [get?_blocks_settled, if_pos hid, Option.map_map]
  exact Option.map_congr fun b _ => b.resolve_stub_resolve schema id

end SectionStub

theorem Placement.resolve_settled (region : Region) (id : String) (stub : SectionStub)
    (index : Nat) : resolve { region, id, stub := stub.settled schema, index } schema =
      resolve { region, id, stub, index } schema := by
  rw [resolve, resolve]
  simp only [stub.resolveSettings_settled schema, stub.resolveBlocks_settled schema]
  rfl

end settled

/-! ### The page again -/

namespace Placement

variable (lookup : String → Option SectionSchema)

/-- A placed section with its stub settled. -/
def settle (q : Region × String × SectionStub) : Region × String × SectionStub :=
  (q.1, q.2.1, q.2.2.settled (lookup q.2.2.type))

theorem instances_settle (start : Nat) (placed : List (Region × String × SectionStub)) :
    instances lookup start (placed.map (settle lookup)) = instances lookup start placed := by
  induction placed generalizing start with
  | nil => rfl
  | cons q placed ih =>
    obtain ⟨region, id, stub⟩ := q
    exact congrArg₂ List.cons (resolve_settled (lookup stub.type) region id stub start)
      (ih (start + 1))

theorem map_stub_instances (start : Nat) (placed : List (Region × String × SectionStub)) :
    (instances lookup start placed).map (fun s => (s.id, s.stub)) =
      placed.map fun q => (settle lookup q).2 := by
  induction placed generalizing start with
  | nil => rfl
  | cons q placed ih => exact congrArg (List.cons _) (ih (start + 1))

end Placement

namespace Documents

variable (docs : Documents) (lookup : String → Option SectionSchema)

/-- As documents the page has just the sections that are ordered and defined, settled. -/
theorem get?_stubs_page (region : Region) (id : String) :
    ((docs.page lookup).stubs region).get? id = if id ∈ docs.order region then
      ((docs.sections region).get? id).map fun stub => stub.settled (lookup stub.type)
    else none := by
  obtain ⟨start, hregion⟩ := exists_inRegion_page docs lookup region
  have hentries : (docs.placed region).map (fun q => (Placement.settle lookup q).2) =
      (docs.order region).filterMap fun id =>
        (((docs.sections region).get? id).map fun stub => stub.settled (lookup stub.type)).map
          (id, ·) := by
    rw [placed, Placement.ofDocument, List.map_filterMap]
    refine List.filterMap_congr fun id _ => ?_
    rw [Option.map_map, Option.map_map]
    rfl
  rw [Page.stubs, hregion, instances, Placement.map_stub_instances, hentries,
    Dict.get?_ofList_filterMap]

theorem ofDocument_page (region : Region) :
    Placement.ofDocument region ((docs.page lookup).stubs region) ((docs.page lookup).ids region) =
      (docs.placed region).map (Placement.settle lookup) := by
  have hids : (docs.page lookup).ids region =
      (docs.order region).filter fun id => (docs.sections region).contains id :=
    ids_inRegion_page docs lookup region
  rw [hids, Placement.ofDocument, List.filterMap_filter, placed, Placement.ofDocument,
    List.map_filterMap]
  refine List.filterMap_congr fun id hid => ?_
  rw [get?_stubs_page, if_pos hid]
  cases hstub : (docs.sections region).get? id with
  | none => simp [Dict.contains, hstub]
  | some stub =>
    simp only [Dict.contains, hstub, Option.isSome_some, if_true, Option.map_some]
    rfl

theorem page_documents_page :
    ((docs.page lookup).documents docs.template.layout).page lookup = docs.page lookup := by
  have hplaced (region : Region) :
      ((docs.page lookup).documents docs.template.layout).placed region =
        (docs.placed region).map (Placement.settle lookup) := by
    rw [← ofDocument_page docs lookup]
    cases region <;> rfl
  have hsections : (((docs.page lookup).documents docs.template.layout).page lookup).sections =
      (docs.page lookup).sections := by
    rw [sections_page, sections_page, hplaced, hplaced, hplaced, ← List.map_append,
      ← List.map_append, Placement.instances_settle]
  exact congrArg (Page.mk docs.template.layout.name) hsections

/-- The documents of a composed page give the same page, with all settings in the same order. -/
theorem exists_page_recomposed :
    ∃ page, Page.composeRequired lookup (some docs.template) docs.header docs.footer = .ok page ∧
      let again := page.documents docs.template.layout
      Page.composeRequired lookup (some again.template) again.header again.footer = .ok page := by
  refine ⟨docs.page lookup, composeRequired_eq, ?_⟩
  exact composeRequired_eq.trans (congrArg Except.ok (page_documents_page docs lookup))

end Documents

end Storefront
