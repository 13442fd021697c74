import Mathlib.Data.List.Forall2
import Storefront.Proofs.Page.Composition

/-!
What a schema can change on a page. Which sections and blocks stand on it, and where, is up to the
documents alone; the schema of a type shows in the settings of the sections of this type and nowhere
else.
-/

namespace Storefront

/-- Two blocks that are the same but for their settings. -/
structure BlockInstance.SameFrame (b b' : BlockInstance) : Prop where
  id : b.id = b'.id
  type : b.type = b'.type
  disabled : b.disabled = b'.disabled

/-- Two sections that are the same but for their schema and what is resolved against it. -/
structure SectionInstance.SameFrame (s s' : SectionInstance) : Prop where
  id : s.id = s'.id
  type : s.type = s'.type
  region : s.region = s'.region
  index : s.index = s'.index
  disabled : s.disabled = s'.disabled
  blockOrder : s.blockOrder = s'.blockOrder
  blocks : List.Forall₂ BlockInstance.SameFrame s.blocks s'.blocks

section schemas

variable (schema schema' : Option SectionSchema)

theorem BlockStub.sameFrame_resolve (id : String) (b : BlockStub) :
    (b.resolve schema id).SameFrame (b.resolve schema' id) where
  id := rfl
  type := rfl
  disabled := rfl

/-- What holds of each block under two schemas holds of the lists of blocks. -/
theorem SectionStub.rel_resolveBlocks {R : BlockInstance → BlockInstance → Prop}
    (hR : ∀ id (b : BlockStub), R (b.resolve schema id) (b.resolve schema' id))
    (stub : SectionStub) :
    List.Forall₂ R (stub.resolveBlocks schema) (stub.resolveBlocks schema') := by
  have hblock : ∀ id, Option.Rel R ((stub.blocks.get? id).map (BlockStub.resolve schema id))
      ((stub.blocks.get? id).map (BlockStub.resolve schema' id)) := by
    intro id
    cases stub.blocks.get? id with
    | none => exact .none
    | some block => exact .some (hR id block)
  refine List.rel_filterMap (R := Eq) (fun id id' heq => ?_) (List.forall₂_refl _)
  subst heq
  exact hblock id

theorem Placement.sameFrame_resolve (p : Placement) :
    (p.resolve schema).SameFrame (p.resolve schema') where
  id := rfl
  type := rfl
  region := rfl
  index := rfl
  disabled := rfl
  blockOrder := rfl
  blocks := p.stub.rel_resolveBlocks schema schema' (BlockStub.sameFrame_resolve schema schema')

end schemas

/-- Two sections that can differ in what comes from a schema, and only if they are of the type. -/
structure SectionInstance.SameBut (type : String) (s s' : SectionInstance) : Prop where
  frame : s.SameFrame s'
  other : s.type ≠ type → s = s'

/-- Two pages of one layout with sections that match one by one. -/
structure Page.SameBut (type : String) (page page' : Page) : Prop where
  layout : page.layout = page'.layout
  length : page.sections.length = page'.sections.length
  sections : List.Forall₂ (SectionInstance.SameBut type) page.sections page'.sections

section lookups

variable {lookup lookup' : String → Option SectionSchema} {type : String}

theorem Placement.sameBut_resolve (h : ∀ other, other ≠ type → lookup other = lookup' other)
    (p : Placement) :
    (p.resolve (lookup p.stub.type)).SameBut type (p.resolve (lookup' p.stub.type)) where
  frame := p.sameFrame_resolve _ _
  other hother := congrArg p.resolve (h p.stub.type hother)

/-- What holds of each section under two lookups holds of the lists of sections. -/
theorem Placement.rel_instances {R : SectionInstance → SectionInstance → Prop}
    (hR : ∀ p : Placement, R (p.resolve (lookup p.stub.type)) (p.resolve (lookup' p.stub.type)))
    (start : Nat) (placed : List (Region × String × SectionStub)) :
    List.Forall₂ R (instances lookup start placed) (instances lookup' start placed) := by
  induction placed generalizing start with
  | nil => exact .nil
  | cons q placed ih =>
    obtain ⟨region, id, stub⟩ := q
    exact .cons (hR { region, id, stub, index := start }) (ih (start + 1))

namespace Documents

theorem rel_sections_page {R : SectionInstance → SectionInstance → Prop}
    (hR : ∀ p : Placement, R (p.resolve (lookup p.stub.type)) (p.resolve (lookup' p.stub.type)))
    (docs : Documents) :
    List.Forall₂ R (docs.page lookup).sections (docs.page lookup').sections := by
  rw [sections_page, sections_page]
  exact Placement.rel_instances hR 0 _

theorem sameBut_page (h : ∀ other, other ≠ type → lookup other = lookup' other)
    (docs : Documents) : (docs.page lookup).SameBut type (docs.page lookup') := by
  have hsections := docs.rel_sections_page (Placement.sameBut_resolve h)
  exact ⟨rfl, hsections.length_eq, hsections⟩

/-- Where two lookups differ in the schema of one type, they give pages that differ in the sections
of this type, and there in the settings and the schema alone. -/
theorem exists_pages_sameBut (docs : Documents)
    (h : ∀ other, other ≠ type → lookup other = lookup' other) :
    ∃ page page',
      Page.composeRequired lookup (some docs.template) docs.header docs.footer = .ok page ∧
      Page.composeRequired lookup' (some docs.template) docs.header docs.footer = .ok page' ∧
      page.SameBut type page' :=
  ⟨docs.page lookup, docs.page lookup', composeRequired_eq, composeRequired_eq,
    sameBut_page h docs⟩

end Documents

end lookups

/-- The schema of heroes is lost. The header has a section of this type, whose second block is not
defined, and the template has one between others. -/
theorem Documents.exists_pages_sameBut_hero :
    let size : Setting := ⟨"number", some "size", "", none, some (.int 3), .number none⟩
    let schema : SectionSchema := ⟨"", [size], [⟨"item", "", none, [size]⟩], [], none, none, none,
      none, none, none, [], []⟩
    let lookup := fun type : String => if type = "plain" then none else some schema
    let lookup' := fun type : String => if type = "hero" then none else lookup type
    let hero : SectionStub := ⟨"hero", [], [("b", ⟨"item", [], true⟩)], ["b", "gone"], false⟩
    let text : SectionStub := ⟨"text", [("size", .null)], [], [], false⟩
    let docs : Documents :=
      { template := ⟨[("t", text), ("h", hero)], ["t", "h", "gone", "t"], .unspecified, none⟩
        header := some ⟨"header", [("h", hero)], ["h"], ""⟩
        footer := none }
    (∀ other, other ≠ "hero" → lookup other = lookup' other) ∧ lookup "hero" ≠ lookup' "hero" ∧
      ∃ page page',
        Page.composeRequired lookup (some docs.template) docs.header docs.footer = .ok page ∧
        Page.composeRequired lookup' (some docs.template) docs.header docs.footer = .ok page' ∧
        page.SameBut "hero" page' := by
  intro size schema lookup lookup' hero text docs
  have hagree : ∀ other, other ≠ "hero" → lookup other = lookup' other := fun other hother =>
    (if_neg hother).symm
  exact ⟨hagree, nofun, docs.exists_pages_sameBut hagree⟩

end Storefront
