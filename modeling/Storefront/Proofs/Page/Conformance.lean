import Storefront.Page.Check
import Storefront.Proofs.Schema.Admission
import Storefront.Proofs.Schema.Declaration

/-!
A section has no issue exactly where it is as its schema says: the schema is well declared, the
values of the section and of its blocks are allowed, and there are no more blocks than may be, in
all and of each type.
-/

namespace Storefront.SectionInstance

/-- The section is as the schema says. A block of no declared type may have any values. -/
structure Conforms (s : SectionInstance) (schema : SectionSchema) : Prop where
  declared : schema.WellDeclared
  values : Setting.Admitted schema.settings s.settings
  blockValues : ∀ b ∈ s.blocks, ∀ definition ∈ schema.findBlock? b.type,
    Setting.Admitted definition.settings b.settings
  total : ∀ most ∈ schema.maxBlocks, (s.blocks.length : Int) ≤ most
  ofType : ∀ definition ∈ schema.blocks, ∀ most ∈ definition.limit,
    (s.blocks.countP (·.type = definition.type) : Int) ≤ most

/-- The values that are numbers, and the bounds that they are compared with, are finite. -/
structure HasFiniteNumbers (s : SectionInstance) : Prop where
  values : ∀ p ∈ s.settings, p.2.isFinite
  blockValues : ∀ b ∈ s.blocks, ∀ p ∈ b.settings, p.2.isFinite
  bounds : ∀ schema ∈ s.schema, ∀ setting ∈ schema.settings, setting.kind.FiniteBounds
  blockBounds : ∀ schema ∈ s.schema, ∀ definition ∈ schema.blocks,
    ∀ setting ∈ definition.settings, setting.kind.FiniteBounds

variable {schema : SectionSchema}

theorem totalIssues_eq_nil_iff {blocks : List BlockInstance} :
    totalIssues schema blocks = [] ↔ ∀ most ∈ schema.maxBlocks, (blocks.length : Int) ≤ most := by
  rw [totalIssues]
  cases schema.maxBlocks with
  | none => simp
  | some most => simp

theorem limitIssue?_eq_none_iff {blocks : List BlockInstance} {definition : BlockDefinition} :
    limitIssue? blocks definition = none ↔ ∀ most ∈ definition.limit,
      (blocks.countP (·.type = definition.type) : Int) ≤ most := by
  rw [limitIssue?]
  cases definition.limit with
  | none => simp
  | some most => simp

theorem blockIssues_eq_nil_iff {b : BlockInstance} (hvalues : ∀ p ∈ b.settings, p.2.isFinite)
    (hbounds : ∀ definition ∈ schema.blocks, ∀ setting ∈ definition.settings,
      setting.kind.FiniteBounds) : blockIssues schema b = [] ↔
    ∀ definition ∈ schema.findBlock? b.type, Setting.Admitted definition.settings b.settings := by
  rw [blockIssues]
  cases hfind : schema.findBlock? b.type with
  | none => simp
  | some definition =>
    have hmem : definition ∈ schema.blocks := List.mem_of_find?_eq_some hfind
    simp [Setting.issues_eq_nil_iff (hbounds definition hmem) hvalues]

/-- Nothing is reported of a section exactly where it has no schema or is as its schema says. -/
theorem issues_eq_nil_iff_conforms {s : SectionInstance} (h : s.HasFiniteNumbers) :
    s.issues = [] ↔ ∀ schema ∈ s.schema, s.Conforms schema := by
  rw [issues]
  cases hschema : s.schema with
  | none => simp
  | some schema =>
    have hbounds := h.bounds schema hschema
    have hblocks : ∀ b ∈ s.blocks, blockIssues schema b = [] ↔
        ∀ definition ∈ schema.findBlock? b.type, Setting.Admitted definition.settings b.settings :=
      fun b hb => blockIssues_eq_nil_iff (h.blockValues b hb) (h.blockBounds schema hschema)
    simp only [List.append_eq_nil_iff, SectionSchema.issues_eq_nil_iff,
      Setting.issues_eq_nil_iff hbounds h.values, List.flatMap_eq_nil_iff, forall₂_congr hblocks,
      totalIssues_eq_nil_iff, List.filterMap_eq_nil_iff, limitIssue?_eq_none_iff,
      Option.mem_some_iff, forall_eq']
    constructor
    · rintro ⟨⟨⟨⟨hdeclared, hvalues⟩, hblocks⟩, htotal⟩, htype⟩
      exact ⟨hdeclared, hvalues, hblocks, htotal, htype⟩
    · rintro ⟨hdeclared, hvalues, hblocks, htotal, htype⟩
      exact ⟨⟨⟨⟨hdeclared, hvalues⟩, hblocks⟩, htotal⟩, htype⟩

/-- A slide show whose only slide has the speed, which is to lie between 1 and 5. -/
def slideshow (speed : Int) : SectionInstance where
  id := "slideshow"
  type := "slideshow"
  schema := some {
    name := "Slideshow"
    settings := []
    blocks := [{
      type := "slide", name := "Slide", limit := some 1
      settings := [{
        type := "range", id := some "speed", label := "", info := none, declared := none
        kind := .range (some (.int 1)) (some (.int 5)) none none }] }]
    presets := [], tag := none, className := none, limit := none, maxBlocks := some 2
    enabledOn := none, disabledOn := none, locales := [], raw := [] }
  settings := []
  blocks := [{
    id := "first", type := "slide", settings := [("speed", .int speed)], disabled := false }]
  blockOrder := ["first"]
  disabled := false
  index := 0
  region := .template

theorem slideshow_hasFiniteNumbers (speed : Int) : (slideshow speed).HasFiniteNumbers where
  values := by simp [slideshow]
  blockValues := by simp [slideshow, Value.isFinite, Value.int, Number.isFinite]
  bounds := by simp [slideshow]
  blockBounds := by simp [slideshow, Setting.Kind.FiniteBounds, Number.isFinite]

/-- A speed of 3 is as the schema says, one of 9 is not. -/
theorem issues_eq_nil_iff_conforms_slideshow :
    (∀ schema ∈ (slideshow 3).schema, (slideshow 3).Conforms schema) ∧
      ¬∀ schema ∈ (slideshow 9).schema, (slideshow 9).Conforms schema := by
  constructor
  · apply (issues_eq_nil_iff_conforms (slideshow_hasFiniteNumbers 3)).1
    rfl
  · intro h
    have hnil := (issues_eq_nil_iff_conforms (slideshow_hasFiniteNumbers 9)).2 h
    have hissue : (slideshow 9).issues ≠ [] := by
      intro hissues
      cases hissues
    exact hissue hnil

end Storefront.SectionInstance
