import Mathlib.Data.List.Lattice
import Storefront.Proofs.Text.Boundary
import Storefront.Schema.Issue

/-!
How the settings and the block types of a schema are to be declared, and that the declarations have
no issue exactly where they are so. What a check has passed is a list of what it has seen: without
an issue the rest is distinct and has nothing of this list.
-/

namespace Storefront

/-- What comes first is new, and the rest goes on with it among what is seen. -/
theorem nodup_cons_disjoint {α : Type} {a : α} {l seen : List α} :
    (a ∉ seen ∧ l.Nodup ∧ (a :: seen).Disjoint l) ↔ (a :: l).Nodup ∧ seen.Disjoint (a :: l) := by
  rw [List.nodup_cons, List.disjoint_cons_left, List.disjoint_cons_right]
  constructor
  · rintro ⟨hseen, hl, ha, hdisjoint⟩
    exact ⟨⟨ha, hl⟩, hseen, hdisjoint⟩
  · rintro ⟨⟨ha, hl⟩, hseen, hdisjoint⟩
    exact ⟨hseen, hl, ha, hdisjoint⟩

namespace Setting

theorem idIssues_eq_nil_iff {scope : String} {seen : List String} {position : Nat}
    {settings : List Setting} : idIssues scope seen position settings = [] ↔
    (∀ s ∈ settings, s.isDisplay = false → s.id?.isSome) ∧ (settings.filterMap key?).Nodup ∧
      seen.Disjoint (settings.filterMap key?) := by
  induction settings generalizing seen position with
  | nil => simp [idIssues]
  | cons s settings ih =>
    rw [idIssues]
    cases hdisplay : s.isDisplay with
    | true => simp [hdisplay, key?_of_isDisplay hdisplay, ih]
    | false =>
      cases hid : s.id? with
      | none => simp [hdisplay, hid]
      | some id =>
        have hkey : s.key? = some id := (key?_eq_id? hdisplay).trans hid
        rw [List.filterMap_cons_some hkey, ← nodup_cons_disjoint, List.forall_mem_cons, hid]
        by_cases hseen : id ∈ seen
        · simp [hseen]
        · simp [hseen, ih]

/-- The settings that hold values have ids, and no two of them the same. -/
structure WellDeclared (settings : List Setting) : Prop where
  hasId : ∀ s ∈ settings, s.isDisplay = false → s.id?.isSome
  distinct : (settings.filterMap key?).Nodup

theorem idIssues_nil_eq_nil_iff {scope : String} {position : Nat} {settings : List Setting} :
    idIssues scope [] position settings = [] ↔ WellDeclared settings := by
  rw [idIssues_eq_nil_iff]
  constructor
  · rintro ⟨hid, hdistinct, -⟩
    exact ⟨hid, hdistinct⟩
  · rintro ⟨hid, hdistinct⟩
    exact ⟨hid, hdistinct, List.disjoint_nil_left _⟩

end Setting

namespace BlockDefinition

/-- The definition has a name, and its settings are declared as they are to be. -/
structure WellDeclared (b : BlockDefinition) : Prop where
  named : ∃ c ∈ b.name.toList, Text.isBlank c = false
  settings : Setting.WellDeclared b.settings

theorem issues_eq_nil_iff {seen : List String} {blocks : List BlockDefinition} :
    issues seen blocks = [] ↔ (∀ b ∈ blocks, b.WellDeclared) ∧ (blocks.map (·.type)).Nodup ∧
      seen.Disjoint (blocks.map (·.type)) := by
  induction blocks generalizing seen with
  | nil => simp [issues]
  | cons b blocks ih =>
    have hb : b.WellDeclared ↔ Text.trimmed b.name ≠ "" ∧ Setting.WellDeclared b.settings := by
      rw [Text.trimmed_ne_empty_iff]
      exact ⟨fun h => ⟨h.named, h.settings⟩, fun h => ⟨h.1, h.2⟩⟩
    rw [List.map_cons, ← nodup_cons_disjoint, List.forall_mem_cons, hb, issues]
    simp only [List.append_eq_nil_iff, ite_eq_right_iff, List.cons_ne_nil, imp_false,
      List.contains_iff_mem, Setting.idIssues_nil_eq_nil_iff, ih]
    constructor
    · rintro ⟨⟨⟨htype, hname⟩, hsettings⟩, hblocks, hrest⟩
      exact ⟨⟨⟨hname, hsettings⟩, hblocks⟩, htype, hrest⟩
    · rintro ⟨⟨⟨hname, hsettings⟩, hblocks⟩, htype, hrest⟩
      exact ⟨⟨⟨htype, hname⟩, hsettings⟩, hblocks, hrest⟩

end BlockDefinition

namespace SectionSchema

/-- The schema and its block types have names, the types differ, and all settings are declared as
they are to be. -/
structure WellDeclared (s : SectionSchema) : Prop where
  named : ∃ c ∈ s.name.toList, Text.isBlank c = false
  settings : Setting.WellDeclared s.settings
  blocks : ∀ b ∈ s.blocks, b.WellDeclared
  types : s.blockTypes.Nodup

theorem issues_eq_nil_iff {s : SectionSchema} : s.issues = [] ↔ s.WellDeclared := by
  simp only [issues, List.append_eq_nil_iff, ite_eq_right_iff, List.cons_ne_nil, imp_false,
    Setting.idIssues_nil_eq_nil_iff, BlockDefinition.issues_eq_nil_iff]
  rw [← ne_eq, Text.trimmed_ne_empty_iff]
  constructor
  · rintro ⟨⟨hname, hsettings⟩, hblocks, htypes, -⟩
    exact ⟨hname, hsettings, hblocks, htypes⟩
  · rintro ⟨hname, hsettings, hblocks, htypes⟩
    exact ⟨⟨hname, hsettings⟩, hblocks, htypes, List.disjoint_nil_left _⟩

end SectionSchema

end Storefront
