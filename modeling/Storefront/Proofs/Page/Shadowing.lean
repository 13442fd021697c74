import Mathlib.Data.List.Nodup
import Storefront.Proofs.Page.Isolation
import Storefront.Proofs.Page.Settings
import Storefront.Proofs.Schema.Repetition

/-!
Declarations that have no effect. Of the settings of one id the last gives the default, and of the
block definitions of one type the first is found, so a page is the same without the others: only the
order of the keys can change, since the first setting of an id gives its place.
-/

namespace Storefront

namespace Dict

variable {α : Type} {d e : Dict α}

/-- Maps of the same entries, in whatever order. -/
structure SameEntries (d e : Dict α) : Prop where
  get? : ∀ k, d.get? k = e.get? k
  perm : d.Perm e

theorem SameEntries.refl (d : Dict α) : SameEntries d d := ⟨fun _ => rfl, .refl d⟩

theorem mem_iff_get? (hd : (keys d).Nodup) {k : String} {a : α} :
    (k, a) ∈ d ↔ d.get? k = some a :=
  ⟨get?_of_mem hd, mem_of_get?⟩

theorem sameEntries_of_get? (hd : (keys d).Nodup) (he : (keys e).Nodup)
    (h : ∀ k, d.get? k = e.get? k) : SameEntries d e := by
  refine ⟨h, (List.perm_ext_iff_of_nodup (hd.of_map Prod.fst) (he.of_map Prod.fst)).2 fun p => ?_⟩
  obtain ⟨k, a⟩ := p
  rw [mem_iff_get? hd, mem_iff_get? he, h]

theorem SameEntries.merge (h : SameEntries d e) (hd : (keys d).Nodup) (more : Dict α) :
    SameEntries (Dict.merge d more) (Dict.merge e more) := by
  have he : (keys e).Nodup := (h.perm.map Prod.fst).nodup_iff.1 hd
  refine sameEntries_of_get? (nodup_keys_merge hd more) (nodup_keys_merge he more) fun k => ?_
  rw [get?_merge, get?_merge, h.get?]

end Dict

/-! ### Settings -/

namespace Setting

/-- The id of the setting is declared again among the later ones. A heading declares none. -/
def isShadowed (later : List Setting) (s : Setting) : Bool :=
  s.id.isSome && later.any fun t => !t.isDisplay && t.id = s.id

/-- The settings without those whose ids are declared again later. -/
def unshadowed : List Setting → List Setting
  | [] => []
  | s :: later => if s.isShadowed later then unshadowed later else s :: unshadowed later

theorem isShadowed_of_key? {s : Setting} {key : String} (hs : s.key? = some key)
    {later : List Setting} : s.isShadowed later = true ↔ key ∈ later.filterMap key? := by
  obtain ⟨-, hid, hkey⟩ := key?_eq_some_iff.1 hs
  simp [isShadowed, hid, key?_eq_some_iff, hkey]

theorem unshadowed_sublist (settings : List Setting) : (unshadowed settings).Sublist settings := by
  induction settings with
  | nil => exact .slnil
  | cons s later ih =>
    rw [unshadowed]
    split
    · exact ih.cons s
    · exact ih.cons_cons s

/-- Of each id that values are kept under, one declaration is left. -/
theorem nodup_unshadowed (settings : List Setting) :
    ((unshadowed settings).filterMap key?).Nodup := by
  induction settings with
  | nil => exact List.nodup_nil
  | cons s later ih =>
    rw [unshadowed]
    split
    · exact ih
    · next hs =>
      cases hkey : s.key? with
      | none => rwa [List.filterMap_cons_none hkey]
      | some key =>
        rw [isShadowed_of_key? hkey] at hs
        rw [List.filterMap_cons_some hkey, List.nodup_cons]
        exact ⟨fun hmem => hs (((unshadowed_sublist later).filterMap _).subset hmem), ih⟩

theorem lastDefault?_unshadowed (settings : List Setting) (key : String) :
    lastDefault? (unshadowed settings) key = lastDefault? settings key := by
  induction settings with
  | nil => rfl
  | cons s later ih =>
    rw [lastDefault?_cons, unshadowed]
    split
    · next hs =>
      rw [ih]
      by_cases hkey : s.key? = some key
      · have hlater : lastDefault? later key ≠ none := fun hnone =>
          lastDefault?_eq_none_iff.1 hnone ((isShadowed_of_key? hkey).1 hs)
        obtain ⟨v, hv⟩ := Option.ne_none_iff_exists'.1 hlater
        rw [hv, Option.some_or]
      · rw [if_neg hkey, Option.or_none]
    · rw [lastDefault?_cons, ih]

theorem sameEntries_defaults_unshadowed (settings : List Setting) :
    Dict.SameEntries (defaults settings) (defaults (unshadowed settings)) := by
  refine Dict.sameEntries_of_get? (Dict.nodup_keys_ofList _) (Dict.nodup_keys_ofList _)
    fun key => ?_
  rw [get?_defaults, get?_defaults, lastDefault?_unshadowed]

end Setting

/-! ### Block definitions -/

namespace BlockDefinition

/-- The definition without its shadowed settings. -/
def pruned (b : BlockDefinition) : BlockDefinition :=
  { b with settings := Setting.unshadowed b.settings }

/-- The first definitions of their types, each pruned, where the types in `seen` came before. -/
def unshadowed (seen : List String) : List BlockDefinition → List BlockDefinition
  | [] => []
  | b :: blocks =>
    if b.type ∈ seen then unshadowed seen blocks else b.pruned :: unshadowed (b.type :: seen) blocks

theorem find?_unshadowed (seen : List String) (blocks : List BlockDefinition) (type : String) :
    (unshadowed seen blocks).find? (·.type = type) =
      if type ∈ seen then none else (blocks.find? (·.type = type)).map pruned := by
  induction blocks generalizing seen with
  | nil => simp [unshadowed]
  | cons b blocks ih =>
    have hpruned : b.pruned.type = b.type := rfl
    rw [unshadowed]
    by_cases hb : b.type = type
    · subst hb
      by_cases hseen : b.type ∈ seen
      · rw [if_pos hseen, ih, if_pos hseen, if_pos hseen]
      · rw [if_neg hseen, if_neg hseen, List.find?_cons_of_pos (by simp [hpruned]),
          List.find?_cons_of_pos (by simp), Option.map_some]
    · rw [List.find?_cons_of_neg (by simpa using hb)]
      by_cases hseen : b.type ∈ seen
      · rw [if_pos hseen, ih]
      · rw [if_neg hseen, List.find?_cons_of_neg (by simpa [hpruned] using hb), ih]
        simp [Ne.symm hb]

theorem nodup_unshadowed (seen : List String) (blocks : List BlockDefinition) :
    ((unshadowed seen blocks).map (·.type)).Nodup ∧
      seen.Disjoint ((unshadowed seen blocks).map (·.type)) := by
  induction blocks generalizing seen with
  | nil => simp [unshadowed]
  | cons b blocks ih =>
    rw [unshadowed]
    split
    · exact ih seen
    · next hb => exact nodup_cons_disjoint.1 ⟨hb, ih (b.type :: seen)⟩

theorem exists_pruned_of_mem_unshadowed {seen : List String} {blocks : List BlockDefinition}
    {b : BlockDefinition} (hb : b ∈ unshadowed seen blocks) : ∃ c ∈ blocks, b = c.pruned := by
  induction blocks generalizing seen with
  | nil => cases hb
  | cons c blocks ih =>
    rw [unshadowed] at hb
    split at hb
    · obtain ⟨d, hd, heq⟩ := ih hb
      exact ⟨d, List.mem_cons_of_mem _ hd, heq⟩
    · rcases List.mem_cons.1 hb with rfl | hb
      · exact ⟨c, List.mem_cons_self, rfl⟩
      · obtain ⟨d, hd, heq⟩ := ih hb
        exact ⟨d, List.mem_cons_of_mem _ hd, heq⟩

theorem sameEntries_defaults_pruned (b : BlockDefinition) :
    Dict.SameEntries b.defaults b.pruned.defaults :=
  Setting.sameEntries_defaults_unshadowed b.settings

end BlockDefinition

/-! ### Schemas -/

namespace SectionSchema

/-- The schema without the declarations that others shadow: of the settings of a scope with one id
the last is left, of the block definitions of one type the first. -/
def pruned (s : SectionSchema) : SectionSchema :=
  { s with
    settings := Setting.unshadowed s.settings
    blocks := BlockDefinition.unshadowed [] s.blocks }

theorem findBlock?_pruned (s : SectionSchema) (type : String) :
    s.pruned.findBlock? type = (s.findBlock? type).map BlockDefinition.pruned := by
  rw [findBlock?, pruned, BlockDefinition.find?_unshadowed, if_neg List.not_mem_nil, findBlock?]

/-- A pruned schema has nothing that its check reports as declared twice. -/
theorem duplicates_pruned (s : SectionSchema) :
    s.pruned.issues.filter (·.complaint.isDuplicateId) = [] ∧
      s.pruned.issues.filter (·.complaint.isDuplicateType) = [] := by
  constructor
  · rw [filter_isDuplicateId_issues, pruned,
      repeated_eq_nil_iff.2 (Setting.nodup_unshadowed s.settings), List.map_nil, List.nil_append,
      List.flatMap_eq_nil_iff]
    intro b hb
    obtain ⟨c, -, rfl⟩ := BlockDefinition.exists_pruned_of_mem_unshadowed hb
    rw [BlockDefinition.pruned, repeated_eq_nil_iff.2 (Setting.nodup_unshadowed c.settings),
      List.map_nil]
  · rw [filter_isDuplicateType_issues, blockTypes, pruned,
      repeated_eq_nil_iff.2 (BlockDefinition.nodup_unshadowed [] s.blocks).1, List.map_nil]

end SectionSchema

/-! ### Pages -/

/-- Two blocks that are the same but for the order of the settings. -/
structure BlockInstance.SameSettings (b b' : BlockInstance) : Prop where
  frame : b.SameFrame b'
  settings : Dict.SameEntries b.settings b'.settings

/-- Two sections that are the same but for the schema and the order of the settings. -/
structure SectionInstance.SameSettings (s s' : SectionInstance) : Prop where
  frame : s.SameFrame s'
  settings : Dict.SameEntries s.settings s'.settings
  blocks : List.Forall₂ BlockInstance.SameSettings s.blocks s'.blocks

section schemas

variable {schema schema' : Option SectionSchema}
  (h : schema' = schema ∨ schema' = schema.map SectionSchema.pruned)

include h

theorem BlockStub.sameSettings_resolve (id : String) (b : BlockStub) :
    (b.resolve schema id).SameSettings (b.resolve schema' id) where
  frame := b.sameFrame_resolve schema schema' id
  settings := by
    obtain rfl | rfl := h
    · exact .refl _
    · cases schema with
      | none => exact .refl _
      | some s =>
        rw [resolve, resolve, Option.map_some, Option.bind_some, Option.bind_some,
          SectionSchema.findBlock?_pruned]
        cases s.findBlock? b.type with
        | none => exact .refl _
        | some definition =>
          exact definition.sameEntries_defaults_pruned.merge (Dict.nodup_keys_ofList _) b.settings

theorem SectionStub.sameEntries_resolveSettings (stub : SectionStub) :
    Dict.SameEntries (stub.resolveSettings schema) (stub.resolveSettings schema') := by
  obtain rfl | rfl := h
  · exact .refl _
  · cases schema with
    | none => exact .refl _
    | some s =>
      exact (Setting.sameEntries_defaults_unshadowed s.settings).merge (Dict.nodup_keys_ofList _)
        stub.settings

theorem Placement.sameSettings_resolve (p : Placement) :
    (p.resolve schema).SameSettings (p.resolve schema') where
  frame := p.sameFrame_resolve schema schema'
  settings := SectionStub.sameEntries_resolveSettings h p.stub
  blocks := p.stub.rel_resolveBlocks schema schema' (BlockStub.sameSettings_resolve h)

end schemas

namespace Documents

variable {lookup lookup' : String → Option SectionSchema}

/-- Where schemas are pruned, whichever they are, all documents give a page of the same sections and
blocks, with the same values under the same keys. -/
theorem exists_pages_pruned (docs : Documents)
    (h : ∀ type, lookup' type = lookup type ∨
      lookup' type = (lookup type).map SectionSchema.pruned) :
    ∃ page page',
      Page.composeRequired lookup (some docs.template) docs.header docs.footer = .ok page ∧
      Page.composeRequired lookup' (some docs.template) docs.header docs.footer = .ok page' ∧
      page.layout = page'.layout ∧
      List.Forall₂ SectionInstance.SameSettings page.sections page'.sections :=
  ⟨docs.page lookup, docs.page lookup', composeRequired_eq, composeRequired_eq, rfl,
    docs.rel_sections_page fun p => Placement.sameSettings_resolve (h p.stub.type) p⟩

/-- Heroes declare the id of a setting twice in each scope and a block type twice. Pruning leaves
the last number of the id and the first item, and moves the id behind the other key. -/
theorem exists_pages_pruned_hero :
    let number (id : String) (n : Int) : Setting :=
      ⟨"number", some id, "", none, some (.int n), .number none⟩
    let hero : SectionSchema := ⟨"", [number "size" 1, number "gap" 2, number "size" 3],
      [⟨"item", "", none, [number "rank" 4, number "rank" 5]⟩,
        ⟨"item", "", none, [number "rank" 6, number "lost" 7]⟩], [], none, none, none, none, none,
      none, [], []⟩
    let lookup := fun type : String => if type = "hero" then some hero else none
    let lookup' := fun type : String => if type = "hero" then some hero.pruned else none
    let stub : SectionStub := ⟨"hero", [("gap", .null)], [("b", ⟨"item", [], true⟩)], ["b", "gone"],
      false⟩
    let docs : Documents :=
      { template := ⟨[("h", stub)], ["h", "gone", "h"], .unspecified, none⟩
        header := some ⟨"header", [("h", stub)], ["h"], ""⟩
        footer := none }
    (hero.pruned.settings.map Setting.id = [some "gap", some "size"] ∧
      hero.pruned.blocks.map (·.settings.length) = [1] ∧
      stub.resolveSettings (some hero) = [("size", .int 3), ("gap", .null)] ∧
      stub.resolveSettings (some hero.pruned) = [("gap", .null), ("size", .int 3)]) ∧
    (∀ type, lookup' type = lookup type ∨ lookup' type = (lookup type).map SectionSchema.pruned) ∧
      ∃ page page',
        Page.composeRequired lookup (some docs.template) docs.header docs.footer = .ok page ∧
        Page.composeRequired lookup' (some docs.template) docs.header docs.footer = .ok page' ∧
        page.layout = page'.layout ∧
        List.Forall₂ SectionInstance.SameSettings page.sections page'.sections := by
  intro number hero lookup lookup' stub docs
  have hpruned : ∀ type, lookup' type = lookup type ∨
      lookup' type = (lookup type).map SectionSchema.pruned := by
    intro type
    by_cases htype : type = "hero" <;> simp [lookup, lookup', htype]
  exact ⟨⟨rfl, rfl, rfl, rfl⟩, hpruned, docs.exists_pages_pruned hpruned⟩

end Documents

end Storefront
