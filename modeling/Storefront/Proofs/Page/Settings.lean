import Mathlib.Data.List.Forall2
import Storefront.Proofs.Page.Composition

/-!
The settings of the sections and blocks of a page: the defaults of what a schema declares with the
authored values assigned over them.
-/

namespace Storefront

namespace Setting

/-- The ids of the settings that hold a value, each where it is declared first. -/
def declaredKeys (settings : List Setting) : List String :=
  (settings.filterMap Setting.key?).eraseDups

/-- The default of the setting that is declared last with an id: its own, null included, or else
that of its kind. -/
def lastDefault? (settings : List Setting) (key : String) : Option Value :=
  (settings.reverse.find? (·.key? = some key)).map fun s => s.declared.getD s.kind.default

theorem keys_entries (settings : List Setting) :
    Dict.keys (settings.filterMap fun s => s.key?.map (·, s.defaultValue)) =
      settings.filterMap key? := by
  rw [Dict.keys, List.map_filterMap]
  simp [Option.map_map, Function.comp_def]

theorem keys_defaults (settings : List Setting) :
    Dict.keys (defaults settings) = declaredKeys settings := by
  rw [defaults, Dict.keys_ofList, keys_entries, declaredKeys]

theorem get?_entries (settings : List Setting) (key : String) :
    Dict.get? (settings.filterMap fun s => s.key?.map (·, s.defaultValue)) key =
      (settings.find? (·.key? = some key)).map fun s => s.declared.getD s.kind.default := by
  induction settings with
  | nil => rfl
  | cons s settings ih =>
    cases hs : s.key? with
    | none =>
      rw [List.filterMap_cons_none (by simp [hs]), List.find?_cons_of_neg (by simp [hs]), ih]
    | some k =>
      rw [List.filterMap_cons_some (by rw [hs, Option.map_some]), Dict.get?]
      split
      · next h => rw [List.find?_cons_of_pos (by simp [hs, h])]; rfl
      · next h => rw [List.find?_cons_of_neg (by simp [hs, h]), ih]

theorem get?_defaults (settings : List Setting) (key : String) :
    Dict.get? (defaults settings) key = lastDefault? settings key := by
  rw [defaults, Dict.get?_ofList, ← List.filterMap_reverse, get?_entries, lastDefault?]

theorem lastDefault?_cons (s : Setting) (settings : List Setting) (key : String) :
    lastDefault? (s :: settings) key =
      (lastDefault? settings key).or (if s.key? = some key then some s.defaultValue else none) := by
  rw [lastDefault?, List.reverse_cons, List.find?_append, Option.map_or, ← lastDefault?]
  by_cases hs : s.key? = some key
  · rw [if_pos hs, List.find?_cons_of_pos (by simpa using hs)]
    rfl
  · rw [if_neg hs, List.find?_cons_of_neg (by simpa using hs)]
    rfl

theorem lastDefault?_eq_none_iff {settings : List Setting} {key : String} :
    lastDefault? settings key = none ↔ key ∉ settings.filterMap key? := by
  rw [← get?_defaults, Dict.get?_eq_none_iff, keys_defaults, declaredKeys, List.mem_eraseDups]

theorem declaredKeys_of_nodup {settings : List Setting} (h : (settings.filterMap key?).Nodup) :
    declaredKeys settings = settings.filterMap key? := by
  rw [← keys_entries] at h
  rw [declaredKeys, ← keys_entries, Dict.eraseDups_keys_of_nodup h]

/-- Where no two settings have the same id, each id has the default of its own setting. -/
theorem get?_defaults_of_nodup {settings : List Setting} (h : (settings.filterMap key?).Nodup)
    {s : Setting} (hs : s ∈ settings) {id : String} (hid : s.key? = some id) :
    Dict.get? (defaults settings) id = some s.defaultValue := by
  rw [← keys_entries] at h
  have hmem : (id, s.defaultValue) ∈ settings.filterMap fun s => s.key?.map (·, s.defaultValue) :=
    List.mem_filterMap.2 ⟨s, hs, by rw [hid, Option.map_some]⟩
  rw [defaults, Dict.ofList_of_nodup h, Dict.get?_of_mem h hmem]

/-- The settings of a section or a block: the declared keys, each where it is declared first, and
then the other authored ones; at each key the authored value, null included, or else the default of
the last declaration. -/
structure Overlays (declared : List Setting) (authored settings : Dict Value) : Prop where
  distinct : settings.keys.Nodup
  keys : settings.keys =
    declaredKeys declared ++ authored.keys.filter fun k => k ∉ declaredKeys declared
  value : ∀ key, settings.get? key = (authored.get? key).or (lastDefault? declared key)

theorem overlays_merge_defaults (declared : List Setting) (authored : Dict Value) :
    Overlays declared (Dict.ofList authored) (Dict.merge (defaults declared) authored) where
  distinct := Dict.nodup_keys_merge (Dict.nodup_keys_ofList _) authored
  keys := by rw [Dict.keys_merge, keys_defaults, Dict.keys_ofList]
  value key := by rw [Dict.get?_merge, get?_defaults, Dict.get?_ofList]

end Setting

/-- A block with the settings of the first definition of its type, or with the authored ones alone
where the schema has no such definition. -/
structure BlockInstance.Resolves (schema : Option SectionSchema) (id : String) (stub : BlockStub)
    (b : BlockInstance) : Prop where
  id : b.id = id
  type : b.type = stub.type
  disabled : b.disabled = stub.disabled
  declared : ∀ s ∈ schema, ∀ definition ∈ s.blocks.find? (·.type = stub.type),
    Setting.Overlays definition.settings (Dict.ofList stub.settings) b.settings
  undeclared : (∀ s ∈ schema, ∀ definition ∈ s.blocks, definition.type ≠ stub.type) →
    b.settings = Dict.ofList stub.settings

theorem BlockStub.resolves_resolve (schema : Option SectionSchema) (id : String)
    (stub : BlockStub) : (stub.resolve schema id).Resolves schema id stub where
  id := rfl
  type := rfl
  disabled := rfl
  declared s hs definition hdefinition := by
    cases hs
    have hfind : (some s).bind (·.findBlock? stub.type) = some definition := hdefinition
    rw [resolve]
    simp only [hfind]
    exact Setting.overlays_merge_defaults definition.settings stub.settings
  undeclared h := by
    have hfind : schema.bind (·.findBlock? stub.type) = none := by
      cases schema with
      | none => rfl
      | some s =>
        have hnone : ∀ definition ∈ s.blocks, ¬decide (definition.type = stub.type) = true :=
          fun definition hmem => by simpa using h s rfl definition hmem
        exact List.find?_eq_none.2 hnone
    rw [resolve]
    simp only [hfind]
    rfl

/-- A section with the settings of its schema, or with the authored ones alone where it has none,
and with the blocks that its stub orders and defines. -/
structure SectionInstance.Resolves (schema : Option SectionSchema) (stub : SectionStub)
    (s : SectionInstance) : Prop where
  against : s.schema = schema
  settings : Setting.Overlays (schema.elim [] SectionSchema.settings) (Dict.ofList stub.settings)
    s.settings
  blocks : List.Forall₂
    (fun id b => ∃ block, stub.blocks.get? id = some block ∧
      BlockInstance.Resolves schema id block b)
    (stub.blockOrder.filter stub.blocks.contains) s.blocks

theorem SectionStub.forall₂_resolveBlocks (schema : Option SectionSchema) (stub : SectionStub) :
    List.Forall₂
      (fun id b => ∃ block, stub.blocks.get? id = some block ∧
        BlockInstance.Resolves schema id block b)
      (stub.blockOrder.filter stub.blocks.contains) (stub.resolveBlocks schema) := by
  rw [resolveBlocks]
  induction stub.blockOrder with
  | nil => exact .nil
  | cons id order ih =>
    cases hid : stub.blocks.get? id with
    | none =>
      rw [List.filter_cons_of_neg (by simp [Dict.contains, hid]),
        List.filterMap_cons_none (by rw [hid]; rfl)]
      exact ih
    | some block =>
      rw [List.filter_cons_of_pos (by simp [Dict.contains, hid]),
        List.filterMap_cons_some (by rw [hid]; rfl)]
      exact .cons ⟨block, hid, block.resolves_resolve schema id⟩ ih

theorem Placement.resolves_resolve (p : Placement) (schema : Option SectionSchema) :
    (p.resolve schema).Resolves schema p.stub where
  against := rfl
  settings := by
    cases schema with
    | none => exact Setting.overlays_merge_defaults [] p.stub.settings
    | some s => exact Setting.overlays_merge_defaults s.settings p.stub.settings
  blocks := p.stub.forall₂_resolveBlocks schema

/-- Every section of a composed page is its own stub, resolved against the schema of its type.
Settings are authored as entries with distinct keys (`Dict.ofList_of_nodup`). -/
theorem Documents.exists_page_resolves (docs : Documents)
    (lookup : String → Option SectionSchema) :
    ∃ page, Page.composeRequired lookup (some docs.template) docs.header docs.footer = .ok page ∧
      ∀ s ∈ page.sections, ∃ stub, (docs.sections s.region).get? s.id = some stub ∧
        s.Resolves (lookup stub.type) stub := by
  refine ⟨docs.page lookup, composeRequired_eq, fun s hs => ?_⟩
  obtain ⟨stub, index, hstub, heq⟩ := exists_stub_of_mem_page hs
  refine ⟨stub, hstub, ?_⟩
  rw [heq]
  exact Placement.resolves_resolve { region := s.region, id := s.id, stub, index }
    (lookup stub.type)

end Storefront
