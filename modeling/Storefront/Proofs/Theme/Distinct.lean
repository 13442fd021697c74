import Storefront.Proofs.Json.Decoded
import Storefront.Proofs.Page.Composition
import Storefront.Proofs.Schema.Origin
import Storefront.Proofs.Theme.Confinement

/-!
The data of pages of a theme. Settings come from documents and from the defaults that schemas
declare, and both are decoded from files, so their maps have distinct keys, as have the settings
that are merged from them.
-/

namespace Storefront

open Value

/-! ### Documents -/

/-- The settings of a block are data with distinct keys. -/
def BlockStub.Distinct (b : BlockStub) : Prop := (Value.map b.settings).Distinct

structure SectionStub.Distinct (s : SectionStub) : Prop where
  settings : (Value.map s.settings).Distinct
  blocks : ∀ p ∈ s.blocks, p.2.Distinct

namespace Document

theorem distinct_of_settingsOf {place : String} {v : Value} {settings : Dict Value}
    (hv : v.Distinct) (h : settingsOf place v = .ok settings) : (Value.map settings).Distinct := by
  unfold settingsOf at h
  split at h
  · cases h
    exact .map_nil
  · cases h
    exact hv
  · cases h

theorem distinct_of_typed? {v : Value} {type : String} {fields : Dict Value} (hv : v.Distinct)
    (h : typed? v = some (type, fields)) : (Value.map fields).Distinct := by
  unfold typed? at h
  split at h
  · simp only at h
    split at h
    · cases h
      exact hv
    · cases h
  · cases h

end Document

theorem BlockStub.distinct_of_ofFields {place type : String} {fields : Dict Value} {b : BlockStub}
    (hfields : (Value.map fields).Distinct) (h : ofFields place type fields = .ok b) :
    b.Distinct := by
  rw [ofFields] at h
  obtain ⟨settings, hsettings, h⟩ := except_bind_eq_ok.1 h
  obtain ⟨disabled, -, h⟩ := except_bind_eq_ok.1 h
  cases h
  exact Document.distinct_of_settingsOf (hfields.field "settings") hsettings

namespace SectionStub

theorem distinct_of_readBlocks {place : String} {entries : List (String × Value)}
    (hentries : ∀ p ∈ entries, p.2.Distinct) {before blocks : Dict BlockStub}
    (hbefore : ∀ p ∈ before, p.2.Distinct)
    (h : (readBlocks place before entries).result = .ok blocks) :
    ∀ p ∈ blocks, p.2.Distinct := by
  induction entries generalizing before with
  | nil =>
    cases h
    exact hbefore
  | cons entry entries ih =>
    obtain ⟨id, v⟩ := entry
    obtain ⟨hv, hentries⟩ := List.forall_mem_cons.1 hentries
    rw [readBlocks] at h
    split at h
    · obtain ⟨-, -, h⟩ := Outcome.bind_eq_ok.1 h
      exact ih hentries hbefore h
    · next type fields htyped =>
      obtain ⟨block, hblock, h⟩ := Outcome.bind_eq_ok.1 h
      have hdistinct : block.Distinct :=
        BlockStub.distinct_of_ofFields (Document.distinct_of_typed? hv htyped) hblock
      exact ih hentries (Dict.forall_mem_insert hbefore id hdistinct) h

/-- A section whose blocks are read from entries of distinct data. -/
theorem distinct_of_entries {place type : String} {fields : Dict Value}
    (hfields : (Value.map fields).Distinct) {entries : List (String × Value)}
    (hentries : ∀ p ∈ entries, p.2.Distinct) {s : SectionStub}
    (h : Outcome.result (do
      let blocks ← readBlocks place [] entries
      let settings ← .ofExcept (Document.settingsOf place (field fields "settings"))
      let blockOrder ← .ofExcept
        (Document.idsOf (.blockOrderNotList place) (field fields "block_order"))
      let disabled ← .ofExcept (Document.flagOf place (field fields "disabled"))
      return ({ type, settings, blocks, blockOrder, disabled } : SectionStub)) = .ok s) :
    s.Distinct := by
  obtain ⟨blocks, hblocks, h⟩ := Outcome.bind_eq_ok.1 h
  obtain ⟨settings, hsettings, h⟩ := Outcome.bind_eq_ok.1 h
  obtain ⟨order, -, h⟩ := Outcome.bind_eq_ok.1 h
  obtain ⟨disabled, -, h⟩ := Outcome.bind_eq_ok.1 h
  cases h
  exact ⟨Document.distinct_of_settingsOf (hfields.field "settings") hsettings,
    distinct_of_readBlocks hentries (List.forall_mem_nil _) hblocks⟩

theorem distinct_of_ofFields {type : String} {fields : Dict Value} {s : SectionStub}
    (hfields : (Value.map fields).Distinct) (h : (ofFields type fields).result = .ok s) :
    s.Distinct := by
  have hblocks := hfields.field "blocks"
  rw [ofFields] at h
  split at h
  · next entries heq =>
    rw [heq] at hblocks
    exact distinct_of_entries hfields hblocks.fields h
  · split at h
    · cases h
    · exact distinct_of_entries hfields (List.forall_mem_nil _) h

theorem distinct_of_readAll {entries : List (String × Value)}
    (hentries : ∀ p ∈ entries, p.2.Distinct) {before sections : Dict SectionStub}
    (hbefore : ∀ p ∈ before, p.2.Distinct)
    (h : (readAll before entries).result = .ok sections) : ∀ p ∈ sections, p.2.Distinct := by
  induction entries generalizing before with
  | nil =>
    cases h
    exact hbefore
  | cons entry entries ih =>
    obtain ⟨id, v⟩ := entry
    obtain ⟨hv, hentries⟩ := List.forall_mem_cons.1 hentries
    rw [readAll] at h
    split at h
    · obtain ⟨-, -, h⟩ := Outcome.bind_eq_ok.1 h
      exact ih hentries hbefore h
    · next type fields htyped =>
      obtain ⟨stub, hstub, h⟩ := Outcome.bind_eq_ok.1 h
      have hdistinct : stub.Distinct :=
        distinct_of_ofFields (Document.distinct_of_typed? hv htyped) hstub
      exact ih hentries (Dict.forall_mem_insert hbefore id hdistinct) h

theorem distinct_of_mapOfValue {v : Value} {sections : Dict SectionStub} (hv : v.Distinct)
    (h : (mapOfValue v).result = .ok sections) : ∀ p ∈ sections, p.2.Distinct := by
  unfold mapOfValue at h
  split at h
  · cases h
    exact List.forall_mem_nil _
  · exact distinct_of_readAll hv.fields (List.forall_mem_nil _) h
  · cases h

end SectionStub

theorem Template.distinct_of_ofValue {v : Value} {template : Template} (hv : v.Distinct)
    (h : (ofValue v).result = .ok template) : ∀ p ∈ template.sections, p.2.Distinct := by
  unfold ofValue at h
  split at h
  · obtain ⟨sections, hsections, h⟩ := Outcome.bind_eq_ok.1 h
    obtain ⟨order, -, h⟩ := Outcome.bind_eq_ok.1 h
    cases h
    exact SectionStub.distinct_of_mapOfValue (hv.field "sections") hsections
  · cases h

theorem SectionGroup.distinct_of_ofValue {fallback : Option String} {v : Value}
    {group : SectionGroup} (hv : v.Distinct) (h : (ofValue fallback v).result = .ok group) :
    ∀ p ∈ group.sections, p.2.Distinct := by
  unfold ofValue at h
  split at h
  · obtain ⟨kind, -, h⟩ := Outcome.bind_eq_ok.1 h
    obtain ⟨sections, hsections, h⟩ := Outcome.bind_eq_ok.1 h
    obtain ⟨order, -, h⟩ := Outcome.bind_eq_ok.1 h
    cases h
    exact SectionStub.distinct_of_mapOfValue (hv.field "sections") hsections
  · cases h

/-! ### Schemas -/

namespace Setting

/-- The defaults that settings declare are data with distinct keys. -/
def AllDistinct (settings : List Setting) : Prop :=
  ∀ s ∈ settings, ∀ v ∈ s.declared, v.Distinct

theorem declared_of_ofValue {place : String} {v : Value} {s : Setting} (hv : v.Distinct)
    (h : ofValue place v = .ok s) : ∀ w ∈ s.declared, w.Distinct := by
  unfold ofValue at h
  split at h
  · split at h
    · split at h
      · cases h
      · obtain ⟨kind, -, h⟩ := except_bind_eq_ok.1 h
        cases h
        exact fun w hw => hv.get? hw
    · cases h
  · cases h

theorem allDistinct_of_listOfValue {place : String} {v : Value} (hv : v.Distinct)
    {settings : List Setting} (h : listOfValue place v = .ok settings) : AllDistinct settings := by
  intro s hs
  obtain ⟨items, rfl, place, w, hw, hread⟩ := exists_of_mem_listOfValue h hs
  exact declared_of_ofValue (hv.items w hw) hread

theorem Kind.distinct_default (kind : Kind) : kind.default.Distinct := by
  cases kind with
  | checkbox => exact .bool false
  | number | range => exact .number _
  | text | choice | color | font => exact .str _
  | resourceList => exact .list (List.forall_mem_nil _)
  | resource | display | unknown => exact .null

theorem distinct_defaults {settings : List Setting} (h : AllDistinct settings) :
    ∀ p ∈ defaults settings, p.2.Distinct := by
  refine Dict.forall_mem_ofList fun p hp => ?_
  obtain ⟨s, hs, hp⟩ := List.mem_filterMap.1 hp
  obtain ⟨key, -, rfl⟩ := Option.map_eq_some_iff.1 hp
  show (s.declared.getD s.kind.default).Distinct
  cases hdeclared : s.declared with
  | none => exact s.kind.distinct_default
  | some v => exact h s hs v hdeclared

/-- Authored settings that are merged into the defaults. -/
theorem distinct_merge_defaults {settings : List Setting} (h : AllDistinct settings)
    {authored : Dict Value} (hauthored : (Value.map authored).Distinct) :
    (Value.map (Dict.merge (defaults settings) authored)).Distinct :=
  .map (Dict.nodup_keys_merge (Dict.nodup_keys_ofList _) authored)
    (Dict.forall_mem_merge (distinct_defaults h) hauthored.fields)

end Setting

namespace BlockDefinition

theorem allDistinct_of_ofValue {position : Nat} {v : Value} (hv : v.Distinct)
    {b : BlockDefinition} (h : ofValue position v = .ok b) : Setting.AllDistinct b.settings := by
  obtain ⟨fields, place, rfl, hsettings⟩ := settings_of_ofValue h
  exact Setting.allDistinct_of_listOfValue (hv.field "settings") hsettings

theorem allDistinct_of_listOfValue {v : Value} (hv : v.Distinct) {blocks : List BlockDefinition}
    (h : listOfValue v = .ok blocks) : ∀ b ∈ blocks, Setting.AllDistinct b.settings := by
  intro b hb
  obtain ⟨items, rfl, position, w, hw, hread⟩ := exists_of_mem_listOfValue h hb
  exact allDistinct_of_ofValue (hv.items w hw) hread

end BlockDefinition

/-- All defaults that a schema declares are data with distinct keys. -/
structure SectionSchema.Distinct (s : SectionSchema) : Prop where
  settings : Setting.AllDistinct s.settings
  blocks : ∀ b ∈ s.blocks, Setting.AllDistinct b.settings

namespace SectionSchema

theorem distinct_of_ofValue {v : Value} (hv : v.Distinct) {schema : SectionSchema}
    (h : ofValue v = .ok schema) : schema.Distinct := by
  obtain ⟨fields, rfl, hsettings, hblocks⟩ := parts_of_ofValue h
  exact ⟨Setting.allDistinct_of_listOfValue (hv.field "settings") hsettings,
    BlockDefinition.allDistinct_of_listOfValue (hv.field "blocks") hblocks⟩

theorem distinct_of_load {source : String} {schema : SectionSchema}
    (h : load source = .ok (some schema)) : schema.Distinct := by
  unfold load at h
  split at h
  · cases h
  · next body _ =>
    unfold ofBody at h
    split at h
    · cases h
    · next v hv =>
      cases hschema : ofValue v with
      | error e =>
        rw [hschema] at h
        cases h
      | ok found =>
        rw [hschema] at h
        cases h
        exact distinct_of_ofValue (Json.distinct_of_decodeCommented hv) hschema

theorem distinct_of_extract {name source : String} {schema : SectionSchema}
    (h : (extract name source).result = .ok (some schema)) : schema.Distinct := by
  unfold extract at h
  split at h
  · cases h
  · exact distinct_of_load h

end SectionSchema

/-! ### Pages -/

structure SectionInstance.Distinct (s : SectionInstance) : Prop where
  settings : (Value.map s.settings).Distinct
  blocks : ∀ b ∈ s.blocks, (Value.map b.settings).Distinct

theorem BlockStub.distinct_resolve {schema : Option SectionSchema}
    (hschema : ∀ s ∈ schema, s.Distinct) {b : BlockStub} (hb : b.Distinct) (id : String) :
    (Value.map (b.resolve schema id).settings).Distinct := by
  cases h : schema.bind (·.findBlock? b.type) with
  | none =>
    simp only [resolve, h]
    exact Setting.distinct_merge_defaults (List.forall_mem_nil _) hb
  | some definition =>
    simp only [resolve, h]
    obtain ⟨s, hs, hdefinition⟩ := Option.bind_eq_some_iff.1 h
    have hmem : definition ∈ s.blocks := List.mem_of_find?_eq_some hdefinition
    exact Setting.distinct_merge_defaults ((hschema s hs).blocks definition hmem) hb

theorem Placement.distinct_resolve {schema : Option SectionSchema}
    (hschema : ∀ s ∈ schema, s.Distinct) {p : Placement} (hp : p.stub.Distinct) :
    (p.resolve schema).Distinct where
  settings := by
    cases schema with
    | none => exact Setting.distinct_merge_defaults (List.forall_mem_nil _) hp.settings
    | some s => exact Setting.distinct_merge_defaults (hschema s rfl).settings hp.settings
  blocks b hb := by
    obtain ⟨id, -, hid⟩ := List.mem_filterMap.1 hb
    obtain ⟨stub, hstub, rfl⟩ := Option.map_eq_some_iff.1 hid
    exact BlockStub.distinct_resolve hschema (hp.blocks (id, stub) (Dict.mem_of_get? hstub)) id

/-- The sections of documents are those that the documents define. -/
theorem Documents.exists_of_mem_all (docs : Documents) {p : Placement}
    (h : p ∈ Placement.all docs.template docs.header docs.footer) :
    ∃ region id, (id, p.stub) ∈ docs.sections region := by
  rw [Placement.all, Placement.ofGroup_header, Placement.ofGroup_footer] at h
  obtain ⟨⟨⟨region, id, stub⟩, index⟩, hmem, rfl⟩ := List.mem_map.1 h
  have hplaced (region' : Region) (hq : (region, id, stub) ∈ docs.placed region') :
      ∃ region id, (id, stub) ∈ docs.sections region :=
    ⟨region', id, Dict.mem_of_get? (Placement.of_mem_ofDocument hq).2⟩
  rcases List.mem_append.1 (List.fst_mem_of_mem_zipIdx hmem) with hq | hq
  · rcases List.mem_append.1 hq with hq | hq
    · exact hplaced .header hq
    · exact hplaced .template hq
  · exact hplaced .footer hq

/-! ### Themes -/

theorem Document.distinct_of_decode {source text : String} {v : Value}
    (h : decode source text = .ok v) : v.Distinct :=
  Json.distinct_of_decodeCommented (except_mapError_eq_ok.1 h)

theorem FileTree.distinct_of_readJson? {t : FileTree} {p : Path} {v : Value}
    (h : t.readJson? p = .ok (some v)) : v.Distinct := by
  obtain ⟨text, -, h⟩ := except_bind_eq_ok.1 h
  cases text with
  | none => cases h
  | some text =>
    obtain ⟨w, hw, h⟩ := except_bind_eq_ok.1 h
    cases h
    exact Document.distinct_of_decode (except_mapError_eq_ok.1 hw)

namespace Theme

variable {theme : Theme} {t : FileTree} {name : String}

theorem distinct_of_readTemplate {p : Path} {template : Template}
    (h : (readTemplate t p).result = .ok template) : ∀ p ∈ template.sections, p.2.Distinct := by
  obtain ⟨text, -, h⟩ := Outcome.bind_eq_ok.1 h
  obtain ⟨v, hv, h⟩ := Outcome.bind_eq_ok.1 h
  exact Template.distinct_of_ofValue (Document.distinct_of_decode (except_mapError_eq_ok.1 hv))
    (except_mapError_eq_ok.1 h)

theorem distinct_of_loadTemplate {template : Template}
    (h : (theme.loadTemplate t name).result = .ok template) :
    ∀ p ∈ template.sections, p.2.Distinct := by
  rw [loadTemplate] at h
  obtain ⟨isNamed, -, h⟩ := Outcome.bind_eq_ok.1 h
  split at h
  · exact distinct_of_readTemplate h
  · split at h
    · cases h
    · obtain ⟨isStandard, -, h⟩ := Outcome.bind_eq_ok.1 h
      split at h
      · obtain ⟨-, -, h⟩ := Outcome.bind_eq_ok.1 h
        exact distinct_of_readTemplate h
      · cases h

theorem distinct_of_loadGroup {kind : String} {group : SectionGroup}
    (h : (theme.loadGroup t kind).result = .ok group) : ∀ p ∈ group.sections, p.2.Distinct := by
  rw [loadGroup] at h
  obtain ⟨found, hfound, h⟩ := Outcome.bind_eq_ok.1 h
  cases found with
  | none =>
    cases h
    exact List.forall_mem_nil _
  | some v =>
    exact SectionGroup.distinct_of_ofValue (FileTree.distinct_of_readJson? hfound)
      (except_mapError_eq_ok.1 h)

theorem HasSchema.distinct {type : String} {schema : SectionSchema}
    (h : theme.HasSchema t type schema) : schema.Distinct := by
  obtain ⟨source, -, hextract⟩ := h
  exact SectionSchema.distinct_of_extract (hextract "section")

/-- All settings of a page of a theme are data with distinct keys. -/
theorem ensures_compose_distinct (theme : Theme) (t : FileTree) (name : String) :
    (theme.compose t name).Ensures SchemaCache.Served fun page =>
      ∀ s ∈ page.sections, s.Distinct := by
  refine .bind (.lift fun _ h => distinct_of_loadTemplate h) fun template htemplate => ?_
  refine .bind (.lift fun _ h => distinct_of_loadGroup h) fun header hheader => ?_
  refine .bind (.lift fun _ h => distinct_of_loadGroup h) fun footer hfooter => ?_
  refine .bind (.mapM fun p hp => ?_) fun sections hsections => .pure hsections
  have hstub : p.stub.Distinct := by
    obtain ⟨region, id, hmem⟩ :=
      Documents.exists_of_mem_all ⟨template, some header, some footer⟩ hp
    cases region with
    | header => exact hheader _ hmem
    | template => exact htemplate _ hmem
    | footer => exact hfooter _ hmem
  refine .bind (theme.ensures_schemaFor t p.stub.type) fun schema hschema => .pure ?_
  exact Placement.distinct_resolve (fun s hs => (hschema s hs).distinct) hstub

end Theme

end Storefront
