import Storefront.Proofs.Theme.Confinement
import Storefront.Proofs.Theme.History

/-!
The catalogue of section files and the sections of pages. Both find the file of a type, the one by
listing names and the other by the type that a document gives. For a file that lies in the sections
directory under a plain name they find the same schema.
-/

namespace Storefront

/-- Where no two elements have the same image, one image is that of one element. -/
theorem filter_eq_singleton {α β : Type} [DecidableEq β] {f : α → β} {l : List α} {a : α}
    (hl : (l.map f).Nodup) (ha : a ∈ l) : l.filter (f · = f a) = [a] := by
  induction l with
  | nil => cases ha
  | cons x l ih =>
    rw [List.map_cons, List.nodup_cons] at hl
    obtain ⟨hx, hl⟩ := hl
    rcases List.mem_cons.1 ha with rfl | ha
    · have hnone : l.filter (f · = f a) = [] := by
        refine List.filter_eq_nil_iff.2 fun b hb heq => hx ?_
        exact of_decide_eq_true heq ▸ List.mem_map_of_mem hb
      rw [List.filter_cons_of_pos (by simp), hnone]
    · have hne : f x ≠ f a := fun heq => hx (heq ▸ List.mem_map_of_mem ha)
      rw [List.filter_cons_of_neg (by simpa using hne), ih hl ha]

/-- Work that is done for each element of a list has results just if it has one for each. -/
theorem exists_mapM_eq_ok_iff {ε α β : Type} {f : α → Outcome ε β} {xs : List α} :
    (∃ ys, (xs.mapM f).result = .ok ys) ↔ ∀ x ∈ xs, ∃ y, (f x).result = .ok y := by
  calc (∃ ys, (xs.mapM f).result = .ok ys)
    _ ↔ xs.map (fun x => (f x).result) ∈ Set.range (List.map .ok) :=
      exists_congr fun _ => Outcome.result_mapM_eq_ok_iff.trans eq_comm
    _ ↔ ∀ r ∈ xs.map fun x => (f x).result, r ∈ Set.range .ok := by
      rw [Set.range_list_map]
      exact Iff.rfl
    _ ↔ ∀ x ∈ xs, ∃ y, (f x).result = .ok y :=
      List.forall_mem_map.trans (forall₂_congr fun _ _ => exists_congr fun _ => eq_comm)

/-- Results that show what they were made from are in the order of the elements. -/
theorem map_of_mapM_eq_ok {ε α β : Type} {f : α → Outcome ε β} {g : β → α} {xs : List α}
    {ys : List β} (hg : ∀ x y, (f x).result = .ok y → g y = x)
    (h : (xs.mapM f).result = .ok ys) : ys.map g = xs := by
  have hmap := Outcome.result_mapM_eq_ok_iff.1 h
  clear h
  induction ys generalizing xs with
  | nil => exact (List.map_eq_nil_iff.1 hmap).symm
  | cons y ys ih =>
    obtain ⟨x, rest, rfl, hx, hrest⟩ := List.map_eq_cons_iff.1 hmap
    rw [List.map_cons, hg x y hx, ih hrest]

/-- What a cache has kept from earlier requests changes no result of work that gives the outcome
whatever has been asked for. -/
theorem SchemaCache.Served.result_eq {α : Type} {work : Session α} {outcome : Outcome Error α}
    {c : SchemaCache} (h : c.Served) (more : List String)
    (hwork : ∀ sources, more ⊆ sources → work.Gives (ServedOf id sources) outcome) :
    (work c).1.result = outcome.result := by
  obtain ⟨past, rfl⟩ := h
  have hserved : ServedOf id (more ++ past.map Request.source) (after id past) :=
    ⟨past, fun r hr => List.mem_append_right _ (List.mem_map_of_mem hr), rfl⟩
  exact (hwork _ (List.subset_append_left _ _) _ hserved).2

namespace Theme

open SchemaCache

/-- The sections directory itself holds the file of a type, which is no link and has the source. -/
def HoldsSection (theme : Theme) (t : FileTree) (type source : String) : Prop :=
  ∃ here bytes, t.locate .existing theme.sectionsDirectory = .ok here ∧
    t.locate .existing (theme.sectionFile type) = .ok (here ++ [type ++ sectionEnding]) ∧
    t.entry? (here ++ [type ++ sectionEnding]) = some (.file bytes) ∧
    Text.ofBytes? bytes = some source

/-- What the source has for a schema, which may be none, whoever asks for it. -/
def GivesSchema (source : String) (schema : Option SectionSchema) : Prop :=
  ∀ name, (SectionSchema.extract name source).result = .ok schema

theorem GivesSchema.unique {source : String} {schema other : Option SectionSchema}
    (h : GivesSchema source schema) (hother : GivesSchema source other) : schema = other :=
  Except.ok.inj ((h "").symm.trans (hother ""))

/-- The file that a type leads to, if there is one, holds a text that has a schema or none. -/
def IsReadable (theme : Theme) (t : FileTree) (type : String) : Prop :=
  ∀ path, (theme.sectionPath t type).result = .ok (some path) →
    ∃ source schema, t.readText path = .ok source ∧ GivesSchema source schema

variable {theme : Theme} {t : FileTree} {type source name : String} {types files : List String}
  {cache : SchemaCache}

/-! ### Names and types -/

theorem isSectionName_append (type : String) : isSectionName (type ++ sectionEnding) = true := by
  rw [isSectionName, Text.endsWith_iff, String.toList_append]
  exact List.suffix_append _ _

theorem typeOfName_append (type : String) : typeOfName (type ++ sectionEnding) = type := by
  rw [typeOfName, String.toList_append, Text.dropEnding_append, String.ofList_toList]

theorem append_sectionEnding (h : isSectionName name = true) :
    typeOfName name ++ sectionEnding = name := by
  obtain ⟨s, hs⟩ := Text.endsWith_iff.1 h
  have hname : name = String.ofList s ++ sectionEnding := by
    rw [← String.toList_inj, String.toList_append, String.toList_ofList, hs]
  rw [hname, typeOfName_append]

theorem sectionTypes_eq_ok_iff : theme.sectionTypes t = .ok types ↔
    ∃ files, t.filesIn theme.sectionsDirectory isSectionName = .ok files ∧
      types = Text.sorted (files.map typeOfName) := by
  rw [sectionTypes, except_bind_eq_ok]
  refine exists_congr fun files => and_congr except_mapError_eq_ok ?_
  exact ⟨fun h => (Except.ok.inj h).symm, fun h => congrArg Except.ok h.symm⟩

theorem mem_types_iff (hfiles : t.filesIn theme.sectionsDirectory isSectionName = .ok files) :
    type ∈ Text.sorted (files.map typeOfName) ↔ type ++ sectionEnding ∈ files := by
  rw [(Text.sorted_perm _).mem_iff, List.mem_map]
  constructor
  · rintro ⟨name, hname, rfl⟩
    rwa [append_sectionEnding (FileTree.of_mem_filesIn hfiles hname).1]
  · exact fun h => ⟨_, h, typeOfName_append type⟩

theorem isFile_of_mem_sectionTypes (htypes : theme.sectionTypes t = .ok types) (h : type ∈ types) :
    t.isFile (theme.sectionFile type) = .ok true := by
  obtain ⟨files, hfiles, rfl⟩ := sectionTypes_eq_ok_iff.1 htypes
  exact (FileTree.of_mem_filesIn hfiles ((mem_types_iff hfiles).1 h)).2

theorem nodup_sectionTypes (ht : t.Distinct) (htypes : theme.sectionTypes t = .ok types) :
    types.Nodup := by
  obtain ⟨files, hfiles, rfl⟩ := sectionTypes_eq_ok_iff.1 htypes
  rw [(Text.sorted_perm _).nodup_iff]
  refine (ht.nodup_filesIn hfiles).map_on fun name hname other hother heq => ?_
  rw [← append_sectionEnding (FileTree.of_mem_filesIn hfiles hname).1, heq,
    append_sectionEnding (FileTree.of_mem_filesIn hfiles hother).1]

theorem mem_sectionTypes {here : Location} {bytes : ByteArray}
    (hhere : t.locate .existing theme.sectionsDirectory = .ok here)
    (hplace : t.locate .existing (theme.sectionFile type) = .ok (here ++ [type ++ sectionEnding]))
    (hentry : t.entry? (here ++ [type ++ sectionEnding]) = some (.file bytes))
    (htypes : theme.sectionTypes t = .ok types) : type ∈ types := by
  obtain ⟨files, hfiles, rfl⟩ := sectionTypes_eq_ok_iff.1 htypes
  refine (mem_types_iff hfiles).2 ?_
  exact FileTree.mem_filesIn hhere hplace hentry (isSectionName_append type) hfiles

theorem HoldsSection.mem_sectionTypes (h : theme.HoldsSection t type source)
    (htypes : theme.sectionTypes t = .ok types) : type ∈ types := by
  obtain ⟨here, bytes, hhere, hplace, hentry, -⟩ := h
  exact Theme.mem_sectionTypes hhere hplace hentry htypes

/-! ### Sources -/

/-- A type whose file is found has a path or is refused; the links to the file are no circle. -/
theorem exists_sectionPath (hfile : t.isFile (theme.sectionFile type) = .ok true) :
    ∃ path, (theme.sectionPath t type).result = .ok path ∧
      ∀ p ∈ path, p = theme.sectionFile type := by
  cases hplain : isPlainType type with
  | false => exact ⟨none, sectionPath_of_not_plain hplain, fun p hp => by cases hp⟩
  | true =>
    obtain ⟨place, bytes, hplace, -⟩ := FileTree.isFile_eq_true_iff.1 hfile
    obtain ⟨directory, hdirectory, -⟩ := FileTree.exists_directory_of_locate hplace
    refine ⟨_, (sectionPath_eq_ok_iff hplain).2
      ⟨directory, place, hdirectory, FileTree.resolves_of_locate hplace, rfl⟩, fun p hp => ?_⟩
    split at hp
    · exact (Option.some.inj hp).symm
    · cases hp

theorem sectionSource_of_path {path : Path}
    (hpath : (theme.sectionPath t type).result = .ok (some path))
    (hfile : t.isFile path = .ok true) :
    (theme.sectionSource t type).result = (t.readText path).map some := by
  rw [sectionSource, Outcome.result_bind_of_ok hpath]
  show t.readText? path = _
  rw [FileTree.readText?, hfile]
  rfl

theorem sectionSource_of_no_path (hpath : (theme.sectionPath t type).result = .ok none) :
    (theme.sectionSource t type).result = .ok none :=
  Outcome.bind_eq_ok.2 ⟨none, hpath, rfl⟩

theorem currentSchema_of_source
    (h : (theme.sectionSource t type).result = .ok (some source)) :
    (theme.currentSchema t type).result =
      (SectionSchema.extract "section" source).result.mapError .schema := by
  rw [currentSchema, Outcome.result_bind_of_ok h]
  rfl

/-- The schema of a listed type is found just if the file that it leads to can be read. -/
theorem exists_currentSchema_iff (hfile : t.isFile (theme.sectionFile type) = .ok true) :
    (∃ schema, (theme.currentSchema t type).result = .ok schema) ↔ theme.IsReadable t type := by
  obtain ⟨path, hpath, hfound⟩ := exists_sectionPath hfile
  cases path with
  | none =>
    have hschema : (theme.currentSchema t type).result = .ok none :=
      Outcome.bind_eq_ok.2 ⟨none, sectionSource_of_no_path hpath, rfl⟩
    refine ⟨fun _ p hp => ?_, fun _ => ⟨none, hschema⟩⟩
    cases hpath.symm.trans hp
  | some path =>
    cases hfound path rfl
    have hsource := sectionSource_of_path hpath hfile
    constructor
    · rintro ⟨schema, hschema⟩ p hp
      cases hpath.symm.trans hp
      obtain ⟨source, hread, -⟩ := Outcome.bind_eq_ok.1 hschema
      obtain ⟨source, htext, rfl⟩ := except_map_eq_ok.1 (hsource.symm.trans hread)
      rw [currentSchema_of_source hread] at hschema
      refine ⟨source, schema, htext, fun name => ?_⟩
      rw [SectionSchema.result_extract name "section"]
      exact except_mapError_eq_ok.1 hschema
    · intro hreadable
      obtain ⟨source, schema, hread, hextract⟩ := hreadable _ hpath
      rw [hread] at hsource
      exact ⟨schema, (currentSchema_of_source hsource).trans
        (except_mapError_eq_ok.2 (hextract "section"))⟩

/-- The file of a plain type is used where it lies in the directory itself. -/
theorem HoldsSection.sectionSource_eq (h : theme.HoldsSection t type source)
    (hplain : isPlainType type = true) :
    (theme.sectionSource t type).result = .ok (some source) := by
  obtain ⟨here, bytes, hhere, hplace, hentry, htext⟩ := h
  have hpath : (theme.sectionPath t type).result = .ok (some (theme.sectionFile type)) :=
    sectionPath_eq_some_iff.2 ⟨rfl, hplain, here, _, FileTree.resolves_of_locate hhere,
      FileTree.resolves_of_locate hplace, List.prefix_append _ _⟩
  have hfile := FileTree.isFile_eq_true_iff.2 ⟨_, bytes, hplace, hentry⟩
  rw [sectionSource_of_path hpath hfile, FileTree.readText_eq_ok_iff.2 ⟨_, _, hplace, hentry, htext⟩]
  rfl

theorem HoldsSection.givesSchema (h : theme.HoldsSection t type source)
    (hplain : isPlainType type = true) {schema : Option SectionSchema}
    (hschema : (theme.currentSchema t type).result = .ok schema) : GivesSchema source schema := by
  intro name
  rw [currentSchema_of_source (h.sectionSource_eq hplain)] at hschema
  rw [SectionSchema.result_extract name "section"]
  exact except_mapError_eq_ok.1 hschema

/-! ### Catalogues and pages -/

theorem result_schemaFor (hcache : cache.Served) (theme : Theme) (t : FileTree) (type : String) :
    (theme.schemaFor t type cache).1.result = (theme.currentSchema t type).result := by
  refine hcache.result_eq (theme.source? t type).toList fun sources hsources => ?_
  rw [← schemaForBy_id]
  exact gives_schemaForBy (fun s _ s' _ heq => heq) fun s hs => hsources (Option.mem_toList.2 hs)

theorem result_catalog (hcache : cache.Served) (theme : Theme) (t : FileTree) :
    (theme.catalog t cache).1.result = (theme.currentCatalog t).result := by
  refine hcache.result_eq (theme.sourcesOf t (Event.catalog.types theme t))
    fun sources hsources => ?_
  rw [← catalogBy_id]
  refine gives_catalogBy (fun s _ s' _ heq => heq) fun types htypes => ?_
  rwa [Event.types_catalog htypes] at hsources

theorem result_compose (hcache : cache.Served) (theme : Theme) (t : FileTree) (name : String) :
    (theme.compose t name cache).1.result =
      (theme.documents t name >>= theme.currentPage t).result := by
  refine hcache.result_eq (theme.sourcesOf t ((Event.compose name).types theme t))
    fun sources hsources => ?_
  rw [← composeBy_id]
  refine gives_composeBy (fun s _ s' _ heq => heq) fun docs hdocs => ?_
  rwa [Event.types_compose hdocs] at hsources

/-- The entries are those of the types in their order, each with the schema of its type. -/
theorem of_currentCatalog {entries : List SectionInfo}
    (h : (theme.currentCatalog t).result = .ok entries) :
    theme.sectionTypes t = .ok (entries.map (·.type)) ∧ ∀ entry ∈ entries, ∃ schema,
      (theme.currentSchema t entry.type).result = .ok schema ∧
        entry = .ofSchema entry.type schema := by
  obtain ⟨types, htypes, h⟩ := Outcome.bind_eq_ok.1 h
  have hmade : ∀ {type entry}, (do
      return SectionInfo.ofSchema type (← theme.currentSchema t type) :
        Outcome Error SectionInfo).result = .ok entry →
      ∃ schema, (theme.currentSchema t type).result = .ok schema ∧
        entry = .ofSchema type schema := by
    intro type entry h
    obtain ⟨schema, hschema, h⟩ := Outcome.bind_eq_ok.1 h
    exact ⟨schema, hschema, (Except.ok.inj h).symm⟩
  constructor
  · rw [map_of_mapM_eq_ok (fun type entry hentry => ?_) h]
    · exact htypes
    · obtain ⟨schema, -, rfl⟩ := hmade hentry
      rfl
  · intro entry hentry
    obtain ⟨type, -, htype⟩ := Outcome.exists_of_mem_mapM h hentry
    obtain ⟨schema, hschema, rfl⟩ := hmade htype
    exact ⟨schema, hschema, rfl⟩

/-- The catalogue is given just if types can be listed and each file that is used can be read. -/
theorem exists_catalog_iff (hcache : cache.Served) :
    (∃ entries, (theme.catalog t cache).1.result = .ok entries) ↔
      ∃ types, theme.sectionTypes t = .ok types ∧ ∀ type ∈ types, theme.IsReadable t type := by
  simp only [result_catalog hcache, currentCatalog, Outcome.bind_eq_ok]
  rw [exists_comm]
  refine exists_congr fun types => exists_and_left.trans (and_congr_right fun htypes => ?_)
  rw [exists_mapM_eq_ok_iff]
  refine forall₂_congr fun type htype => ?_
  rw [← exists_currentSchema_iff (isFile_of_mem_sectionTypes htypes htype)]
  simp only [bind_pure_comp, Outcome.result_map, except_map_eq_ok]
  exact ⟨fun ⟨_, schema, hschema, _⟩ => ⟨schema, hschema⟩,
    fun ⟨schema, hschema⟩ => ⟨_, schema, hschema, rfl⟩⟩

/-- The sections of a page that is composed have the schemas of their types. -/
theorem of_currentPage {docs : Documents} {page : Page}
    (h : (theme.currentPage t docs).result = .ok page) {s : SectionInstance}
    (hs : s ∈ page.sections) : ∃ p ∈ Placement.all docs.template docs.header docs.footer,
      ∃ schema, (theme.currentSchema t p.stub.type).result = .ok schema ∧
        s = p.resolve schema := by
  obtain ⟨sections, hsections, h⟩ := Outcome.bind_eq_ok.1 h
  cases h
  obtain ⟨p, hp, hresolved⟩ := Outcome.exists_of_mem_mapM hsections hs
  obtain ⟨schema, hschema, hresolved⟩ := Outcome.bind_eq_ok.1 hresolved
  exact ⟨p, hp, schema, hschema, (Except.ok.inj hresolved).symm⟩

/-- A page is composed just if its documents can be read and each of its types has a schema or
none. -/
theorem exists_compose_iff (hcache : cache.Served) :
    (∃ page, (theme.compose t name cache).1.result = .ok page) ↔
      ∃ docs, (theme.documents t name).result = .ok docs ∧
        ∀ p ∈ Placement.all docs.template docs.header docs.footer,
          ∃ schema, (theme.schemaFor t p.stub.type cache).1.result = .ok schema := by
  simp only [result_compose hcache, result_schemaFor hcache, Outcome.bind_eq_ok]
  rw [exists_comm]
  refine exists_congr fun docs => exists_and_left.trans (and_congr_right fun _ => ?_)
  have hsections : (∃ page, (theme.currentPage t docs).result = .ok page) ↔
      ∃ sections, ((Placement.all docs.template docs.header docs.footer).mapM fun p => do
        return p.resolve (← theme.currentSchema t p.stub.type) :
          Outcome Error (List SectionInstance)).result = .ok sections := by
    simp only [currentPage, Page.compose, Outcome.bind_eq_ok]
    exact ⟨fun ⟨_, sections, h, _⟩ => ⟨sections, h⟩, fun ⟨sections, h⟩ => ⟨_, sections, h, rfl⟩⟩
  rw [hsections, exists_mapM_eq_ok_iff]
  refine forall₂_congr fun p _ => ?_
  simp only [bind_pure_comp, Outcome.result_map, except_map_eq_ok]
  exact ⟨fun ⟨_, schema, hschema, _⟩ => ⟨schema, hschema⟩,
    fun ⟨schema, hschema⟩ => ⟨_, schema, hschema, rfl⟩⟩

/-- The type is listed once, and wherever its schema is shown it is that of the source. -/
structure Covers (theme : Theme) (t : FileTree) (cache : SchemaCache) (type source : String) :
    Prop where
  listed : ∀ entries, (theme.catalog t cache).1.result = .ok entries →
    ∃ schema, GivesSchema source schema ∧
      entries.filter (·.type = type) = [.ofSchema type schema]
  /-- The schema that composition asks for, also where there is an error in its place. -/
  found : ∀ name, (theme.schemaFor t type cache).1.result =
    (SectionSchema.extract name source).result.mapError .schema
  composed : ∀ name page, (theme.compose t name cache).1.result = .ok page →
    ∀ s ∈ page.sections, s.type = type →
      ∃ docs, (theme.documents t name).result = .ok docs ∧
        ∃ p ∈ Placement.all docs.template docs.header docs.footer,
          ∃ schema, GivesSchema source schema ∧ s = p.resolve schema

theorem HoldsSection.covers (h : theme.HoldsSection t type source)
    (hplain : isPlainType type = true) (ht : t.Distinct) (hcache : cache.Served) :
    theme.Covers t cache type source where
  listed entries hentries := by
    rw [result_catalog hcache] at hentries
    obtain ⟨htypes, hall⟩ := of_currentCatalog hentries
    obtain ⟨entry, hentry, rfl⟩ := List.mem_map.1 (h.mem_sectionTypes htypes)
    obtain ⟨schema, hschema, heq⟩ := hall entry hentry
    refine ⟨schema, h.givesSchema hplain hschema, ?_⟩
    rw [filter_eq_singleton (nodup_sectionTypes ht htypes) hentry, ← heq]
  found name := by
    rw [result_schemaFor hcache, currentSchema_of_source (h.sectionSource_eq hplain),
      SectionSchema.result_extract name "section"]
  composed name page hpage s hs htype := by
    rw [result_compose hcache] at hpage
    obtain ⟨docs, hdocs, hpage⟩ := Outcome.bind_eq_ok.1 hpage
    obtain ⟨p, hp, schema, hschema, rfl⟩ := of_currentPage hpage hs
    cases htype
    exact ⟨docs, hdocs, p, hp, schema, h.givesSchema hplain hschema, rfl⟩

/-- The catalogue covers the section files that lie in the sections directory under plain names,
and composition takes their sections to have the schemas that are listed. -/
theorem catalog_covers (ht : t.Distinct) (hcache : cache.Served) :
    ((∃ entries, (theme.catalog t cache).1.result = .ok entries) ↔
      ∃ types, theme.sectionTypes t = .ok types ∧ ∀ type ∈ types, theme.IsReadable t type) ∧
    (∀ name, (∃ page, (theme.compose t name cache).1.result = .ok page) ↔
      ∃ docs, (theme.documents t name).result = .ok docs ∧
        ∀ p ∈ Placement.all docs.template docs.header docs.footer,
          ∃ schema, (theme.schemaFor t p.stub.type cache).1.result = .ok schema) ∧
    ∀ type source, isPlainType type = true → theme.HoldsSection t type source →
      theme.Covers t cache type source :=
  ⟨exists_catalog_iff hcache, fun _ => exists_compose_iff hcache,
    fun _ _ hplain hholds => hholds.covers hplain ht hcache⟩

/-- The only section file of a theme, in a directory that is reached through a link. -/
theorem catalog_covers_linked :
    let theme : Theme := ⟨⟨0, ["theme"]⟩⟩
    let text := "\x7b% schema %\x7d\x7b\"name\":\"Hero\"\x7d\x7b% endschema %\x7d"
    let index :=
      "\x7b\"sections\":\x7b\"a\":\x7b\"type\":\"hero.v-2\"\x7d\x7d,\"order\":[\"a\"]\x7d"
    let t : FileTree :=
      { workingDirectory := ["home"]
        entries := [(["home", "theme"], .directory),
          (["home", "theme", "sections"], .link ⟨0, ["real"]⟩),
          (["home", "theme", "real"], .directory),
          (["home", "theme", "real", "hero.v-2.liquid"], .file text.toUTF8),
          (["home", "theme", "templates"], .directory),
          (["home", "theme", "templates", "index.json"], .file index.toUTF8)] }
    theme.HoldsSection t "hero.v-2" text ∧ ∃ schema, GivesSchema text schema ∧
      (∃ entries, (theme.catalog t .empty).1.result = .ok entries ∧
        entries.filter (·.type = "hero.v-2") = [.ofSchema "hero.v-2" schema]) ∧
      ∃ page, (theme.compose t "index" .empty).1.result = .ok page ∧
        page.sections.map (·.schema) = [schema] := by
  intro theme text index t
  have hholds : theme.HoldsSection t "hero.v-2" text := by
    refine ⟨["home", "theme", "real"], text.toUTF8, ?_, ?_, rfl, by decide +kernel⟩
    · exact except_eq_ok_of_toOption (by decide +kernel)
    · exact except_eq_ok_of_toOption (by decide +kernel)
  obtain ⟨-, -, hcovers⟩ := theme.catalog_covers (t := t) (by decide) SchemaCache.served_empty
  obtain ⟨hcatalog, -, hcompose⟩ := hcovers "hero.v-2" text (by decide) hholds
  have hentries : (theme.catalog t .empty).1.result.toOption.isSome = true := by decide +kernel
  obtain ⟨entries, hentries⟩ := Option.isSome_iff_exists.1 hentries
  have hentries := except_eq_ok_of_toOption hentries
  obtain ⟨schema, hschema, hfilter⟩ := hcatalog entries hentries
  have htypes : ((theme.compose t "index" .empty).1.result.toOption.map fun page =>
      page.sections.map (·.type)) = some ["hero.v-2"] := by
    decide +kernel
  obtain ⟨page, hpage, htypes⟩ := Option.map_eq_some_iff.1 htypes
  have hpage := except_eq_ok_of_toOption hpage
  obtain ⟨s, hs, htype⟩ := List.map_eq_singleton_iff.1 htypes
  obtain ⟨docs, -, p, -, schema', hschema', rfl⟩ :=
    hcompose "index" page hpage s (hs ▸ List.mem_cons_self) htype
  refine ⟨hholds, schema, hschema, ⟨entries, hentries, hfilter⟩, page, hpage, ?_⟩
  rw [hs, hschema.unique hschema']
  rfl

/-- A type with a blank is listed without the schema that its file has, and where another section
file is no text nothing is listed. -/
theorem not_covers_blank :
    let theme : Theme := ⟨⟨0, ["theme"]⟩⟩
    let text := "\x7b% schema %\x7d\x7b\"name\":\"Hero\"\x7d\x7b% endschema %\x7d"
    let tree := fun files : List (String × ByteArray) => ({
        workingDirectory := ["home"]
        entries := [(["home", "theme"], .directory), (["home", "theme", "sections"], .directory)] ++
          files.map fun (name, bytes) => (["home", "theme", "sections", name], .file bytes) } :
      FileTree)
    let blank := tree [("my hero.liquid", text.toUTF8)]
    let raw := tree [("hero.liquid", text.toUTF8), ("raw.liquid", ⟨#[255]⟩)]
    (∃ schema, GivesSchema text (some schema)) ∧
      (theme.HoldsSection blank "my hero" text ∧
        ∃ entries, (theme.catalog blank .empty).1.result = .ok entries ∧
          entries.map (fun entry => (entry.type, entry.schema.isSome)) = [("my hero", false)]) ∧
      theme.HoldsSection raw "hero" text ∧
        ¬∃ entries, (theme.catalog raw .empty).1.result = .ok entries := by
  intro theme text tree blank raw
  have holds (t : FileTree) (name : String)
      (hhere : (t.locate .existing theme.sectionsDirectory).toOption =
        some ["home", "theme", "sections"])
      (hplace : (t.locate .existing (theme.sectionFile name)).toOption =
        some ["home", "theme", "sections", name ++ sectionEnding])
      (hentry : t.entry? ["home", "theme", "sections", name ++ sectionEnding] =
        some (.file text.toUTF8)) : theme.HoldsSection t name text :=
    ⟨_, _, except_eq_ok_of_toOption hhere, except_eq_ok_of_toOption hplace, hentry,
      by decide +kernel⟩
  refine ⟨?schema, ⟨holds blank "my hero" ?_ ?_ rfl, ?listed⟩, holds raw "hero" ?_ ?_ rfl, ?raw⟩
  case schema =>
    have hsome : (SectionSchema.extract "" text).result.toOption.map Option.isSome = some true := by
      decide +kernel
    obtain ⟨found, hfound, hsome⟩ := Option.map_eq_some_iff.1 hsome
    obtain ⟨schema, rfl⟩ := Option.isSome_iff_exists.1 hsome
    refine ⟨schema, fun name => ?_⟩
    rw [SectionSchema.result_extract name ""]
    exact except_eq_ok_of_toOption hfound
  case listed =>
    have hlisted : ((theme.catalog blank .empty).1.result.toOption.map fun entries =>
        entries.map fun entry => (entry.type, entry.schema.isSome)) =
          some [("my hero", false)] := by
      decide +kernel
    obtain ⟨entries, hentries, hlisted⟩ := Option.map_eq_some_iff.1 hlisted
    exact ⟨entries, except_eq_ok_of_toOption hentries, hlisted⟩
  case raw =>
    rw [exists_catalog_iff SchemaCache.served_empty]
    rintro ⟨types, htypes, hreadable⟩
    have hpath : (theme.sectionPath raw "raw").result.toOption =
        some (some (theme.sectionFile "raw")) := by
      decide +kernel
    have hmem : "raw" ∈ types :=
      mem_sectionTypes (except_eq_ok_of_toOption (a := ["home", "theme", "sections"])
        (by decide +kernel)) (except_eq_ok_of_toOption (by decide +kernel)) rfl htypes
    obtain ⟨source, schema, hread, -⟩ := hreadable "raw" hmem _ (except_eq_ok_of_toOption hpath)
    have hnone : (raw.readText (theme.sectionFile "raw")).toOption = none := by decide +kernel
    rw [hread] at hnone
    cases hnone
  all_goals decide +kernel

end Theme

end Storefront
