import Storefront.Proofs.FileTree.Listing
import Storefront.Proofs.Theme.Session

/-!
Section files lie below the sections directory. The type of a section comes from a document, but
whatever it is and however links lead through the tree, no file is read for it but one that lies in
the sections directory itself once all links are followed, under the name of the type.
-/

namespace Storefront.Theme

variable {theme : Theme} {t : FileTree} {type source : String}

/-- The path of the file that a type names. -/
def sectionFile (theme : Theme) (type : String) : Path :=
  theme.sectionsDirectory.child (type ++ sectionEnding)

/-- The sections directory holds a file with the source under the name of the type. -/
structure HasSection (theme : Theme) (t : FileTree) (type source : String) : Prop where
  /-- The name is that of an entry of the directory, and not hidden. -/
  plain : type.toList ≠ [] ∧ type.toList.head? ≠ some '.' ∧ '/' ∉ type.toList ∧ '\\' ∉ type.toList
  /-- Links followed, the file lies below the directory. -/
  inside : ∃ directory rest bytes, t.Resolves theme.sectionsDirectory directory ∧
    t.Resolves (theme.sectionFile type) (directory ++ rest) ∧ rest ≠ [] ∧
    t.entry? (directory ++ rest) = some (.file bytes) ∧ Text.ofBytes? bytes = some source

/-- A file of the sections directory under the name of the type has the schema. -/
def HasSchema (theme : Theme) (t : FileTree) (type : String) (schema : SectionSchema) : Prop :=
  ∃ source, theme.HasSection t type source ∧
    ∀ name, (SectionSchema.extract name source).result = .ok (some schema)

/-- A type that names no file of the sections directory. -/
inductive Escapes (theme : Theme) (t : FileTree) (type : String) : Prop
  | separated (h : '/' ∈ type.toList ∨ '\\' ∈ type.toList)
  | hidden (h : type.toList.head? = some '.')
  | outside {directory place : Location} (hdirectory : t.Resolves theme.sectionsDirectory directory)
      (hplace : t.Resolves (theme.sectionFile type) place) (h : ¬directory <+: place)

theorem plain_of_isPlainType (h : isPlainType type = true) :
    type.toList ≠ [] ∧ type.toList.head? ≠ some '.' ∧ '/' ∉ type.toList ∧ '\\' ∉ type.toList := by
  rw [isPlainType] at h
  cases hs : type.toList with
  | nil => simp [hs] at h
  | cons c s =>
    simp only [hs, Bool.and_eq_true, decide_eq_true_eq, List.all_eq_true] at h
    obtain ⟨hdot, hchars⟩ := h
    have hslash : isTypeChar '/' = false := by decide
    have hbackslash : isTypeChar '\\' = false := by decide
    refine ⟨List.cons_ne_nil c s, by simpa using hdot, fun hmem => ?_, fun hmem => ?_⟩
    · rw [hchars _ hmem] at hslash
      cases hslash
    · rw [hchars _ hmem] at hbackslash
      cases hbackslash

/-! ### The path of a section -/

theorem resolved_eq_ok_iff {p : Path} {place : Location} :
    resolved t p = .ok place ↔ t.Resolves p place := by
  have hiff : t.Resolves p place ↔ t.takes p = true ∧ t.resolve p = some place :=
    ⟨fun h => ⟨h.taken, FileTree.resolve_eq_some_iff.2 h.leads⟩,
      fun h => ⟨h.1, FileTree.resolve_eq_some_iff.1 h.2⟩⟩
  rw [hiff, resolved]
  cases t.takes p with
  | false => simp
  | true => cases t.resolve p <;> simp

theorem sectionPath_of_not_plain (h : isPlainType type = false) :
    (theme.sectionPath t type).result = .ok none := by
  rw [sectionPath, h]
  rfl

/-- The file of a plain type is used just if it lies where the directory leads or below. -/
theorem sectionPath_eq_ok_iff (hplain : isPlainType type = true) {path : Option Path} :
    (theme.sectionPath t type).result = .ok path ↔
      ∃ directory place, t.Resolves theme.sectionsDirectory directory ∧
        t.Resolves (theme.sectionFile type) place ∧
        path = if directory <+: place then some (theme.sectionFile type) else none := by
  have hdecide (directory place : Location) : (if directory.isPrefixOf place then
      pure (some (theme.sectionFile type))
    else do
      Outcome.warn (.outsideDirectory type theme.sectionsDirectory.text)
      return none : Outcome Error (Option Path)).result =
        .ok (if directory <+: place then some (theme.sectionFile type) else none) := by
    by_cases h : directory <+: place
    · rw [if_pos h, if_pos (List.isPrefixOf_iff_prefix.2 h)]
      rfl
    · rw [if_neg h, if_neg (fun hb => h (List.isPrefixOf_iff_prefix.1 hb))]
      rfl
  rw [sectionPath, hplain]
  constructor
  · intro h
    obtain ⟨place, hplace, h⟩ := Outcome.bind_eq_ok.1 h
    obtain ⟨directory, hdirectory, h⟩ := Outcome.bind_eq_ok.1 h
    exact ⟨directory, place, resolved_eq_ok_iff.1 hdirectory, resolved_eq_ok_iff.1 hplace,
      Except.ok.inj (h.symm.trans (hdecide directory place))⟩
  · rintro ⟨directory, place, hdirectory, hplace, rfl⟩
    exact Outcome.bind_eq_ok.2 ⟨place, resolved_eq_ok_iff.2 hplace, Outcome.bind_eq_ok.2
      ⟨directory, resolved_eq_ok_iff.2 hdirectory, hdecide directory place⟩⟩

/-- A path is given just for a plain type whose file lies inside. -/
theorem sectionPath_eq_some_iff {path : Path} :
    (theme.sectionPath t type).result = .ok (some path) ↔
      path = theme.sectionFile type ∧ isPlainType type = true ∧
        ∃ directory place, t.Resolves theme.sectionsDirectory directory ∧
          t.Resolves (theme.sectionFile type) place ∧ directory <+: place := by
  cases hplain : isPlainType type with
  | false => simp [sectionPath_of_not_plain hplain]
  | true =>
    rw [sectionPath_eq_ok_iff hplain]
    constructor
    · rintro ⟨directory, place, hdirectory, hplace, h⟩
      split at h
      · next hinside =>
        cases h
        exact ⟨rfl, rfl, directory, place, hdirectory, hplace, hinside⟩
      · cases h
    · rintro ⟨rfl, -, directory, place, hdirectory, hplace, hinside⟩
      exact ⟨directory, place, hdirectory, hplace, (if_pos hinside).symm⟩

theorem Escapes.sectionPath_eq (h : theme.Escapes t type) :
    (theme.sectionPath t type).result = .ok none := by
  cases hplain : isPlainType type with
  | false => exact sectionPath_of_not_plain hplain
  | true =>
    obtain ⟨-, hdot, hslash, hbackslash⟩ := plain_of_isPlainType hplain
    cases h with
    | separated h => exact absurd h (not_or.2 ⟨hslash, hbackslash⟩)
    | hidden h => exact absurd h hdot
    | outside hdirectory hplace h =>
      exact (sectionPath_eq_ok_iff hplain).2 ⟨_, _, hdirectory, hplace, (if_neg h).symm⟩

/-! ### The file of a section -/

theorem hasSection_of_sectionSource (h : (theme.sectionSource t type).result = .ok (some source)) :
    theme.HasSection t type source := by
  obtain ⟨path, hpath, h⟩ := Outcome.bind_eq_ok.1 h
  cases path with
  | none => cases h
  | some path =>
    obtain ⟨rfl, hplain, directory, place, hdirectory, hplace, hinside⟩ :=
      sectionPath_eq_some_iff.1 hpath
    obtain ⟨found, bytes, hlocate, hentry, hbytes⟩ :=
      FileTree.readText_eq_ok_iff.1 (FileTree.readText_of_readText? h)
    cases hplace.unique (FileTree.resolves_of_locate hlocate)
    obtain ⟨rest, rfl⟩ := hinside
    refine ⟨plain_of_isPlainType hplain, directory, rest, bytes, hdirectory, hplace, ?_, hentry,
      hbytes⟩
    rintro rfl
    -- The directory that the file is found in is no file.
    obtain ⟨middle, hmiddle, hisDirectory⟩ := FileTree.exists_directory_of_locate hlocate
    cases hdirectory.unique hmiddle
    rw [List.append_nil] at hentry
    rw [FileTree.isDirectoryAt, hentry] at hisDirectory
    cases hisDirectory

theorem Escapes.sectionSource_eq (h : theme.Escapes t type) :
    (theme.sectionSource t type).result = .ok none :=
  Outcome.bind_eq_ok.2 ⟨none, h.sectionPath_eq, rfl⟩

/-! ### The schema of a section -/

theorem ensures_schemaFor (theme : Theme) (t : FileTree) (type : String) :
    (theme.schemaFor t type).Ensures SchemaCache.Served fun schema =>
      ∀ s ∈ schema, theme.HasSchema t type s := by
  refine .bind (P := fun _ => True) (.lift fun _ _ => trivial) fun path _ => ?_
  refine .bind (.lift fun source h => h) fun source hsource => ?_
  have hnone : (pure none : Session (Option SectionSchema)).Ensures SchemaCache.Served fun schema =>
      ∀ s ∈ schema, theme.HasSchema t type s := .pure fun s hs => by cases hs
  cases path with
  | none => exact hnone
  | some path =>
    cases source with
    | none => exact hnone
    | some source =>
      intro c hc
      obtain ⟨hserved, hresult⟩ := ensures_cachedSchema path.text source c hc
      refine ⟨hserved, fun schema hschema s hs => ?_⟩
      cases hs
      exact ⟨source, hasSection_of_sectionSource hsource, hresult _ hschema⟩

theorem Escapes.schemaFor_eq (h : theme.Escapes t type) (c : SchemaCache) :
    (theme.schemaFor t type c).1.result = .ok none := by
  rw [schemaFor, Session.result_lift_bind h.sectionPath_eq,
    Session.result_lift_bind h.sectionSource_eq]
  rfl

/-- A page has just the schemas that files of the sections directory have. -/
theorem ensures_compose (theme : Theme) (t : FileTree) (name : String) :
    (theme.compose t name).Ensures SchemaCache.Served fun page =>
      ∀ s ∈ page.sections, ∀ schema ∈ s.schema, theme.HasSchema t s.type schema := by
  have hany {α : Type} (x : Outcome Error α) :
      (Session.lift x).Ensures SchemaCache.Served fun _ => True := .lift fun _ _ => trivial
  have hsection (p : Placement) :
      (do return p.resolve (← theme.schemaFor t p.stub.type) : Session SectionInstance).Ensures
        SchemaCache.Served fun s => ∀ schema ∈ s.schema, theme.HasSchema t s.type schema :=
    .bind (theme.ensures_schemaFor t p.stub.type) fun _ hschema => .pure hschema
  refine .bind (hany _) fun template _ => .bind (hany _) fun header _ => ?_
  refine .bind (hany _) fun footer _ => .bind (.mapM fun p _ => hsection p) fun sections h => ?_
  exact .pure h

/-- Whatever the type of a section, no file is read for it but one of the sections directory: a path
is given just for a plain name whose file lies inside once all links are followed, the source is
that of such a file, and so is each schema, also on composed pages. Types that name no file of the
directory have no path, no source and no schema. -/
theorem sections_confined (theme : Theme) (t : FileTree) :
    (∀ type path, (theme.sectionPath t type).result = .ok (some path) ↔
      path = theme.sectionFile type ∧ isPlainType type = true ∧
        ∃ directory place, t.Resolves theme.sectionsDirectory directory ∧
          t.Resolves (theme.sectionFile type) place ∧ directory <+: place) ∧
    (∀ type source, (theme.sectionSource t type).result = .ok (some source) →
      theme.HasSection t type source) ∧
    (∀ cache : SchemaCache, cache.Served → ∀ type schema,
      (theme.schemaFor t type cache).1.result = .ok (some schema) →
        theme.HasSchema t type schema) ∧
    (∀ type, theme.Escapes t type → (theme.sectionPath t type).result = .ok none ∧
      (theme.sectionSource t type).result = .ok none ∧
      ∀ cache, (theme.schemaFor t type cache).1.result = .ok none) ∧
    ∀ cache : SchemaCache, cache.Served → ∀ name page,
      (theme.compose t name cache).1.result = .ok page →
        ∀ s ∈ page.sections, ∀ schema ∈ s.schema, theme.HasSchema t s.type schema := by
  refine ⟨fun type path => sectionPath_eq_some_iff, fun type source => hasSection_of_sectionSource,
    ?_, fun type h => ⟨h.sectionPath_eq, h.sectionSource_eq, h.schemaFor_eq⟩, ?_⟩
  · intro cache hcache type schema h
    exact (theme.ensures_schemaFor t type cache hcache).2 _ h schema rfl
  · intro cache hcache name page h
    exact (theme.ensures_compose t name cache hcache).2 page h

/-- The sections directory is a link itself. Of two links in it one stays inside and is used, also by
a page; the other one leads out and is not. -/
theorem sections_confined_links :
    let theme : Theme := ⟨⟨0, ["theme"]⟩⟩
    let text := "\x7b% schema %\x7d\x7b\x7d\x7b% endschema %\x7d"
    let index := "\x7b\"sections\":\x7b\"a\":\x7b\"type\":\"hero\"\x7d\x7d,\"order\":[\"a\"]\x7d"
    let t : FileTree :=
      { workingDirectory := ["home"]
        entries := [(["home", "theme"], .directory), (["home", "secret.liquid"], .file text.toUTF8),
          (["home", "theme", "sections"], .link ⟨0, ["real"]⟩),
          (["home", "theme", "real"], .directory),
          (["home", "theme", "real", "main.liquid"], .file text.toUTF8),
          (["home", "theme", "real", "hero.liquid"], .link ⟨0, ["..", "sections", "main.liquid"]⟩),
          (["home", "theme", "real", "out.liquid"], .link ⟨0, ["..", "..", "secret.liquid"]⟩),
          (["home", "theme", "templates"], .directory),
          (["home", "theme", "templates", "index.json"], .file index.toUTF8)] }
    theme.HasSection t "hero" text ∧ (theme.sectionSource t "out").result = .ok none ∧
      ∃ page, (theme.compose t "index" .empty).1.result = .ok page ∧
        ∃ s ∈ page.sections, ∃ schema ∈ s.schema, theme.HasSchema t s.type schema := by
  intro theme text index t
  obtain ⟨-, hsource, -, hescapes, hcompose⟩ := theme.sections_confined t
  refine ⟨hsource _ _ ?inside, (hescapes "out" ?outside).2.1, ?page⟩
  case inside =>
    have htext : (theme.sectionSource t "hero").result.toOption = some (some text) := by
      decide +kernel
    cases hresult : (theme.sectionSource t "hero").result with
    | error e => simp [hresult, Except.toOption] at htext
    | ok found => simpa [hresult, Except.toOption] using htext
  case outside =>
    have hdirectory : t.resolve theme.sectionsDirectory = some ["home", "theme", "real"] := by
      decide +kernel
    have hplace : t.resolve (theme.sectionFile "out") = some ["home", "secret.liquid"] := by
      decide +kernel
    exact .outside ⟨by decide, FileTree.resolve_eq_some_iff.1 hdirectory⟩
      ⟨by decide, FileTree.resolve_eq_some_iff.1 hplace⟩ (by decide)
  case page =>
    have hschemas : ((theme.compose t "index" .empty).1.result.toOption.map fun page =>
        page.sections.map fun s => s.schema.isSome) = some [true] := by
      decide +kernel
    cases hresult : (theme.compose t "index" .empty).1.result with
    | error e => simp [hresult, Except.toOption] at hschemas
    | ok page =>
      refine ⟨page, rfl, ?_⟩
      rw [hresult] at hschemas
      obtain ⟨s, hs, hsome⟩ := List.map_eq_singleton_iff.1 (Option.some.inj hschemas)
      obtain ⟨schema, hschema⟩ := Option.isSome_iff_exists.1 hsome
      have hmem : s ∈ page.sections := hs ▸ List.mem_cons_self
      exact ⟨s, hmem, schema, hschema,
        hcompose .empty SchemaCache.served_empty "index" page hresult s hmem schema hschema⟩

end Storefront.Theme
