import Storefront.Proofs.Page.Composition
import Storefront.Proofs.Theme.Session
import Storefront.Theme.Catalog

/-!
Pages after any history. Between the requests to a theme its files may change in any way; what the
cache has kept from before never shows in a page, which is that of the documents and sources that
there are now. Sources are told apart by digests, so this holds as long as those that were asked for
and share a digest are the same.
-/

namespace Storefront

namespace Theme

/-! ### Work by digests -/

section digests

variable (digest : String → String) (theme : Theme) (t : FileTree)

def cachedSchemaBy (identity source : String) : Session (Option SectionSchema) := fun cache =>
  let (outcome, cache) := cache.getBy digest identity source
  (outcome.mapError .schema, cache)

def schemaForBy (type : String) : Session (Option SectionSchema) := do
  let path ← .lift (theme.sectionPath t type)
  let source ← .lift (theme.sectionSource t type)
  match path, source with
  | some path, some source => cachedSchemaBy digest path.text source
  | _, _ => return none

def catalogBy : Session (List SectionInfo) := do
  let types ← .lift (.ofExcept (theme.sectionTypes t))
  types.mapM fun type => return .ofSchema type (← schemaForBy digest theme t type)

def composeBy (name : String) : Session Page := do
  let template ← .lift (theme.loadTemplate t name)
  let header ← .lift (theme.loadGroup t "header")
  let footer ← .lift (theme.loadGroup t "footer")
  Page.compose (schemaForBy digest theme t) template (some header) (some footer)

end digests

/-! Where each source is its own digest, the work is that of the theme. -/

theorem schemaForBy_id (theme : Theme) : schemaForBy id theme = theme.schemaFor := rfl

theorem catalogBy_id (theme : Theme) : catalogBy id theme = theme.catalog := rfl

theorem composeBy_id (theme : Theme) : composeBy id theme = theme.compose := rfl

/-! ### Work without a cache -/

section afresh

variable (theme : Theme) (t : FileTree)

/-- The schema of a section type, read from the source that there is. -/
def currentSchema (type : String) : Outcome Error (Option SectionSchema) := do
  match ← theme.sectionSource t type with
  | none => return none
  | some source => (SectionSchema.extract "section" source).mapError .schema

/-- The documents of the page of a name. -/
def documents (name : String) : Outcome Error Documents := do
  let template ← theme.loadTemplate t name
  let header ← theme.loadGroup t "header"
  let footer ← theme.loadGroup t "footer"
  return { template, header := some header, footer := some footer }

/-- The page of the documents with the schemas that the sources have. -/
def currentPage (docs : Documents) : Outcome Error Page :=
  Page.compose (theme.currentSchema t) docs.template docs.header docs.footer

def currentCatalog : Outcome Error (List SectionInfo) := do
  let types ← .ofExcept (theme.sectionTypes t)
  types.mapM fun type => return .ofSchema type (← theme.currentSchema t type)

end afresh

/-! ### The sources that are asked for -/

section sources

variable (theme : Theme) (t : FileTree)

def source? (type : String) : Option String :=
  match (theme.sectionSource t type).result with
  | .ok source => source
  | .error _ => none

/-- The sources of section types that are asked for one after the other until one fails. -/
def sourcesOf : List String → List String
  | [] => []
  | type :: types => (theme.source? t type).toList ++
    match (theme.currentSchema t type).result with
    | .ok _ => sourcesOf types
    | .error _ => []

end sources

/-! ### Schemas -/

variable {digest : String → String} {theme : Theme} {t : FileTree} {sources : List String}

open SchemaCache

theorem gives_cachedSchemaBy (hdigest : Separates digest sources) {source : String}
    (hsource : source ∈ sources) (identity : String) :
    (cachedSchemaBy digest identity source).Gives (ServedOf digest sources)
      ((SectionSchema.extract "section" source).mapError .schema) := by
  intro c hc
  obtain ⟨hserved, hresult⟩ := hc.getBy hdigest hsource identity
  exact ⟨hserved, congrArg (Except.mapError Error.schema) (hresult "section")⟩

theorem source?_of_result {type source : String}
    (h : (theme.sectionSource t type).result = .ok (some source)) :
    theme.source? t type = some source := by
  rw [source?, h]

theorem gives_schemaForBy (hdigest : Separates digest sources) {type : String}
    (hsource : ∀ s ∈ theme.source? t type, s ∈ sources) :
    (schemaForBy digest theme t type).Gives (ServedOf digest sources)
      (theme.currentSchema t type) := by
  have hgives : (schemaForBy digest theme t type).Gives (ServedOf digest sources) (do
      let path ← theme.sectionPath t type
      let source ← theme.sectionSource t type
      match path, source with
      | some _, some source => (SectionSchema.extract "section" source).mapError .schema
      | _, _ => return none) := by
    refine .bind (.lift _) fun path _ => .bind (.lift _) fun source hresult => ?_
    cases path with
    | none => exact .pure none
    | some path =>
      cases source with
      | none => exact .pure none
      | some source =>
        exact gives_cachedSchemaBy hdigest (hsource source (source?_of_result hresult)) path.text
  refine hgives.congr ?_
  cases hpath : (theme.sectionPath t type).result with
  | error e =>
    have hsource : (theme.sectionSource t type).result = .error e :=
      Outcome.result_bind_of_error hpath _
    rw [Outcome.result_bind_of_error hpath, currentSchema, Outcome.result_bind_of_error hsource]
  | ok path =>
    rw [Outcome.result_bind_of_ok hpath, currentSchema]
    refine Outcome.result_bind_congr rfl fun source hsource => ?_
    cases path with
    | some path => cases source <;> rfl
    | none =>
      -- Without a path there is no source.
      have hnone : (theme.sectionSource t type).result = .ok none :=
        Outcome.bind_eq_ok.2 ⟨none, hpath, rfl⟩
      cases hsource.symm.trans hnone
      rfl

/-- Section types are asked for one after the other, and no more of them once one has failed. -/
theorem gives_mapM_schemaForBy {α β : Type} (hdigest : Separates digest sources)
    (type : α → String) (make : α → Option SectionSchema → β) {items : List α}
    (hsources : theme.sourcesOf t (items.map type) ⊆ sources) :
    Session.Gives (ServedOf digest sources)
      (items.mapM fun a => do return make a (← schemaForBy digest theme t (type a)))
      (items.mapM fun a => do return make a (← theme.currentSchema t (type a))) := by
  induction items with
  | nil => exact .pure []
  | cons a items ih =>
    rw [List.map_cons, sourcesOf, List.append_subset] at hsources
    obtain ⟨hfirst, hrest⟩ := hsources
    have hsource : ∀ s ∈ theme.source? t (type a), s ∈ sources :=
      fun s hs => hfirst (Option.mem_toList.2 hs)
    rw [List.mapM_cons, List.mapM_cons]
    refine .bind (.bind (gives_schemaForBy hdigest hsource) fun schema _ => .pure _)
      fun b hb => .bind (ih ?_) fun bs _ => .pure _
    obtain ⟨schema, hschema, -⟩ := Outcome.bind_eq_ok.1 hb
    rwa [hschema] at hrest

/-! ### Catalogues and pages -/

/-- The types of the sections of the page, in page order. -/
def typesOf (docs : Documents) : List String :=
  (Placement.all docs.template docs.header docs.footer).map (·.stub.type)

theorem gives_catalogBy (hdigest : Separates digest sources)
    (hsources : ∀ types, theme.sectionTypes t = .ok types → theme.sourcesOf t types ⊆ sources) :
    (catalogBy digest theme t).Gives (ServedOf digest sources) (theme.currentCatalog t) := by
  refine .bind (.lift _) fun types htypes => ?_
  apply gives_mapM_schemaForBy hdigest id
  rw [List.map_id]
  exact hsources types htypes

theorem gives_composeBy (hdigest : Separates digest sources) {name : String}
    (hsources : ∀ docs, (theme.documents t name).result = .ok docs →
      theme.sourcesOf t (typesOf docs) ⊆ sources) :
    (composeBy digest theme t name).Gives (ServedOf digest sources)
      (theme.documents t name >>= theme.currentPage t) := by
  have hpage : (theme.documents t name >>= theme.currentPage t) = (do
      let template ← theme.loadTemplate t name
      let header ← theme.loadGroup t "header"
      let footer ← theme.loadGroup t "footer"
      theme.currentPage t ⟨template, some header, some footer⟩) := by
    simp only [documents, bind_assoc, pure_bind]
  rw [hpage]
  refine .bind (.lift _) fun template htemplate => .bind (.lift _) fun header hheader =>
    .bind (.lift _) fun footer hfooter => ?_
  have hdocs : (theme.documents t name).result = .ok ⟨template, some header, some footer⟩ :=
    Outcome.bind_eq_ok.2 ⟨template, htemplate, Outcome.bind_eq_ok.2 ⟨header, hheader,
      Outcome.bind_eq_ok.2 ⟨footer, hfooter, rfl⟩⟩⟩
  have hsections := gives_mapM_schemaForBy hdigest (fun p : Placement => p.stub.type)
    Placement.resolve (hsources _ hdocs)
  exact .bind hsections fun sections _ => .pure _

/-! ### Histories -/

/-- What happens to a theme: its files become others, or it is asked for something. -/
inductive Event where
  | change (files : FileTree)
  | schemaFor (type : String)
  | catalog
  | compose (name : String)

namespace Event

/-- The files after an event. -/
def files (t : FileTree) : Event → FileTree
  | .change files => files
  | _ => t

/-- The section types whose schemas an event asks for, in order. -/
def types (theme : Theme) (t : FileTree) : Event → List String
  | .change _ => []
  | .schemaFor type => [type]
  | .catalog => (theme.sectionTypes t).toOption.getD []
  | .compose name => ((theme.documents t name).result.toOption.map typesOf).getD []

theorem types_catalog {types : List String} (h : theme.sectionTypes t = .ok types) :
    catalog.types theme t = types := by
  rw [Event.types, h]
  rfl

theorem types_compose {name : String} {docs : Documents}
    (h : (theme.documents t name).result = .ok docs) :
    (compose name).types theme t = typesOf docs := by
  rw [Event.types, h]
  rfl

end Event

/-- The files of a theme and the cache that its requests share. -/
structure State where
  files : FileTree
  cache : SchemaCache

namespace State

/-- The state of a theme that has not been asked for anything. -/
def new (t : FileTree) : State := ⟨t, .empty⟩

/-- The state after an event, also where a request fails. -/
def step (digest : String → String) (theme : Theme) (s : State) : Event → State
  | .change files => { s with files }
  | .schemaFor type => { s with cache := (schemaForBy digest theme s.files type s.cache).2 }
  | .catalog => { s with cache := (catalogBy digest theme s.files s.cache).2 }
  | .compose name => { s with cache := (composeBy digest theme s.files name s.cache).2 }

def after (digest : String → String) (theme : Theme) (s : State) (events : List Event) : State :=
  events.foldl (step digest theme) s

end State

/-- The sources that are asked for in a history. -/
def usedSources (theme : Theme) : FileTree → List Event → List String
  | _, [] => []
  | t, event :: events =>
    theme.sourcesOf t (event.types theme t) ++ usedSources theme (event.files t) events

section history

variable {s : State} {event : Event} {events : List Event}

theorem files_step : (s.step digest theme event).files = event.files s.files := by
  cases event <;> rfl

/-- An event leaves a cache that has served requests for the sources used. -/
theorem servedOf_step (hdigest : Separates digest sources)
    (hsources : theme.sourcesOf s.files (event.types theme s.files) ⊆ sources)
    (h : s.cache.ServedOf digest sources) :
    (s.step digest theme event).cache.ServedOf digest sources := by
  cases event with
  | change files => exact h
  | schemaFor type =>
    have hsource : ∀ source ∈ theme.source? s.files type, source ∈ sources := fun source hs =>
      hsources (List.mem_append_left _ (Option.mem_toList.2 hs))
    exact (gives_schemaForBy hdigest hsource s.cache h).1
  | catalog =>
    refine (gives_catalogBy hdigest (fun types htypes => ?_) s.cache h).1
    rwa [Event.types_catalog htypes] at hsources
  | compose name =>
    refine (gives_composeBy hdigest (fun docs hdocs => ?_) s.cache h).1
    rwa [Event.types_compose hdocs] at hsources

theorem servedOf_after (hdigest : Separates digest sources)
    (hsources : usedSources theme s.files events ⊆ sources)
    (h : s.cache.ServedOf digest sources) :
    (s.after digest theme events).cache.ServedOf digest sources := by
  induction events generalizing s with
  | nil => exact h
  | cons event events ih =>
    obtain ⟨hfirst, hrest⟩ := List.append_subset.1 hsources
    exact ih (files_step ▸ hrest) (servedOf_step hdigest hfirst h)

/-- The sources of the last event are those of the files that there are then. -/
theorem usedSources_concat (digest : String → String) (theme : Theme) (s : State)
    (events : List Event) (event : Event) :
    usedSources theme s.files (events ++ [event]) = usedSources theme s.files events ++
      theme.sourcesOf (s.after digest theme events).files
        (event.types theme (s.after digest theme events).files) := by
  induction events generalizing s with
  | nil => exact List.append_nil _
  | cons first events ih =>
    rw [List.cons_append, usedSources, usedSources, List.append_assoc, ← files_step, ih]
    rfl

/-- A page is composed as with a new cache, and there is one just where the documents that there are
and the schemas of the sources that there are give this page. -/
structure ComposesAfresh (theme : Theme) (compose : FileTree → String → Session Page)
    (s : State) (name : String) : Prop where
  outcome : (compose s.files name s.cache).1.result = (compose s.files name .empty).1.result
  page : ∀ page, (compose s.files name s.cache).1.result = .ok page ↔
    ∃ docs, (theme.documents s.files name).result = .ok docs ∧
      (theme.currentPage s.files docs).result = .ok page

theorem composesAfresh_of_servedOf {name : String} (hdigest : Separates digest sources)
    (hsources : theme.sourcesOf s.files ((Event.compose name).types theme s.files) ⊆ sources)
    (h : s.cache.ServedOf digest sources) :
    ComposesAfresh theme (composeBy digest theme) s name := by
  have hgives : (composeBy digest theme s.files name).Gives (ServedOf digest sources)
      (theme.documents s.files name >>= theme.currentPage s.files) := by
    refine gives_composeBy hdigest fun docs hdocs => ?_
    rwa [Event.types_compose hdocs] at hsources
  obtain ⟨-, hresult⟩ := hgives s.cache h
  obtain ⟨-, hnew⟩ := hgives .empty (servedOf_empty digest sources)
  refine ⟨hresult.trans hnew.symm, fun page => ?_⟩
  rw [hresult]
  exact Outcome.bind_eq_ok

/-- After any history of requests and changes to the files a page is composed as by a new theme over
the files that there are. Sources are told apart by themselves, or by any digest that does so for
the sources used. -/
theorem composesAfresh_after (theme : Theme) (t : FileTree) (events : List Event) (name : String) :
    (∀ digest, Separates digest (theme.usedSources t (events ++ [.compose name])) →
      ComposesAfresh theme (composeBy digest theme) ((State.new t).after digest theme events)
        name) ∧
      ComposesAfresh theme theme.compose ((State.new t).after id theme events) name := by
  have hany (digest : String → String)
      (hdigest : Separates digest (theme.usedSources t (events ++ [.compose name]))) :
      ComposesAfresh theme (composeBy digest theme) ((State.new t).after digest theme events)
        name := by
    have hused : theme.usedSources t (events ++ [.compose name]) = _ :=
      usedSources_concat digest theme (.new t) events (.compose name)
    rw [hused] at hdigest
    apply composesAfresh_of_servedOf hdigest (List.subset_append_right _ _)
    exact servedOf_after hdigest (List.subset_append_left _ _) (servedOf_empty digest _)
  refine ⟨hany, ?_⟩
  rw [← composeBy_id]
  exact hany id fun s _ s' _ heq => heq

/-- A section file changes, is malformed for a while and then is as it was. The digest of a source
is one of its characters. -/
theorem composesAfresh_after_revert :
    let theme : Theme := ⟨⟨0, ["theme"]⟩⟩
    let named := fun name : String =>
      "\x7b% schema %\x7d\x7b\"name\":\"" ++ name ++ "\"\x7d\x7b% endschema %\x7d"
    let malformed := "\x7b% schema %\x7d\x7b\x7b\x7b\x7b\x7b% endschema %\x7d"
    let index := "\x7b\"sections\":\x7b\"a\":\x7b\"type\":\"hero\"\x7d\x7d,\"order\":[\"a\"]\x7d"
    let tree := fun source : String => ({
        workingDirectory := ["home"]
        entries := [(["home", "theme"], .directory), (["home", "theme", "sections"], .directory),
          (["home", "theme", "sections", "hero.liquid"], .file source.toUTF8),
          (["home", "theme", "templates"], .directory),
          (["home", "theme", "templates", "index.json"], .file index.toUTF8)] } : FileTree)
    let events : List Event := [.compose "index", .change (tree (named "B")), .schemaFor "hero",
      .change (tree malformed), .catalog, .compose "absent", .change (tree (named "A"))]
    let digest := fun source : String => String.ofList ((source.toList.drop 21).take 1)
    let s := (State.new (tree (named "A"))).after digest theme events
    let names := fun result : Except Error Page =>
      result.toOption.map fun page => page.sections.map fun s => s.schema.map (·.name)
    digest "" = digest "a" ∧ ComposesAfresh theme (composeBy digest theme) s "index" ∧
      names (composeBy digest theme s.files "index" s.cache).1.result = some [some "A"] := by
  intro theme named malformed index tree events digest s names
  have hdigest : Separates digest
      (theme.usedSources (tree (named "A")) (events ++ [.compose "index"])) := by
    unfold Separates
    decide +kernel
  have hafresh : ComposesAfresh theme (composeBy digest theme) s "index" :=
    (composesAfresh_after theme (tree (named "A")) events "index").1 digest hdigest
  refine ⟨by decide, hafresh, (congrArg names hafresh.outcome).trans ?_⟩
  decide +kernel

end history

end Theme

end Storefront
