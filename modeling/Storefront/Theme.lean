import Storefront.FileTree.Reading
import Storefront.Page
import Storefront.Session

/-!
Theme directories. Sections lie as `sections/<type>.liquid`, section groups as
`sections/<kind>-group.json`, templates as `templates/<name>.json`, settings in `config` and assets
in `assets`.
-/

namespace Storefront

/-- The theme below a root directory. -/
structure Theme where
  root : Path
  deriving DecidableEq, Repr

namespace Theme

def sectionsDirectory (theme : Theme) : Path := theme.root.child "sections"

def templatesDirectory (theme : Theme) : Path := theme.root.child "templates"

def assetsDirectory (theme : Theme) : Path := theme.root.child "assets"

def configDirectory (theme : Theme) : Path := theme.root.child "config"

def sectionEnding : String := ".liquid"

def isTypeChar (c : Char) : Bool := c.isAlphanum || c = '_' || c = '.' || c = '-'

/-- A section type that is a plain file name: letters, digits, underlines, dots and dashes, with no
dot in front. -/
def isPlainType (type : String) : Bool :=
  match type.toList with
  | [] => false
  | c :: s => c ≠ '.' && (c :: s).all isTypeChar

/-- The location of a path, whether or not something is there. -/
def resolved (t : FileTree) (p : Path) : Except Error Location :=
  if !t.takes p then .error (.file .unusableName)
  else match t.resolve p with
    | some place => .ok place
    | none => .error .linkCircle

/-- The file of a section type. There is none for a type that is no plain file name or whose file
lies outside the sections directory once its links are followed. -/
def sectionPath (theme : Theme) (t : FileTree) (type : String) : Outcome Error (Option Path) :=
  if !isPlainType type then do
    Outcome.warn (.notAPlainName type)
    return none
  else do
    let path := theme.sectionsDirectory.child (type ++ sectionEnding)
    let place ← .ofExcept (resolved t path)
    let directory ← .ofExcept (resolved t theme.sectionsDirectory)
    if directory.isPrefixOf place then return some path
    else
      Outcome.warn (.outsideDirectory type theme.sectionsDirectory.text)
      return none

/-- The source of a section type, none where it has no file. -/
def sectionSource (theme : Theme) (t : FileTree) (type : String) :
    Outcome Error (Option String) := do
  match ← theme.sectionPath t type with
  | none => return none
  | some path => .ofExcept (t.readText? path)

/-- The schema of a source under its identity, by the cache. -/
def cachedSchema (identity source : String) : Session (Option SectionSchema) := fun cache =>
  let (outcome, cache) := cache.get identity source
  (outcome.mapError .schema, cache)

/-- The schema of a section type, none where it has no file or no schema. -/
def schemaFor (theme : Theme) (t : FileTree) (type : String) :
    Session (Option SectionSchema) := do
  let path ← .lift (theme.sectionPath t type)
  let source ← .lift (theme.sectionSource t type)
  match path, source with
  | some path, some source => cachedSchema path.text source
  | _, _ => return none

def templatePath (theme : Theme) (name : String) : Path :=
  theme.templatesDirectory.join (.ofString (name ++ ".json"))

/-- The template in a file. -/
def readTemplate (t : FileTree) (p : Path) : Outcome Error Template := do
  let text ← .ofExcept (t.readText p)
  let v ← .ofExcept ((Document.decode p.text text).mapError .document)
  (Template.ofValue v).mapError .document

/-- The template of a name, or else the default one. -/
def loadTemplate (theme : Theme) (t : FileTree) (name : String) : Outcome Error Template := do
  let named := theme.templatePath name
  let standard := theme.templatePath Config.defaultTemplate
  let missing : Error := .page (.templateNotFound name theme.templatesDirectory.text)
  if ← .ofExcept ((t.isFile named).mapError .file) then readTemplate t named
  else if name = Config.defaultTemplate then .fail missing
  else if ← .ofExcept ((t.isFile standard).mapError .file) then
    Outcome.warn (.otherTemplate name Config.defaultTemplate)
    readTemplate t standard
  else .fail missing

def groupPath (theme : Theme) (kind : String) : Path :=
  theme.sectionsDirectory.join (.ofString (kind ++ "-group.json"))

/-- The section group of a kind, empty where it has no file. -/
def loadGroup (theme : Theme) (t : FileTree) (kind : String) : Outcome Error SectionGroup := do
  match ← .ofExcept (t.readJson? (theme.groupPath kind)) with
  | none => return .empty kind
  | some v => (SectionGroup.ofValue (some kind) v).mapError .document

/-- The decoded settings data, empty where it has no file or is null. -/
def settingsData (theme : Theme) (t : FileTree) : Except Error Value := do
  match ← t.readJson? (theme.configDirectory.child "settings_data.json") with
  | none | some .null => return .map []
  | some (.map fields) => return .map fields
  | some _ => .error (.document .settingsDataNotObject)

/-- The decoded settings schema, empty where it has no file or is null. -/
def settingsSchema (theme : Theme) (t : FileTree) : Except Error Value := do
  match ← t.readJson? (theme.configDirectory.child "settings_schema.json") with
  | none | some .null => return .list []
  | some (.list categories) => return .list categories
  | some _ => .error (.document .settingsSchemaNotList)

/-- The page of a template with the header and footer groups. -/
def compose (theme : Theme) (t : FileTree) (name : String) : Session Page := do
  let template ← .lift (theme.loadTemplate t name)
  let header ← .lift (theme.loadGroup t "header")
  let footer ← .lift (theme.loadGroup t "footer")
  Page.compose (theme.schemaFor t) template (some header) (some footer)

end Theme

end Storefront
