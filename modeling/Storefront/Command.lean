import Storefront.Console
import Storefront.Page.Payload
import Storefront.Report
import Storefront.Theme.Assets

/-!
The commands of the command line, as work at a console. Each reads the project's configuration and
works on its theme; then it prints what it has found, or writes it to a file with a note of that.
-/

namespace Storefront

/-- What all commands can be told. Where no configuration is named, the default one may be
missing. -/
structure Command.Options where
  config : Path
  themeDirectory : Option Path
  template : Option String
  output : Option Path

inductive Command where
  | compose
  | validate (asJson : Bool)
  | sections
  | asset (path : Path)
  | bundle (stylesheets : Bool)
  | report (generated : String)

namespace Command

/-- The configuration in a file. -/
def loadConfig (host : Host) (t : FileTree) (p : Path) : Except Error Config := do
  if ← (t.doesExist p).mapError .file then
    let text ← t.readText p
    (Config.ofText host.readYaml p.parent text).mapError .config
  else .error (.configNotFound p.text)

/-- The configuration of the project, with what the options say instead. -/
def resolveConfig (host : Host) (t : FileTree) (options : Options) : Except Error Config := do
  let config ←
    if (← (t.doesExist options.config).mapError .file) || options.config ≠ Config.defaultPath then
      loadConfig host t options.config
    else pure Config.standard
  return { config with themeDirectory := options.themeDirectory.getD config.themeDirectory }

def templateOf (options : Options) (config : Config) : String :=
  match options.template with
  | some name => if name = "" then config.template else name
  | none => config.template

/-- The answer of a session on a new cache. -/
def fresh {α : Type} (x : Session α) : Outcome Error α := (x .empty).1

def themeOf (config : Config) : Theme := { root := config.themeDirectory }

def composePage (host : Host) (t : FileTree) (options : Options) : Outcome Error Page := do
  let config ← .ofExcept (resolveConfig host t options)
  fresh ((themeOf config).compose t (templateOf options config))

/-- An issue of a section as plain data. -/
def findingPayload (s : SectionInstance) (i : Issue) : Value :=
  .map [("section", .str s.id), ("type", .str s.type), ("region", .str s.region.name),
    ("setting", .str i.subject), ("severity", .str i.complaint.severity.text),
    ("message", .str i.complaint.message)]

def findingLine (s : SectionInstance) (i : Issue) : String :=
  s!"{s.id} ({s.type}) {i.complaint.severity.text} {i.subject}: {i.complaint.message}"

/-- All issues of a page, each with its section. -/
def findings (page : Page) : List (SectionInstance × Issue) :=
  page.sections.flatMap fun s => s.issues.map (s, ·)

/-- A section file as a line: its type, name and block types between tabs. -/
def sectionLine (info : Theme.SectionInfo) : String :=
  let blocks := if info.blockTypes.isEmpty then "-" else ", ".intercalate info.blockTypes
  s!"{info.type}\t{info.name}\t{blocks}"

/-- The section files of the theme. -/
def readCatalog (host : Host) (t : FileTree) (options : Options) :
    Outcome Error (List Theme.SectionInfo) := do
  let config ← .ofExcept (resolveConfig host t options)
  fresh ((themeOf config).catalog t)

def contextOf (host : Host) (t : FileTree) (config : Config) : Outcome Error Asset.Context :=
  (themeOf config).assetContext host.objects t config.assetUrlTemplate config.legacyConditionals

/-- The file of an asset: the path itself, or one below the assets folder. -/
def assetPath (t : FileTree) (config : Config) (p : Path) : Except Error Path := do
  if ← (t.isFile p).mapError .file then return p
  else
    let below := (themeOf config).assetsDirectory.join p
    if ← (t.isFile below).mapError .file then return below
    else .error (.assetNotFound p.text)

def processAsset (host : Host) (t : FileTree) (options : Options) (p : Path) :
    Outcome Error String := do
  let config ← .ofExcept (resolveConfig host t options)
  let source ← .ofExcept (assetPath t config p)
  let context ← contextOf host t config
  let text ← .ofExcept (t.readText source)
  (Asset.process context text).mapError .url

def bundleAssets (host : Host) (t : FileTree) (options : Options) (stylesheets : Bool) :
    Outcome Error String := do
  let config ← .ofExcept (resolveConfig host t options)
  let context ← contextOf host t config
  let assets ← .ofExcept ((themeOf config).assets t)
  let chosen := if stylesheets then Asset.stylesheets assets else Asset.scripts assets
  (themeOf config).bundle t context chosen

/-- The report of a template, on a cache that lasts for all of it. -/
def buildReport (theme : Theme) (t : FileTree) (name : String) : Session Report := do
  let page ← theme.compose t name
  let catalog ← theme.catalog t
  return .ofPage name page catalog

/-! ### Printing and writing -/

def writtenLine (t : FileTree) (p : Path) : String := s!"wrote {t.shownPath p}"

/-- Tells where a file has been written. -/
def tellWritten (host : Host) (p : Path) : Work Unit := do
  let line ← .read fun t => pure (writtenLine t p)
  .printLine host line

/-- The text is printed, or written to the output with a note of that. -/
def emit (host : Host) (output : Option Path) (text : String) : Work Unit :=
  match output with
  | none => .printLine host text
  | some p => do
    .save host p text
    tellWritten host p

/-- The issues as JSON, or a line each. -/
def printFindings (host : Host) (asJson : Bool) (page : Page) : Work Unit :=
  let all := findings page
  if asJson then
    .printLine host (Json.encode .indented (.list (all.map fun f => findingPayload f.1 f.2)))
  else if all.isEmpty then .printLine host s!"{page.sections.length} sections, no issues"
  else all.forM fun f => .printLine host (findingLine f.1 f.2)

/-- Writes the report of a template. -/
def saveReport (host : Host) (theme : Theme) (name : String) (p : Path) (generated : String) :
    Work Unit := do
  let report ← .read fun t => fresh (buildReport theme t name)
  .save host p (report.html generated)

/-- The work of a command. A report is always written; only a note of it is printed. -/
def perform (host : Host) (options : Options) : Command → Work Unit
  | .compose => do
    let page ← .read (composePage host · options)
    emit host options.output (Json.encode .indented page.payload)
  | .validate asJson => do
    let page ← .read (composePage host · options)
    printFindings host asJson page
  | .sections => do
    let catalog ← .read (readCatalog host · options)
    catalog.forM fun info => .printLine host (sectionLine info)
  | .asset path => do
    let text ← .read (processAsset host · options path)
    emit host options.output text
  | .bundle stylesheets => do
    let text ← .read (bundleAssets host · options stylesheets)
    emit host options.output text
  | .report generated => do
    let config ← .read fun t => .ofExcept (resolveConfig host t options)
    let p := options.output.getD config.reportOutput
    saveReport host (themeOf config) (templateOf options config) p generated
    tellWritten host p

/-- What a command comes to at a new console. -/
def run (host : Host) (t : FileTree) (options : Options) (command : Command) :
    Except Error Unit × Console :=
  (perform host options command).run { tree := t }

end Command

end Storefront
