import Storefront.Json.Encode
import Storefront.Page.Check
import Storefront.Theme.Catalog

/-!
The diagnostics report of a composed page, as HTML: its sections with their settings and issues, and
the section files of the theme. All text of the theme is escaped.
-/

namespace Storefront

/-- What a report tells of a section. -/
structure Report.Entry where
  id : String
  type : String
  name : String
  region : Region
  index : Nat
  disabled : Bool
  hasSchema : Bool
  /-- Setting ids with their values as JSON. -/
  settings : List (String × String)
  blockCount : Nat
  issues : List Issue

structure Report where
  templateName : String
  layout : String
  entries : List Report.Entry
  catalog : List Theme.SectionInfo

namespace Report

/-- A minute of a day. -/
structure Moment where
  year : Int
  month : Nat
  day : Nat
  hour : Nat
  minute : Nat

/-- A number in at least two digits. -/
def twoDigits (n : Nat) : String := if n < 10 then s!"0{n}" else toString n

/-- How a report tells when it was made. -/
def Moment.text (m : Moment) : String :=
  s!"{m.year}-{twoDigits m.month}-{twoDigits m.day} {twoDigits m.hour}:{twoDigits m.minute} UTC"

def Entry.ofSection (s : SectionInstance) : Entry where
  id := s.id
  type := s.type
  name := match s.schema with
    | some schema => schema.name
    | none => ""
  region := s.region
  index := s.index
  disabled := s.disabled
  hasSchema := s.schema.isSome
  settings := s.settings.map fun (k, v) => (k, Json.encode .compact (Json.sortKeys v))
  blockCount := s.blocks.length
  issues := s.issues

def ofPage (templateName : String) (page : Page) (catalog : List Theme.SectionInfo) : Report where
  templateName := templateName
  layout := page.layout
  entries := page.sections.map .ofSection
  catalog := catalog

def issueCount (r : Report) : Nat := (r.entries.flatMap (·.issues)).length

def escapeChar : Char → List Char
  | '&' => "&amp;".toList
  | '<' => "&lt;".toList
  | '>' => "&gt;".toList
  | '\'' => "&#39;".toList
  | '"' => "&#34;".toList
  | c => [c]

/-- Text in which no character has a meaning in HTML. -/
def escape (s : String) : String := .ofList (s.toList.flatMap escapeChar)

def head (templateName : String) : List String := [
  "<!DOCTYPE html>",
  "<html lang=\"en\">",
  "<head>",
  "  <meta charset=\"utf-8\">",
  s!"  <title>{escape templateName} page report</title>",
  "  <style>",
  "    body \x7b font-family: system-ui, sans-serif; margin: 2rem; color: #1f2933; \x7d",
  "    table \x7b border-collapse: collapse; margin-bottom: 1.5rem; \x7d",
  "    th, td \x7b border: 1px solid #cbd2d9; padding: 0.25rem 0.5rem; text-align: left; " ++
    "vertical-align: top; \x7d",
  "    .issue-warning \x7b color: #b7791f; \x7d",
  "    .issue-error \x7b color: #c53030; \x7d",
  "    .section-disabled \x7b opacity: 0.6; \x7d",
  "  </style>",
  "</head>"]

def summary (r : Report) : List String := [
  "  <header>",
  s!"    <h1>Template <code>{escape r.templateName}</code></h1>",
  s!"    <p>Layout: <span class=\"page-layout\">{escape r.layout}</span></p>",
  s!"    <p>{r.entries.length} sections, " ++
    s!"<span class=\"issue-count\">{r.issueCount}</span> issues.</p>",
  "  </header>"]

def settingsTable : List (String × String) → List String
  | [] => []
  | settings =>
    ["      <table class=\"settings\">", "        <tr><th>Setting</th><th>Value</th></tr>"] ++
    (settings.map fun (key, value) =>
      s!"        <tr><td>{escape key}</td><td><code>{escape value}</code></td></tr>") ++
    ["      </table>"]

def issueItem (i : Issue) : String :=
  s!"        <li class=\"issue-{i.complaint.severity.text}\"><code>{escape i.subject}</code>: " ++
    s!"{escape i.complaint.message}</li>"

def issueList : List Issue → List String
  | [] => []
  | issues => ["      <ul class=\"issues\">"] ++ issues.map issueItem ++ ["      </ul>"]

def Entry.lines (e : Entry) : List String :=
  let disabled := if e.disabled then " section-disabled" else ""
  let id := escape e.id
  let title := escape (if e.name = "" then e.type else e.name)
  [s!"    <section class=\"page-section{disabled}\" id=\"section-{id}\" " ++
    s!"data-region=\"{e.region.name}\" data-index=\"{e.index}\">",
   s!"      <h2>{e.index}. {title} <small>({e.region.name} / {id})</small></h2>"] ++
  (if e.hasSchema then []
   else [s!"      <p class=\"no-schema\">No schema found for <code>{escape e.type}</code>.</p>"]) ++
  settingsTable e.settings ++ [s!"      <p>{e.blockCount} blocks</p>"] ++ issueList e.issues ++
  ["    </section>"]

def catalogRow (info : Theme.SectionInfo) : List String :=
  let blocks := escape (", ".intercalate info.blockTypes)
  ["      <tr>",
   s!"        <td>{escape info.type}</td>",
   s!"        <td>{escape info.name}</td>",
   s!"        <td>{blocks}</td>",
   s!"        <td>{info.presets.length}</td>",
   "      </tr>"]

def catalogTable (catalog : List Theme.SectionInfo) : List String :=
  ["", "    <h2>Section catalogue</h2>", "    <table class=\"catalog\">",
   "      <tr><th>Type</th><th>Name</th><th>Blocks</th><th>Presets</th></tr>"] ++
  catalog.flatMap catalogRow ++ ["    </table>"]

/-- The report with the text that tells when it was made, which is written as it is. -/
def html (r : Report) (generated : String) : String :=
  "\n".intercalate (head r.templateName ++ ["<body>"] ++ r.summary ++ ["", "  <main>"] ++
    r.entries.flatMap Entry.lines ++ catalogTable r.catalog ++
    ["  </main>", "", "  <footer>", s!"    <p>Generated {generated}</p>", "  </footer>", "</body>",
     "</html>"])

end Report

end Storefront
