import Storefront.Text.Blank
import Storefront.Text.Dotted
import Storefront.Text.Order
import Storefront.Text.Search

/-!
Files of the assets folder: their kinds, the order in which stylesheets load, the scripts that are
kept, and how a bundle shows them.
-/

namespace Storefront

namespace Asset

inductive Kind where
  | css
  | js
  | image
  | font
  | other
  deriving DecidableEq, Repr

namespace Kind

def name : Kind → String
  | .css => "css"
  | .js => "js"
  | .image => "image"
  | .font => "font"
  | .other => "other"

def cssExtensions : List String := [".css", ".scss", ".sass"]

def jsExtensions : List String := [".js", ".mjs", ".cjs"]

def imageExtensions : List String :=
  [".png", ".jpg", ".jpeg", ".gif", ".webp", ".svg", ".ico", ".avif"]

def fontExtensions : List String := [".woff", ".woff2", ".ttf", ".otf", ".eot"]

/-- The last part of a path that is no dot. -/
def lastPart (path : List Char) : List Char :=
  let parts := (Text.splitOn '/' path).filter fun part => !part.isEmpty && part ≠ ['.']
  parts.getLast?.getD []

/-- The ending of a name from its last dot on; none where the dot comes first or last. -/
def extension (name : List Char) : List Char :=
  let ending := name.reverse.takeWhile (· ≠ '.')
  if ending.isEmpty || name.length ≤ ending.length + 1 then [] else '.' :: ending.reverse

/-- The kind of a file name, in letters of either case. -/
def ofFilename (filename : String) : Kind :=
  let name := filename.toList.map Char.toLower
  let ending := String.ofList (extension (lastPart name))
  if cssExtensions.contains ending || Text.endsWith name ".css.liquid".toList then .css
  else if jsExtensions.contains ending || Text.endsWith name ".js.liquid".toList then .js
  else if imageExtensions.contains ending then .image
  else if fontExtensions.contains ending then .font
  else .other

end Kind

end Asset

/-- A file in the assets folder. -/
structure Asset where
  filename : String
  kind : Asset.Kind
  isLiquid : Bool
  deriving DecidableEq, Repr

namespace Asset

def ofFilename (filename : String) : Asset where
  filename := filename
  kind := .ofFilename filename
  isLiquid := Text.endsWith filename.toList ".liquid".toList

def isText (a : Asset) : Bool := a.kind = .css || a.kind = .js

/-- The assets of the names of all files of a folder. -/
def list (filenames : List String) : List Asset := (Text.sorted filenames).map ofFilename

/-- The load priority of a stylesheet; a lower one loads first. -/
def cssPriority (filename : String) : Nat :=
  let name := Text.dropEnding ".liquid".toList filename.toList
  if name = "base.css".toList then 0
  else if name = "reset.css".toList || name = "normalize.css".toList then 1
  else if "component-".toList.isPrefixOf name then 2
  else if "section-".toList.isPrefixOf name then 3
  else if "template-".toList.isPrefixOf name then 4
  else 5

/-- By priority, and by name at the same priority. -/
def loadsBefore (a b : Asset) : Bool :=
  let p := cssPriority a.filename
  let q := cssPriority b.filename
  p < q || (p = q && decide (a.filename ≤ b.filename))

/-- The stylesheets in load order. -/
def stylesheets (assets : List Asset) : List Asset :=
  (assets.filter (·.kind = .css)).mergeSort loadsBefore

def minifiedMark : List Char := ".min.".toList

/-- The name without its first mark of minified files. -/
def unminified (filename : String) : String :=
  .ofList (Text.replaceFirst minifiedMark ['.'] filename.toList)

/-- The scripts in their order, without the minified ones that have an unminified sibling. -/
def scripts (assets : List Asset) : List Asset :=
  let scripts := assets.filter (·.kind = .js)
  let names := scripts.map (·.filename)
  scripts.filter fun a =>
    !Text.occursIn minifiedMark a.filename.toList || !names.contains (unminified a.filename)

/-- How a bundle shows the text of a file. -/
def chunk (filename text : String) : String :=
  s!"/* {filename} */\n{Text.trimmed text}\n"

end Asset

end Storefront
