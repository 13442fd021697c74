import Storefront.Config
import Storefront.Dict
import Storefront.Text.Blank
import Storefront.Text.Order
import Storefront.Text.Search
import Storefront.Yaml.Data
import Storefront.Yaml.Error

/-!
Reading of project configurations. A configuration is a map of known keys, or nothing at all; paths
in it are seen from the directory of its file.
-/

namespace Storefront.Config

/-- Why there is no configuration. -/
inductive Error where
  | malformed (e : Yaml.Error)
  | notAMap
  | unknownKeys (keys : List String)
  /-- A key is no text, so that it cannot be told. -/
  | keyNotText
  | notAText (key : String)
  | noPlaceholder
  | notABool
  deriving DecidableEq, Repr

def Error.message : Error → String
  | .malformed _ => "Not a YAML document."
  | .notAMap => "Top-level YAML structure must be a mapping."
  | .unknownKeys keys => "Unknown configuration keys: " ++ ", ".intercalate keys
  | .keyNotText => "A configuration key must be a string."
  | .notAText key => s!"{key} must be a non-empty string."
  | .noPlaceholder => "asset_url_template must contain a '\x7bfilename\x7d' placeholder."
  | .notABool => "legacy_conditionals must be true or false."

def knownKeys : List String :=
  ["theme_dir", "template", "asset_url_template", "legacy_conditionals", "report_output"]

/-- The pairs of a map in which all keys are texts. -/
def textPairs? : List (Yaml.Data × Yaml.Data) → Option (Dict Yaml.Data)
  | [] => some []
  | (.text key, v) :: pairs => (textPairs? pairs).map ((key, v) :: ·)
  | _ => none

/-- The trimmed text at a key, or what stands for it where there is none. -/
def textAt (pairs : Dict Yaml.Data) (key absent : String) : Except Error String :=
  match pairs.get? key with
  | none | some .null => .ok absent
  | some (.text s) => if Text.trimmed s = "" then .error (.notAText key) else .ok (Text.trimmed s)
  | some _ => .error (.notAText key)

def boolAt (pairs : Dict Yaml.Data) (key : String) : Except Error Bool :=
  match pairs.get? key with
  | none => .ok false
  | some (.bool b) => .ok b
  | some _ => .error .notABool

def placeholder : List Char := "\x7bfilename\x7d".toList

/-- The configuration of pairs with known keys, whose file lies in the directory `base`. -/
def ofPairs (base : Path) (pairs : Dict Yaml.Data) : Except Error Config := do
  let template ← textAt pairs "template" defaultTemplate
  let assetUrlTemplate ← textAt pairs "asset_url_template" defaultUrlTemplate
  if !Text.occursIn placeholder assetUrlTemplate.toList then .error .noPlaceholder
  else
    let legacyConditionals ← boolAt pairs "legacy_conditionals"
    let themeDirectory ← textAt pairs "theme_dir" defaultThemeDirectory
    let reportOutput ← textAt pairs "report_output" defaultReportOutput
    return {
      themeDirectory := base.join (.ofString themeDirectory)
      template, assetUrlTemplate, legacyConditionals
      reportOutput := base.join (.ofString reportOutput) }

/-- The configuration that data describes. -/
def ofData (base : Path) (data : Yaml.Data) : Except Error Config :=
  if !data.isFilled then ofPairs base []
  else match data with
    | .map pairs => match textPairs? pairs with
      | none => .error .keyNotText
      | some pairs => match pairs.keys.filter (!knownKeys.contains ·) with
        | [] => ofPairs base pairs
        | unknown => .error (.unknownKeys (Text.sorted unknown))
    | _ => .error .notAMap

/-- The configuration in the text of a file, which `decode` reads as a YAML document. -/
def ofText (decode : List Char → Except Yaml.Error Yaml.Data) (base : Path) (text : String) :
    Except Error Config :=
  match decode text.toList with
  | .error e => .error (.malformed e)
  | .ok data => ofData base data

end Storefront.Config
