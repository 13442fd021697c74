import Storefront.Json.Decode
import Storefront.Outcome
import Storefront.Schema.Marker
import Storefront.Schema.Reading

/-!
The schema of a section file.
-/

namespace Storefront.SectionSchema

/-- The schema in the JSON text of a schema block. -/
def ofBody (body : List Char) : Except Schema.Error SectionSchema :=
  match Json.decodeCommented (Text.trim body) with
  | .error e => Schema.fail (.invalidJson e)
  | .ok v => ofValue v

/-- The schema of a section file, none where the file has no schema block. -/
def load (source : String) : Except Schema.Error (Option SectionSchema) :=
  match Schema.findBody? source.toList with
  | none => .ok none
  | some body => (ofBody body).map some

/-- The schema of a section file. A malformed one counts as none, with a warning that names the
file. -/
def extract (name source : String) : Outcome Schema.Error (Option SectionSchema) :=
  match load source with
  | .error (.malformed fault) => do
    Outcome.warn (.ignoredSchema (if name = "" then "section" else name) fault)
    return none
  | result => .ofExcept result

end Storefront.SectionSchema
