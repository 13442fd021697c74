import Storefront.Asset.Url
import Storefront.Config.Reading
import Storefront.Document.Error
import Storefront.FileTree
import Storefront.Page
import Storefront.Schema.Error

/-!
What can end the work on a theme.
-/

namespace Storefront

inductive Error where
  | schema (e : Schema.Error)
  | document (e : Document.Error)
  | page (e : Page.Error)
  | url (e : Asset.UrlError)
  | config (e : Config.Error)
  | file (trouble : FileTrouble)
  /-- The bytes of a file are no UTF-8. -/
  | notText
  /-- A text that is to be written has no bytes in UTF-8. -/
  | notEncodable
  /-- The console cannot show a text. -/
  | notShowable
  /-- Links lead in a circle where a section file is looked for. -/
  | linkCircle
  | configNotFound (path : String)
  | assetNotFound (path : String)

/-- The explanation of an error. -/
def Error.message : Error → String
  | .schema (.malformed fault) => fault.message
  | .schema .integerTooLarge => "An integer is too large for a finite number."
  | .document e => e.message
  | .page e => e.message
  | .url .strayBrace => "A brace in the URL template is not closed or not opened."
  | .url .malformedField => "A field of the URL template is malformed."
  | .url .positionalField => "A field of the URL template has no name."
  | .url (.unknownField name) => s!"A field of the URL template is unknown: {name}"
  | .url .noCharacter => "A field of the URL template is out of range."
  | .url .wrongType => "A field of the URL template has a value of another type."
  | .url (.noAttribute name) => s!"A field of the URL template has no attribute {name}."
  | .config e => e.message
  | .file .notFound => "No such file or directory."
  | .file .notADirectory => "Not a directory."
  | .file .isADirectory => "Is a directory."
  | .file .alreadyThere => "The file exists."
  | .file .tooManyLinks => "Too many levels of symbolic links."
  | .file .nameTooLong => "The file name is too long."
  | .file .unusableName => "The file name holds what no name can hold."
  | .notText => "The file is not UTF-8."
  | .notEncodable => "The text cannot be encoded in UTF-8."
  | .notShowable => "The text cannot be shown."
  | .linkCircle => "Symbolic links lead in a circle."
  | .configNotFound path => s!"Configuration file '{path}' not found."
  | .assetNotFound path => s!"Asset '{path}' not found."

end Storefront
