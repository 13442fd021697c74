import Storefront.Value

/-!
The settings that a section schema or the theme's settings schema declares.
-/

namespace Storefront

/-- One option of a setting that offers a choice. -/
structure Choice where
  value : Value
  label : String
  group : Option String

/-- The kinds of settings, each with what only it declares. -/
inductive Setting.Kind where
  | checkbox
  | number (placeholder : Option Number)
  | range (low high step : Option Number) (unit : Option String)
  | text (placeholder : Option String)
  | choice (options : List Choice)
  | color
  | font
  | resource
  | resourceList (limit : Option Int)
  /-- A heading or a paragraph of the editor, which holds no value. -/
  | display (content : String)
  /-- A type that is not among the known ones. -/
  | unknown

/-- The kind of a setting without what it declares. -/
inductive Setting.Family where
  | checkbox | number | range | text | choice | color | font | resource | resourceList | display
  | unknown
  deriving DecidableEq, Repr

structure Setting where
  type : String
  id : Option String
  label : String
  info : Option String
  /-- The declared default, which may be null; `none` where none is declared. -/
  declared : Option Value
  kind : Setting.Kind

namespace Setting

def Family.ofType (type : String) : Family :=
  if type = "checkbox" then .checkbox
  else if type = "number" then .number
  else if type = "range" then .range
  else if ["text", "textarea", "html", "richtext", "inline_richtext", "liquid", "url"].contains type
  then .text
  else if type = "select" || type = "radio" then .choice
  else if type = "color" || type = "color_background" then .color
  else if type = "font_picker" then .font
  else if ["image_picker", "video", "video_url", "product", "collection", "page", "blog", "article",
    "link_list", "color_scheme", "color_scheme_group"].contains type then .resource
  else if type = "product_list" || type = "collection_list" then .resourceList
  else if type = "header" || type = "paragraph" then .display
  else .unknown

def isDisplay (s : Setting) : Bool :=
  match s.kind with
  | .display _ => true
  | _ => false

/-- The id under which values are kept, if the setting has one. -/
def id? (s : Setting) : Option String := s.id.filter (· ≠ "")

/-- The id of a setting that holds a value. -/
def key? (s : Setting) : Option String := if s.isDisplay then none else s.id?

theorem key?_of_isDisplay {s : Setting} (h : s.isDisplay = true) : s.key? = none := by
  rw [key?, if_pos h]

theorem key?_eq_id? {s : Setting} (h : s.isDisplay = false) : s.key? = s.id? := by
  rw [key?, h, if_neg Bool.false_ne_true]

theorem key?_eq_some_iff {s : Setting} {key : String} :
    s.key? = some key ↔ s.isDisplay = false ∧ s.id = some key ∧ key ≠ "" := by
  cases h : s.isDisplay with
  | true => simp [key?_of_isDisplay h]
  | false => simp [key?_eq_id? h, id?, Option.filter_eq_some_iff]

end Setting

end Storefront
