import Storefront.Schema.Reading

/-!
Default values of settings: the declared one, or else the one of the setting's kind.
-/

namespace Storefront

def defaultColor : String := "#000000"

def defaultFont : String := "assistant_n4"

namespace Setting

/-- The value of a setting that declares no default. -/
def Kind.default : Kind → Value
  | .checkbox => .bool false
  | .number _ | .range .. => .int 0
  | .text _ | .choice _ => .str ""
  | .color => .str defaultColor
  | .font => .str defaultFont
  | .resourceList _ => .list []
  | .resource | .unknown | .display _ => .null

/-- The declared default, null included, or else that of the kind. -/
def defaultValue (s : Setting) : Value := s.declared.getD s.kind.default

/-- The defaults of the settings that hold a value, by id. Of settings with one id the first gives
the place and the last the value. -/
def defaults (settings : List Setting) : Dict Value :=
  Dict.ofList (settings.filterMap fun s => s.key?.map (·, s.defaultValue))

end Setting

def BlockDefinition.defaults (b : BlockDefinition) : Dict Value := Setting.defaults b.settings

/-- The settings of a category of the theme's settings schema, none of what only informs. -/
def categorySettings : Value → Except Schema.Error (List Setting)
  | .map fields =>
    match Value.field fields "name" with
    | .str "theme_info" => .ok []
    | name =>
      let title := if name.isFilled then name.text else "category"
      Setting.listOfValue s!"category '{title}'" (Value.field fields "settings")
  | _ => .ok []

/-- The defaults of all categories of the theme's settings schema. -/
def themeDefaults : Value → Except Schema.Error (Dict Value)
  | .list categories =>
    return Dict.ofList ((← categories.mapM categorySettings).flatMap Setting.defaults)
  | _ => .ok []

end Storefront
