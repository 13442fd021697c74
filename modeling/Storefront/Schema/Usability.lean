import Storefront.Schema.Section

/-!
Where a section may be used. A name that is listed as disabled is refused; if names are listed as
enabled, one of them or `*` has to be the name.
-/

namespace Storefront.SectionSchema

def permits (disabled enabled : Option (List String)) (name : String) : Bool :=
  match disabled, enabled with
  | some names, _ => if names.contains name then false else permitted enabled
  | none, _ => permitted enabled
where
  permitted : Option (List String) → Bool
    | some names => names.contains name || names.contains "*"
    | none => true

def usableInTemplate (s : SectionSchema) (name : String) : Bool :=
  permits (s.disabledOn.bind (·.templates)) (s.enabledOn.bind (·.templates)) name

def usableInGroup (s : SectionSchema) (kind : String) : Bool :=
  permits (s.disabledOn.bind (·.groups)) (s.enabledOn.bind (·.groups)) kind

end Storefront.SectionSchema
