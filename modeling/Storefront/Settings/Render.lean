import Storefront.Value.Order

/-!
Setting values as assets print them. An object with numeric red, green and blue channels is a
colour.
-/

namespace Storefront

/-- A number without a fractional part where it is integral, any other value by its text. -/
def Value.plainText : Value → String
  | .number n => n.plainText
  | v => v.text

def channel? (fields : Dict Value) (name : String) : Option Number :=
  match Value.field fields name with
  | .number n => some n
  | _ => none

/-- The colour that the fields describe, opaque unless there is an alpha other than 1. -/
def renderColor? (fields : Dict Value) : Option String := do
  let red ← channel? fields "red"
  let green ← channel? fields "green"
  let blue ← channel? fields "blue"
  let channels := s!"{red.plainText}, {green.plainText}, {blue.plainText}"
  match Value.field fields "alpha" with
  | .null => return s!"rgb({channels})"
  | alpha =>
    return if alpha.equals (.int 1) then s!"rgb({channels})"
      else s!"rgba({channels}, {alpha.plainText})"

namespace Value

mutual

def render : Value → String
  | .null => ""
  | .bool b => if b then "true" else "false"
  | .number n => n.plainText
  | .str s => s
  | .list items => ",".intercalate (renderItems items)
  | .map fields => (renderColor? fields).getD ""

def renderItems : List Value → List String
  | [] => []
  | v :: vs => render v :: renderItems vs

end

end Value

end Storefront
