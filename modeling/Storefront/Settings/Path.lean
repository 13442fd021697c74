import Storefront.Text.Dotted
import Storefront.Value

/-!
Lookup of setting values by dotted paths.
-/

namespace Storefront

/-- The value below `v` at the keys, null where a key is missing. -/
def Value.descend (v : Value) : List String → Value
  | [] => v
  | key :: keys => match v with
    | .map fields => match Value.field fields key with
      | .null => .null
      | w => w.descend keys
    | _ => .null

/-- The keys of a dotted path. -/
def pathKeys (path : List Char) : List String := (Text.splitOn '.' path).map String.ofList

/-- The value at a dotted path below the settings, null where there is none. -/
def lookupPath (settings : Dict Value) (path : List Char) : Value :=
  (Value.map settings).descend (pathKeys path)

end Storefront
