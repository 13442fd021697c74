import Storefront.Number

/-!
The data of a YAML document. A map may have keys of any kind.
-/

namespace Storefront.Yaml

inductive Data where
  | null
  | bool (b : Bool)
  | number (n : Number)
  | text (s : String)
  | date (s : String)
  | list (items : List Data)
  | map (pairs : List (Data × Data))
  /-- A collection inside itself. -/
  | cycle
  /-- A set or bytes, of which it only counts whether there are any. -/
  | other (isEmpty : Bool)
  deriving Inhabited

namespace Data

/-- False of null, `false`, zero and what is empty. -/
def isFilled : Data → Bool
  | .null => false
  | .bool b => b
  | .number n => !n.isZero
  | .text s => s ≠ ""
  | .list items => !items.isEmpty
  | .map pairs => !pairs.isEmpty
  | .date _ | .cycle => true
  | .other isEmpty => !isEmpty

/-- The number that a key counts as. -/
def number? : Data → Option Number
  | .bool b => some (.int (if b then 1 else 0))
  | .number n => some n
  | _ => none

end Data

end Storefront.Yaml
