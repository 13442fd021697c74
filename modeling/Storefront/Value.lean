import Storefront.Dict
import Storefront.Number
import Storefront.Text.Quoted

/-!
The values that documents, schemas and settings hold, and the text by which messages show them.
-/

namespace Storefront

/-- Decoded data. A map keeps the order of its keys, which are distinct in all data that is read. -/
inductive Value where
  | null
  | bool (b : Bool)
  | number (n : Number)
  | str (s : String)
  | list (items : List Value)
  | map (fields : List (String × Value))
  deriving Repr, Inhabited

namespace Value

abbrev int (n : Int) : Value := .number (.int n)

/-- False of `null`, `false`, zero and what is empty. -/
def isFilled : Value → Bool
  | .null => false
  | .bool b => b
  | .number n => !n.isZero
  | .str s => s ≠ ""
  | .list items => !items.isEmpty
  | .map fields => !fields.isEmpty

def asMap? : Value → Option (Dict Value)
  | .map fields => some fields
  | _ => none

/-- The value at `key`, `null` where the map has none. -/
def field (fields : Dict Value) (key : String) : Value := (fields.get? key).getD .null

theorem field_eq_iff {fields : Dict Value} {key : String} {v : Value} (hv : v ≠ .null) :
    field fields key = v ↔ fields.get? key = some v := by
  rw [field]
  cases fields.get? key with
  | none => simp [Ne.symm hv]
  | some w => simp

theorem field_eq_map_iff {fields values : Dict Value} {key : String} :
    field fields key = .map values ↔ fields.get? key = some (.map values) :=
  field_eq_iff (by simp)

mutual

/-- A value inside another one, or one that a message quotes. -/
def literal : Value → String
  | .null => "None"
  | .bool b => if b then "True" else "False"
  | .number n => n.text
  | .str s => Text.quoted s
  | .list items => "[" ++ ", ".intercalate (literals items) ++ "]"
  | .map fields => "\x7b" ++ ", ".intercalate (literalFields fields) ++ "\x7d"

def literals : List Value → List String
  | [] => []
  | v :: vs => literal v :: literals vs

def literalFields : List (String × Value) → List String
  | [] => []
  | (k, v) :: fields => (Text.quoted k ++ ": " ++ literal v) :: literalFields fields

end

/-- The text of a value that stands on its own. -/
def text : Value → String
  | .str s => s
  | v => v.literal

/-- The text of a value, empty where it is not filled. -/
def textOrEmpty (v : Value) : String := if v.isFilled then v.text else ""

end Value

end Storefront
