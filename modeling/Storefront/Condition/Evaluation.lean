import Storefront.Condition
import Storefront.Settings.Path
import Storefront.Text.Search
import Storefront.Value.Order

/-!
Evaluation of conditions against settings. `and` and `or` have no precedence and group to the
right. Only null and `false` are false; what cannot be compared compares as false.
-/

namespace Storefront

/-- All but null and `false` are true. -/
def Value.isTruthy : Value → Bool
  | .null | .bool false => false
  | _ => true

/-- Empty are a text, a list and a map without members. -/
def Value.isEmpty : Value → Bool
  | .str s => s = ""
  | .list items => items.isEmpty
  | .map fields => fields.isEmpty
  | _ => false

/-- Blank are null, `false`, texts of blanks and what is empty. -/
def Value.isBlank : Value → Bool
  | .null | .bool false => true
  | .str s => (Text.trim s.toList).isEmpty
  | v => v.isEmpty

namespace Condition

/-- What an operand stands for: a value, or one of the tests `blank` and `empty`. -/
inductive Operand where
  | value (v : Value)
  | blank
  | empty

/-- The text of a string token without its quotes. -/
def unquoted (s : String) : String := String.ofList (s.toList.drop 1).dropLast

/-- The number that a number token writes: with a point a floating-point number. -/
def numberOf (s : String) : Number :=
  let (sign, digits) := Token.takeSign s.toList
  let negative := !sign.isEmpty
  if digits.contains '.' then
    let fraction := (digits.dropWhile (· ≠ '.')).drop 1
    .float (.ofDecimal negative (Text.natOfDigits digits) (-(fraction.length : Int)))
  else
    let n : Int := Text.natOfDigits digits
    .int (if negative then -n else n)

/-- The path of a word that names a setting. -/
def settingPath? (s : String) : Option (List Char) :=
  match Text.splitOn '.' s.toList with
  | name :: _ :: _ =>
    let path := s.toList.drop (name.length + 1)
    if name = "settings".toList && !path.isEmpty then some path else none
  | _ => none

def wordOperand (settings : Dict Value) (s : String) : Operand :=
  match s with
  | "true" => .value (.bool true)
  | "false" => .value (.bool false)
  | "nil" | "null" => .value .null
  | "blank" => .blank
  | "empty" => .empty
  | s => match settingPath? s with
    | some path => .value (lookupPath settings path)
    | none => .value .null

def Token.operand (settings : Dict Value) (t : Token) : Operand :=
  match t.kind with
  | .string => .value (.str (unquoted t.text))
  | .number => .value (.number (numberOf t.text))
  | .operator | .word => wordOperand settings t.text

namespace Operand

/-- A test stands for no value and is false on its own. -/
def isTruthy : Operand → Bool
  | .value v => v.isTruthy
  | _ => false

/-- Equality of values, or the outcome of a test; two tests are never equal. -/
def equals : Operand → Operand → Bool
  | .value v, .value w => v.equals w
  | .value v, .blank | .blank, .value v => v.isBlank
  | .value v, .empty | .empty, .value v => v.isEmpty
  | _, _ => false

def order? : Operand → Operand → Option Ordering
  | .value v, .value w => v.order? w
  | _, _ => none

/-- A text contains the texts that are part of it, a list its members. -/
def contains : Operand → Operand → Bool
  | .value (.str s), .value (.str t) => Text.occursIn t.toList s.toList
  | .value (.list items), .value v => v.memberOf items
  | _, _ => false

end Operand

def Operator.holds : Operator → Operand → Operand → Bool
  | .equal, l, r => l.equals r
  | .notEqual, l, r | .unequal, l, r => !l.equals r
  | .less, l, r => l.order? r = some .lt
  | .greater, l, r => l.order? r = some .gt
  | .lessOrEqual, l, r => (l.order? r).any Ordering.isLE
  | .greaterOrEqual, l, r => (l.order? r).any Ordering.isGE
  | .contains, l, r => l.contains r

def Comparison.holds (settings : Dict Value) (c : Comparison) : Bool :=
  match c.right with
  | none => (c.left.operand settings).isTruthy
  | some (operator, right) => operator.holds (c.left.operand settings) (right.operand settings)

def Combinator.apply : Combinator → Bool → Bool → Bool
  | .and => (· && ·)
  | .or => (· || ·)

/-- Whether comparisons hold, grouped to the right. -/
def chainHolds (settings : Dict Value) (first : Comparison) :
    List (Combinator × Comparison) → Bool
  | [] => first.holds settings
  | (combinator, next) :: rest =>
    combinator.apply (first.holds settings) (chainHolds settings next rest)

def holds (settings : Dict Value) (c : Condition) : Bool := chainHolds settings c.first c.rest

/-- Whether an expression holds for the settings. -/
def evaluate (settings : Dict Value) (expression : String) : Except Error Bool :=
  (parse expression).map (holds settings)

end Condition

end Storefront
