import Storefront.Value

/-!
Equality and order of values. `true` counts as 1 and `false` as 0, numbers compare by value, lists
and maps by content, and values of different kinds have no order. A nan differs from itself, yet
it is alike to itself as a member of a list or a map.
-/

namespace Storefront.Value

/-- The number that a value counts as. -/
def number? : Value → Option Number
  | .bool b => some (.int (if b then 1 else 0))
  | .number n => some n
  | _ => none

/-- Two numbers that are equal or both nan. -/
def alikeNumbers (a b : Number) : Bool := a.equals b || (a.isNan && b.isNan)

mutual

/-- Equality as members of lists and maps have it. -/
def alike : Value → Value → Bool
  | .null, .null => true
  | .str s, .str t => s = t
  | .list xs, .list ys => alikeItems xs ys
  | .map fs, .map gs => fs.length = gs.length && alikeFields fs gs
  | v, w => match v.number?, w.number? with
    | some a, some b => alikeNumbers a b
    | _, _ => false

def alikeItems : List Value → List Value → Bool
  | [], [] => true
  | v :: vs, w :: ws => alike v w && alikeItems vs ws
  | _, _ => false

/-- Each field of the first map is alike to the one of that key in the second. -/
def alikeFields : List (String × Value) → List (String × Value) → Bool
  | [], _ => true
  | (k, v) :: fs, gs =>
    (match Dict.get? gs k with
    | some w => alike v w
    | none => false) && alikeFields fs gs

end

/-- Equality of two values: a nan equals nothing. -/
def equals : Value → Value → Bool
  | .number a, .number b => a.equals b
  | v, w => v.alike w

def memberOf (v : Value) (items : List Value) : Bool := items.any (alike v)

mutual

/-- The order of two values, if they have one: numbers by value, texts by code point, lists by
their first members that differ and then by length. -/
def order? : Value → Value → Option Ordering
  | .str s, .str t => some (compare s t)
  | .list xs, .list ys => orderItems? xs ys
  | v, w => match v.number?, w.number? with
    | some a, some b => a.order? b
    | _, _ => none

def orderItems? : List Value → List Value → Option Ordering
  | [], [] => some .eq
  | [], _ :: _ => some .lt
  | _ :: _, [] => some .gt
  | v :: vs, w :: ws => if alike v w then orderItems? vs ws else order? v w

end

end Storefront.Value
