import Storefront.Number.Shortest

/-!
Numbers as data holds them: integers of any size and floating-point numbers, which are different
kinds and compare by value.
-/

namespace Storefront

inductive Number where
  | int (n : Int)
  | float (x : Binary64)
  deriving DecidableEq, Repr, Inhabited

namespace Number

/-- The value of a number, exactly: `scaled m e` is m · 2^e. -/
inductive Quantity where
  | nan
  | infinite (negative : Bool)
  | scaled (mantissa : Int) (exponent : Int)

def Quantity.ofBinary64 : Binary64 → Quantity
  | .nan => .nan
  | .infinite negative => .infinite negative
  | .finite negative m e => .scaled (if negative then -(m : Int) else m) e

def quantity : Number → Quantity
  | .int n => .scaled n 0
  | .float x => .ofBinary64 x

/-- The order of two values, both brought to the smaller exponent; nan has none. -/
def Quantity.order? : Quantity → Quantity → Option Ordering
  | .nan, _ => none
  | _, .nan => none
  | .infinite a, .infinite b => some (compare b a)
  | .infinite negative, .scaled .. => some (if negative then .lt else .gt)
  | .scaled .., .infinite negative => some (if negative then .gt else .lt)
  | .scaled m e, .scaled n f =>
    let least := min e f
    let atLeast (k : Int) (e : Int) : Int := k * (1 <<< (e - least).toNat : Nat)
    some (compare (atLeast m e) (atLeast n f))

def order? (a b : Number) : Option Ordering := a.quantity.order? b.quantity

/-- Equal by value: nan equals nothing. -/
def equals (a b : Number) : Bool := a.order? b = some .eq

def isNan : Number → Bool
  | .float .nan => true
  | _ => false

def isZero (a : Number) : Bool := a.equals (.int 0)

/-- The integer lies within the range of floating-point numbers. -/
def fitsBinary64 (n : Int) : Bool := (Binary64.ofInt n).isFinite

def text : Number → String
  | .int n => toString n
  | .float x => x.text

/-- The text without a fractional part where the number is integral. -/
def plainText : Number → String
  | .int n => toString n
  | .float x => if x.isIntegral then toString x.truncate else x.text

end Number

end Storefront
