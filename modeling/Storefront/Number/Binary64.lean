/-!
Binary floating-point numbers of 64 bits, as signs, integer mantissas and powers of two, and the
rounding of a quotient to the nearest of them, a tie going to the even mantissa.
-/

namespace Storefront

/-- `finite negative m e` is m · 2^e with its sign. Rounding gives 2^52 ≤ m < 2^53, or a smaller
`m` at the least exponent -1074. -/
inductive Binary64 where
  | nan
  | infinite (negative : Bool)
  | finite (negative : Bool) (mantissa : Nat) (exponent : Int)
  deriving DecidableEq, Repr, Inhabited

namespace Binary64

/-- The least mantissa of 53 bits. -/
def leastFull : Nat := 1 <<< 52

def zero (negative : Bool) : Binary64 := .finite negative 0 (-1074)

/-- The integer nearest to `num / den`, a tie going to the even one. -/
def roundQuotient (num den : Nat) : Nat :=
  let q := num / den
  let r := num % den
  if 2 * r < den || (2 * r = den && q % 2 = 0) then q else q + 1

/-- Numerator and denominator of `num / den` divided by 2^e. -/
def scaleDown (num den : Nat) (e : Int) : Nat × Nat :=
  if 0 ≤ e then (num, den <<< e.toNat) else (num <<< (-e).toNat, den)

/-- The exponent that gives `num / den` a mantissa of 53 bits, or the least one. -/
def exponentFor (num den : Nat) : Int :=
  let guess : Int := (num.log2 : Int) - (den.log2 : Int) - 52
  let (n, d) := scaleDown num den guess
  max (if n / d < leastFull then guess - 1 else guess) (-1074)

/-- The number nearest to `num / den`. -/
def ofQuotient (negative : Bool) (num den : Nat) : Binary64 :=
  if num = 0 then zero negative
  else
    let e := exponentFor num den
    let (n, d) := scaleDown num den e
    let m := roundQuotient n d
    let (m, e) := if m = 2 * leastFull then (leastFull, e + 1) else (m, e)
    if e > 971 then .infinite negative else .finite negative m e

/-- The number nearest to `digits` · 10^`exponent`. Beyond 10^310 all is infinite and below
10^-330 all is zero. -/
def ofDecimal (negative : Bool) (digits : Nat) (exponent : Int) : Binary64 :=
  let size : Int := (Nat.toDigits 10 digits).length + exponent
  if digits = 0 || size < -330 then zero negative
  else if size > 310 then .infinite negative
  else if 0 ≤ exponent then ofQuotient negative (digits * Nat.pow 10 exponent.toNat) 1
  else ofQuotient negative digits (Nat.pow 10 (-exponent).toNat)

def ofInt (n : Int) : Binary64 := ofQuotient (n < 0) n.natAbs 1

def isFinite : Binary64 → Bool
  | .finite .. => true
  | _ => false

def isZero : Binary64 → Bool
  | .finite _ m _ => m = 0
  | _ => false

/-- The integer toward zero; infinities and nan have none and give 0. -/
def truncate : Binary64 → Int
  | .finite negative m e =>
    let n := if 0 ≤ e then m <<< e.toNat else m >>> (-e).toNat
    if negative then -(n : Int) else n
  | _ => 0

def isIntegral : Binary64 → Bool
  | .finite _ m e => 0 ≤ e || (m >>> (-e).toNat) <<< (-e).toNat = m
  | _ => false

end Binary64

end Storefront
