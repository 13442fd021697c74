import Storefront.Number.Binary64

/-!
The decimal text of a floating-point number: the fewest digits that read back as the number, and
of several such the nearest. Positional from 1e-4 up to below 1e16, with an exponent elsewhere.
-/

namespace Storefront.Binary64

/-- An interval of positive rationals over one denominator, with the number itself. -/
structure Reach where
  low : Nat
  value : Nat
  high : Nat
  den : Nat
  closed : Bool

/-- The rationals that round to m · 2^e: halfway to each neighbour, with the ends when the mantissa
is even. Just above a power of two the lower neighbour is twice as near. -/
def reach (m : Nat) (e : Int) : Reach :=
  let narrow := m = leastFull && e > -1074
  { low := (if narrow then 4 * m - 1 else 4 * m - 2) <<< e.toNat
    value := (4 * m) <<< e.toNat
    high := (4 * m + 2) <<< e.toNat
    den := 4 <<< (-e).toNat
    closed := m % 2 = 0 }

/-- `digit · unitNum / unitDen` lies in the interval. -/
def Reach.covers (r : Reach) (digits unitNum unitDen : Nat) : Bool :=
  let x := digits * unitNum * r.den
  let lo := r.low * unitDen
  let hi := r.high * unitDen
  if r.closed then lo ≤ x && x ≤ hi else lo < x && x < hi

/-- On the grid of multiples of 10^p, the neighbour of the value that reads back and is nearest. -/
def Reach.onGrid? (r : Reach) (p : Int) : Option Nat :=
  let unitNum := Nat.pow 10 p.toNat
  let unitDen := Nat.pow 10 (-p).toNat
  let below := r.value * unitDen / (r.den * unitNum)
  let twice := 2 * r.value * unitDen
  let middle := (2 * below + 1) * unitNum * r.den
  match below ≠ 0 && r.covers below unitNum unitDen, r.covers (below + 1) unitNum unitDen with
  | true, true =>
    some (if twice < middle || (twice = middle && below % 2 = 0) then below else below + 1)
  | true, false => some below
  | false, true => some (below + 1)
  | false, false => none

/-- The least `k` with `num / den < 10^k`, found from `k` upwards or downwards in `fuel` steps. -/
def decimalExponent (num den : Nat) : Nat → Int → Int
  | 0, k => k
  | fuel + 1, k =>
    if num * Nat.pow 10 (-k).toNat ≥ den * Nat.pow 10 k.toNat then
      decimalExponent num den fuel (k + 1)
    else if num * Nat.pow 10 (1 - k).toNat < den * Nat.pow 10 (k - 1).toNat then
      decimalExponent num den fuel (k - 1)
    else k

/-- Digits and the power of ten of the last one, with no zero at the end. -/
def stripZeros : Nat → Nat → Int → Nat × Int
  | 0, n, p => (n, p)
  | fuel + 1, n, p => if n ≠ 0 && n % 10 = 0 then stripZeros fuel (n / 10) (p + 1) else (n, p)

/-- The shortest decimal that reads back as m · 2^e, for positive m. -/
def shortest (m : Nat) (e : Int) : Nat × Int :=
  let r := reach m e
  let k := decimalExponent r.value r.den 700 0
  let hit := (List.range 17).findSome? fun i =>
    let p := k - (i + 1 : Nat)
    (r.onGrid? p).map (·, p)
  match hit with
  | some (n, p) => stripZeros 18 n p
  | none => (0, 0)

/-- Digits with the point after the first `point` of them, and zeros where digits are missing. -/
def positional (digits : List Char) (point : Int) : List Char :=
  if point ≤ 0 then '0' :: '.' :: List.replicate (-point).toNat '0' ++ digits
  else
    let n := point.toNat
    if digits.length ≤ n then digits ++ List.replicate (n - digits.length) '0' ++ ['.', '0']
    else digits.take n ++ '.' :: digits.drop n

/-- Digits with the point after the first, and an exponent of at least two digits. -/
def scientific (digits : List Char) (exponent : Int) : List Char :=
  let fraction := match digits.drop 1 with
    | [] => []
    | rest => '.' :: rest
  let power := Nat.toDigits 10 exponent.natAbs
  digits.take 1 ++ fraction ++ 'e' :: (if exponent < 0 then '-' else '+') ::
    (if power.length < 2 then '0' :: power else power)

def finiteText (m : Nat) (e : Int) : List Char :=
  if m = 0 then ['0', '.', '0']
  else
    let (n, p) := shortest m e
    let digits := Nat.toDigits 10 n
    let point := (digits.length : Int) + p
    if -4 < point && point ≤ 16 then positional digits point
    else scientific digits (point - 1)

def text : Binary64 → String
  | .nan => "nan"
  | .infinite negative => if negative then "-inf" else "inf"
  | .finite negative m e =>
    String.ofList (if negative then '-' :: finiteText m e else finiteText m e)

end Storefront.Binary64
