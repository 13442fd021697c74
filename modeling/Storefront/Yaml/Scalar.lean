import Storefront.Number
import Storefront.Text.Dotted
import Storefront.Yaml.Error

/-!
What plain scalars stand for, by the forms of YAML 1.2: null, booleans, integers in four bases,
floating-point numbers, dates, and else texts.
-/

namespace Storefront.Yaml

/-- What the form of a plain scalar tells. -/
inductive Form where
  | null
  | bool (b : Bool)
  | float
  | int
  | merge
  | date
  | default
  | text
  deriving DecidableEq, Repr

namespace Form

def isSign (c : Char) : Bool := c = '+' || c = '-'

def isDigit (c : Char) : Bool := '0' ≤ c && c ≤ '9'

def isDigitOrLine (c : Char) : Bool := isDigit c || c = '_'

def dropSign : List Char → List Char
  | c :: s => if isSign c then s else c :: s
  | [] => []

/-- Digits of a base, with underlines among them, at least one of either. -/
def isRun (test : Char → Bool) (s : List Char) : Bool :=
  !s.isEmpty && s.all fun c => test c || c = '_'

def isIntBody : List Char → Bool
  | '0' :: 'b' :: s => isRun (fun c => c = '0' || c = '1') s
  | '0' :: 'x' :: s => isRun (fun c => isDigit c || ('a' ≤ c && c ≤ 'f') || ('A' ≤ c && c ≤ 'F')) s
  | '0' :: 'o' :: s => isRun (fun c => '0' ≤ c && c ≤ '7') s
  | s => isRun isDigit s

def isInt (s : List Char) : Bool := isIntBody (dropSign s)

/-- An exponent with digits; its sign may be missing unless `signed`. -/
def isExponent (signed : Bool) : List Char → Bool
  | e :: s =>
    (e = 'e' || e = 'E') && (match s with
      | c :: t => if isSign c then !t.isEmpty && t.all isDigit else !signed && s.all isDigit
      | [] => false)
  | [] => false

def isFloatBody (s : List Char) : Bool :=
  match s with
  | '.' :: t =>
    let rest := t.dropWhile isDigitOrLine
    rest.length < t.length && (rest.isEmpty || isExponent true rest)
  | c :: _ =>
    isDigit c && (match s.dropWhile isDigitOrLine with
      | '.' :: t =>
        let rest := t.dropWhile isDigitOrLine
        rest.isEmpty || isExponent false rest
      | rest => isExponent false rest)
  | [] => false

def isInfinity (s : List Char) : Bool :=
  [".inf", ".Inf", ".INF"].contains (String.ofList (dropSign s))

def isNan (s : List Char) : Bool := [".nan", ".NaN", ".NAN"].contains (String.ofList s)

def isFloat (s : List Char) : Bool := isFloatBody (dropSign s) || isInfinity s || isNan s

/-- The number of `min` to `max` digits at the start of the text, and what follows them. -/
def digits? (min max : Nat) (s : List Char) : Option (Nat × List Char) :=
  let run := (s.take max).takeWhile isDigit
  if run.length < min then none
  else some (run.foldl (fun n c => 10 * n + (c.toNat - 48)) 0, s.drop run.length)

def char? (c : Char) : List Char → Option (List Char)
  | d :: s => if c = d then some s else none
  | [] => none

structure Date where
  year : Nat
  month : Nat
  day : Nat
  /-- Hour, minute and second, where a time is given. -/
  time : Option (Nat × Nat × Nat)

def dropBlanks (s : List Char) : List Char := s.dropWhile fun c => c = ' ' || c = '\t'

/-- What separates a time from the day before it. -/
def timeStart? : List Char → Option (List Char)
  | 'T' :: s | 't' :: s => some s
  | s => let rest := dropBlanks s
    if rest.length < s.length then some rest else none

def isZone (s : List Char) : Bool :=
  match dropBlanks s with
  | [] => s.isEmpty
  | ['Z'] => true
  | c :: s => isSign c && (match digits? 1 2 s with
    | some (_, []) => true
    | some (_, ':' :: s) => (match digits? 2 2 s with
      | some (_, []) => true
      | _ => false)
    | _ => false)

def dropFraction : List Char → List Char
  | '.' :: s => s.dropWhile isDigit
  | s => s

def time? (s : List Char) : Option (Nat × Nat × Nat) := do
  let s ← timeStart? s
  let (hour, s) ← digits? 1 2 s
  let (minute, s) ← digits? 2 2 (← char? ':' s)
  let (second, s) ← digits? 2 2 (← char? ':' s)
  if isZone (dropFraction s) then some (hour, minute, second) else none

/-- A day, or a day and a time. Without a time month and day have two digits. -/
def date? (s : List Char) : Option Date := do
  let (year, s) ← digits? 4 4 s
  let afterYear ← char? '-' s
  let (month, s) ← digits? 1 2 afterYear
  let afterMonth ← char? '-' s
  let (day, s) ← digits? 1 2 afterMonth
  if s.isEmpty then
    if afterYear.length = 5 && afterMonth.length = 2 then some ⟨year, month, day, none⟩ else none
  else
    let time ← time? s
    return ⟨year, month, day, some time⟩

def daysIn (year month : Nat) : Nat :=
  if month = 2 then
    if year % 4 = 0 && (year % 100 ≠ 0 || year % 400 = 0) then 29 else 28
  else if month = 4 || month = 6 || month = 9 || month = 11 then 30
  else 31

/-- The date is one of the calendar, and the time one of the clock. -/
def Date.isPossible (d : Date) : Bool :=
  d.year ≠ 0 && d.month ≠ 0 && d.month ≤ 12 && d.day ≠ 0 && d.day ≤ daysIn d.year d.month &&
    (match d.time with
    | some (hour, minute, second) => hour < 24 && minute < 60 && second < 60
    | none => true)

/-- The form of the text of a plain scalar. -/
def ofText (text : String) : Form :=
  let s := text.toList
  match text with
  | "" | "~" | "null" | "Null" | "NULL" => .null
  | "true" | "True" | "TRUE" => .bool true
  | "false" | "False" | "FALSE" => .bool false
  | "<<" => .merge
  | "=" => .default
  | _ =>
    let first := s.head?.getD ' '
    if isSign first || isDigit first || first = '.' then
      if isFloat s then .float
      else if first ≠ '.' && isInt s then .int
      else if (date? s).isSome then .date
      else .text
    else .text

end Form

namespace Scalar

def digitOf (c : Char) : Nat :=
  if Form.isDigit c then c.toNat - 48
  else if 'a' ≤ c && c ≤ 'f' then c.toNat - 87
  else if 'A' ≤ c && c ≤ 'F' then c.toNat - 55
  else 99

/-- The number that the digits of a base write. -/
def natural (base : Nat) (digits : List Char) : Except Error Nat :=
  if digits.isEmpty || digits.any fun c => base ≤ digitOf c then .error .impossibleScalar
  else .ok (digits.foldl (fun n c => base * n + digitOf c) 0)

/-- The integer of a text in one of four bases. -/
def int (s : List Char) : Except Error Int := do
  let s := s.filter (· ≠ '_')
  let negative := s.head? = some '-'
  let n ← match Form.dropSign s with
    | '0' :: 'b' :: digits => natural 2 digits
    | '0' :: 'x' :: digits => natural 16 digits
    | '0' :: 'o' :: digits => natural 8 digits
    | digits => natural 10 digits
  return if negative then -(n : Int) else n

/-- The exponent after a mantissa. -/
def exponent : List Char → Except Error Int
  | _ :: s => int s
  | [] => .ok 0

/-- The floating-point number of a text. -/
def float (s : List Char) : Except Error Binary64 := do
  let s := s.filter (· ≠ '_')
  let negative := s.head? = some '-'
  if Form.isInfinity s then return .infinite negative
  else if Form.isNan s then return .nan
  else
    let body := Form.dropSign s
    let whole := body.takeWhile Form.isDigit
    let (fraction, rest) := match body.drop whole.length with
      | '.' :: t => (t.takeWhile Form.isDigit, t.dropWhile Form.isDigit)
      | t => ([], t)
    let power ← exponent rest
    let digits ← natural 10 (whole ++ fraction)
    return .ofDecimal negative digits (power - fraction.length)

end Scalar

end Storefront.Yaml
