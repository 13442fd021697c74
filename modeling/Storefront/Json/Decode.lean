import Storefront.Json.Comment
import Storefront.Json.Error
import Storefront.Value

/-!
Decoding of JSON text. Beyond the standard, `NaN`, `Infinity` and `-Infinity` are numbers. A number
with a fraction or an exponent is a floating-point number and any other an integer. Of a repeated
key the last value counts, at the place of the first.
-/

namespace Storefront.Json

/-- A fault and the text from its place on. -/
structure Failure where
  fault : Fault
  rest : List Char

def isSpace (c : Char) : Bool := c = ' ' || c = '\t' || c = '\n' || c = '\r'

def skipSpace (s : List Char) : List Char := s.dropWhile isSpace

def hexValue? (c : Char) : Option Nat :=
  if '0' ≤ c && c ≤ '9' then some (c.toNat - 48)
  else if 'a' ≤ c && c ≤ 'f' then some (c.toNat - 87)
  else if 'A' ≤ c && c ≤ 'F' then some (c.toNat - 55)
  else none

/-- The unit of four hexadecimal digits, which something has to follow. -/
def codeUnit? : List Char → Option (Nat × List Char)
  | a :: b :: c :: d :: e :: s => do
    let a ← hexValue? a
    let b ← hexValue? b
    let c ← hexValue? c
    let d ← hexValue? d
    return (((a * 16 + b) * 16 + c) * 16 + d, e :: s)
  | _ => none

/-- The character that a letter after a backslash stands for. -/
def escaped? : Char → Option Char
  | '"' => some '"'
  | '\\' => some '\\'
  | '/' => some '/'
  | 'b' => some '\x08'
  | 'f' => some '\x0c'
  | 'n' => some '\n'
  | 'r' => some '\r'
  | 't' => some '\t'
  | _ => none

/-- The character of a code unit. Half of a pair has none, and U+FFFD stands for it; whether a text
with a half can be written or shown is left to the system. -/
def charOfUnit (u : Nat) : Char :=
  if 0xd800 ≤ u && u ≤ 0xdfff then '\ufffd' else Char.ofNat u

/-- The character of a high unit and the low unit after it. -/
def joinUnits (high low : Nat) : Char :=
  Char.ofNat (0x10000 + (high - 0xd800) * 0x400 + (low - 0xdc00))

/-- After `\u`: one character, of one code unit or of a pair, and what follows. -/
def unicodeEscape (s : List Char) : Except Failure (Char × List Char) :=
  match codeUnit? s with
  | none => .error ⟨.badUnicodeEscape, 'u' :: s⟩
  | some (u, rest) =>
    if 0xd800 ≤ u && u ≤ 0xdbff then
      match rest with
      | '\\' :: 'u' :: s' =>
        if (s'.drop 4).isEmpty then .ok (charOfUnit u, rest)
        else match codeUnit? s' with
          | none => .error ⟨.badUnicodeEscape, 'u' :: s'⟩
          | some (v, rest') =>
            if 0xdc00 ≤ v && v ≤ 0xdfff then .ok (joinUnits u v, rest')
            else .ok (charOfUnit u, rest)
      | _ => .ok (charOfUnit u, rest)
    else .ok (charOfUnit u, rest)

/-- The characters of a string after its opening quote, up to and over the closing one. `opening`
is the text from the opening quote on. -/
def characters (opening : List Char) : Nat → List Char → Except Failure (List Char × List Char)
  | 0, _ => .error ⟨.openString, opening⟩
  | fuel + 1, s => match s with
    | [] => .error ⟨.openString, opening⟩
    | '"' :: s => .ok ([], s)
    | '\\' :: s => match s with
      | [] => .error ⟨.openString, opening⟩
      | 'u' :: s => do
        let (c, s) ← unicodeEscape s
        let (cs, s) ← characters opening fuel s
        return (c :: cs, s)
      | c :: s => match escaped? c with
        | none => .error ⟨.badEscape, '\\' :: c :: s⟩
        | some c => do
          let (cs, s) ← characters opening fuel s
          return (c :: cs, s)
    | c :: s =>
      if c.toNat < 0x20 then .error ⟨.controlCharacter, c :: s⟩
      else do
        let (cs, s) ← characters opening fuel s
        return (c :: cs, s)

/-- A string after its opening quote. -/
def string (s : List Char) : Except Failure (String × List Char) := do
  let (cs, rest) ← characters ('"' :: s) (s.length + 1) s
  return (String.ofList cs, rest)

def isDecimal (c : Char) : Bool := '0' ≤ c && c ≤ '9'

def decimal (digits : List Char) : Nat := digits.foldl (fun n c => 10 * n + (c.toNat - 48)) 0

/-- The digits before the point: a zero alone, or digits that do not start with one. -/
def wholeDigits? : List Char → Option (List Char × List Char)
  | '0' :: s => some (['0'], s)
  | c :: s =>
    if isDecimal c then some ((c :: s).takeWhile isDecimal, s.dropWhile isDecimal) else none
  | [] => none

/-- The digits of a fraction, none where no digit follows the point. -/
def fractionDigits : List Char → List Char × List Char
  | '.' :: c :: s =>
    if isDecimal c then ((c :: s).takeWhile isDecimal, s.dropWhile isDecimal)
    else ([], '.' :: c :: s)
  | s => ([], s)

/-- The digits of an exponent after its sign, if there are any. -/
def exponentDigits? (negative : Bool) (s : List Char) : Option (Int × List Char) :=
  match s.takeWhile isDecimal with
  | [] => none
  | digits =>
    let n : Int := decimal digits
    some (if negative then -n else n, s.dropWhile isDecimal)

def exponent? : List Char → Option (Int × List Char)
  | e :: s =>
    if e = 'e' || e = 'E' then
      match s with
      | '-' :: s => exponentDigits? true s
      | '+' :: s => exponentDigits? false s
      | s => exponentDigits? false s
    else none
  | [] => none

/-- A number after its sign. -/
def unsigned? (negative : Bool) (s : List Char) : Option (Number × List Char) := do
  let (whole, s) ← wholeDigits? s
  let (fraction, s) := fractionDigits s
  let (power, s, hasExponent) := match exponent? s with
    | some (power, s) => (power, s, true)
    | none => (0, s, false)
  if fraction.isEmpty && !hasExponent then
    let n : Int := decimal whole
    return (.int (if negative then -n else n), s)
  else
    return (.float (.ofDecimal negative (decimal (whole ++ fraction)) (power - fraction.length)), s)

def number? : List Char → Option (Number × List Char)
  | '-' :: s => unsigned? true s
  | s => unsigned? false s

mutual

/-- A value at the start of the text. -/
def value : Nat → List Char → Except Failure (Value × List Char)
  | 0, s => .error ⟨.noValue, s⟩
  | fuel + 1, s => match s with
    | '"' :: s => do
      let (t, s) ← string s
      return (.str t, s)
    | '\x7b' :: s => match skipSpace s with
      | '\x7d' :: s => .ok (.map [], s)
      | s => do
        let (fields, s) ← members fuel s
        return (.map (Dict.ofList fields), s)
    | '[' :: s => match skipSpace s with
      | ']' :: s => .ok (.list [], s)
      | s => do
        let (items, s) ← elements fuel s
        return (.list items, s)
    | 'n' :: 'u' :: 'l' :: 'l' :: s => .ok (.null, s)
    | 't' :: 'r' :: 'u' :: 'e' :: s => .ok (.bool true, s)
    | 'f' :: 'a' :: 'l' :: 's' :: 'e' :: s => .ok (.bool false, s)
    | 'N' :: 'a' :: 'N' :: s => .ok (.number (.float .nan), s)
    | 'I' :: 'n' :: 'f' :: 'i' :: 'n' :: 'i' :: 't' :: 'y' :: s =>
      .ok (.number (.float (.infinite false)), s)
    | '-' :: 'I' :: 'n' :: 'f' :: 'i' :: 'n' :: 'i' :: 't' :: 'y' :: s =>
      .ok (.number (.float (.infinite true)), s)
    | s => match number? s with
      | some (n, s) => .ok (.number n, s)
      | none => .error ⟨.noValue, s⟩

/-- The elements of a list up to and over the closing bracket, at least one. -/
def elements : Nat → List Char → Except Failure (List Value × List Char)
  | 0, s => .error ⟨.noValue, s⟩
  | fuel + 1, s => do
    let (v, s) ← value fuel s
    match skipSpace s with
    | ']' :: s => return ([v], s)
    | ',' :: s => do
      let (vs, s) ← elements fuel (skipSpace s)
      return (v :: vs, s)
    | s => .error ⟨.noComma, s⟩

/-- The fields of a map up to and over the closing brace, at least one. -/
def members : Nat → List Char → Except Failure (List (String × Value) × List Char)
  | 0, s => .error ⟨.noPropertyName, s⟩
  | fuel + 1, s => match s with
    | '"' :: s => do
      let (k, s) ← string s
      match skipSpace s with
      | ':' :: s => do
        let (v, s) ← value fuel (skipSpace s)
        match skipSpace s with
        | '\x7d' :: s => return ([(k, v)], s)
        | ',' :: s => do
          let (fields, s) ← members fuel (skipSpace s)
          return ((k, v) :: fields, s)
        | s => .error ⟨.noComma, s⟩
      | s => .error ⟨.noColon, s⟩
    | s => .error ⟨.noPropertyName, s⟩

end

/-- A value with blanks around it and nothing else. -/
def document (s : List Char) : Except Failure Value :=
  match s with
  | '\ufeff' :: _ => .error ⟨.byteOrderMark, s⟩
  | _ => do
    let (v, rest) ← value (2 * s.length + 2) (skipSpace s)
    match skipSpace rest with
    | [] => return v
    | rest => .error ⟨.extraData, rest⟩

/-- The value that the text holds. -/
def decode (s : List Char) : Except Error Value :=
  match document s with
  | .ok v => .ok v
  | .error f => .error (.after (s.take (s.length - f.rest.length)) f.fault)

/-- The value that the text holds once its comments are removed. -/
def decodeCommented (s : List Char) : Except Error Value := decode (stripComments s)

end Storefront.Json
