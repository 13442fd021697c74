import Storefront.Value

/-!
Encoding of values as JSON text in ASCII. Other characters are escaped by their code units of 16
bits. The text stands on one line, or has each member on a line of its own, indented by two blanks
a level.
-/

namespace Storefront.Json

/-- A unit of 16 bits as `\u` and four hexadecimal digits. -/
def unitEscape (u : Nat) : List Char := '\\' :: 'u' :: Text.hex 4 u

def charEscape (c : Char) : List Char :=
  if c = '"' then ['\\', '"']
  else if c = '\\' then ['\\', '\\']
  else if c = '\n' then ['\\', 'n']
  else if c = '\r' then ['\\', 'r']
  else if c = '\t' then ['\\', 't']
  else if c = '\x0c' then ['\\', 'f']
  else if c = '\x08' then ['\\', 'b']
  else if 0x20 ≤ c.toNat && c.toNat < 0x7f then [c]
  else if c.toNat < 0x10000 then unitEscape c.toNat
  else
    let n := c.toNat - 0x10000
    unitEscape (0xd800 + n / 0x400) ++ unitEscape (0xdc00 + n % 0x400)

def encodeString (s : String) : List Char := '"' :: s.toList.flatMap charEscape ++ ['"']

def encodeNumber : Number → List Char
  | .int n => (toString n).toList
  | .float .nan => "NaN".toList
  | .float (.infinite negative) => (if negative then "-Infinity" else "Infinity").toList
  | .float x => x.text.toList

/-- How members are set apart: what follows the opening bracket and each comma, and what stands
before the closing bracket, by the depth of the members. -/
inductive Style where
  | compact
  | indented
  deriving DecidableEq, Repr

namespace Style

def newline (depth : Nat) : List Char := '\n' :: List.replicate (2 * depth) ' '

def opening : Style → Nat → List Char
  | .compact, _ => []
  | .indented, depth => newline depth

def separator : Style → Nat → List Char
  | .compact, _ => [',', ' ']
  | .indented, depth => ',' :: newline depth

def closing : Style → Nat → List Char
  | .compact, _ => []
  | .indented, depth => newline (depth - 1)

end Style

mutual

def encodeAt (style : Style) (depth : Nat) : Value → List Char
  | .null => "null".toList
  | .bool b => (if b then "true" else "false").toList
  | .number n => encodeNumber n
  | .str s => encodeString s
  | .list [] => ['[', ']']
  | .list (v :: vs) =>
    '[' :: style.opening (depth + 1) ++ encodeAt style (depth + 1) v ++
      encodeItems style (depth + 1) vs ++ style.closing (depth + 1) ++ [']']
  | .map [] => ['\x7b', '\x7d']
  | .map ((k, v) :: fields) =>
    '\x7b' :: style.opening (depth + 1) ++ encodeString k ++ ':' :: ' ' ::
      encodeAt style (depth + 1) v ++ encodeFields style (depth + 1) fields ++
      style.closing (depth + 1) ++ ['\x7d']

/-- The items after the first, each after a comma. -/
def encodeItems (style : Style) (depth : Nat) : List Value → List Char
  | [] => []
  | v :: vs => style.separator depth ++ encodeAt style depth v ++ encodeItems style depth vs

/-- The fields after the first, each after a comma. -/
def encodeFields (style : Style) (depth : Nat) : List (String × Value) → List Char
  | [] => []
  | (k, v) :: fields =>
    style.separator depth ++ encodeString k ++ ':' :: ' ' :: encodeAt style depth v ++
      encodeFields style depth fields

end

/-- The JSON text of a value. -/
def encode (style : Style) (v : Value) : String := String.ofList (encodeAt style 0 v)

/-- Entries in the order of their keys. -/
def sortByKey (fields : List (String × Value)) : List (String × Value) :=
  fields.mergeSort fun p q => decide (p.1 ≤ q.1)

mutual

/-- The value with the keys of every map in order. -/
def sortKeys : Value → Value
  | .list items => .list (sortKeysItems items)
  | .map fields => .map (sortByKey (sortKeysFields fields))
  | v => v

def sortKeysItems : List Value → List Value
  | [] => []
  | v :: vs => sortKeys v :: sortKeysItems vs

def sortKeysFields : List (String × Value) → List (String × Value)
  | [] => []
  | (k, v) :: fields => (k, sortKeys v) :: sortKeysFields fields

end

end Storefront.Json
