/-!
Errors of JSON text and the place in the text where they stand.
-/

namespace Storefront.Json

inductive Fault where
  | byteOrderMark
  | noValue
  | noPropertyName
  | noColon
  | noComma
  | extraData
  | openString
  | controlCharacter
  | badEscape
  | badUnicodeEscape
  deriving DecidableEq, Repr

def Fault.text : Fault → String
  | .byteOrderMark => "Unexpected UTF-8 BOM (decode using utf-8-sig)"
  | .noValue => "Expecting value"
  | .noPropertyName => "Expecting property name enclosed in double quotes"
  | .noColon => "Expecting ':' delimiter"
  | .noComma => "Expecting ',' delimiter"
  | .extraData => "Extra data"
  | .openString => "Unterminated string starting at"
  | .controlCharacter => "Invalid control character at"
  | .badEscape => "Invalid \\escape"
  | .badUnicodeEscape => "Invalid \\uXXXX escape"

/-- A fault with its place: the number of characters before it, its line and its column, both
counted from 1. Only a line feed ends a line. -/
structure Error where
  fault : Fault
  line : Nat
  column : Nat
  position : Nat
  deriving DecidableEq, Repr

/-- The error at the place before which `before` is the text. -/
def Error.after (before : List Char) (fault : Fault) : Error :=
  { fault
    line := before.count '\n' + 1
    column := (before.reverse.takeWhile (· ≠ '\n')).length + 1
    position := before.length }

def Error.message (e : Error) : String :=
  s!"{e.fault.text}: line {e.line} column {e.column} (char {e.position})"

end Storefront.Json
