import Storefront.Yaml.Error

/-!
A place in a YAML text, with the line and column that indentation goes by, and the classes of
characters that set lines and words apart.
-/

namespace Storefront.Yaml

structure Cursor where
  rest : List Char
  index : Nat
  line : Nat
  column : Nat

def isBlank (c : Char) : Bool := c = ' ' || c = '\t'

/-- A break that ends comments, words and the lines of a block scalar. -/
def isLineEnd (c : Char) : Bool := c = '\n' || c = '\r' || c = '\u0085'

def isBreak (c : Char) : Bool := isLineEnd c || c = '\u2028' || c = '\u2029'

def atLineEnd : List Char → Bool
  | [] => true
  | c :: _ => isLineEnd c

/-- The text ends here or goes on with a blank or the end of the line. -/
def atGap : List Char → Bool
  | [] => true
  | c :: _ => isBlank c || isLineEnd c

/-- The text ends here or goes on with a space or a line break. -/
def atSpace : List Char → Bool
  | [] => true
  | c :: _ => c = ' ' || isBreak c

/-- Three dashes or dots that stand alone. -/
def isMarker : List Char → Bool
  | '-' :: '-' :: '-' :: s => atGap s
  | '.' :: '.' :: '.' :: s => atGap s
  | _ => false

/-- A character that may stand in a YAML text. -/
def isAllowed (c : Char) : Bool :=
  let n := c.toNat
  n = 0x09 || n = 0x0a || n = 0x0d || (0x20 ≤ n && n ≤ 0x7e) || n = 0x85 ||
    (0xa0 ≤ n && n ≤ 0xd7ff) || (0xe000 ≤ n && n ≤ 0xfffd) || 0x10000 ≤ n

namespace Cursor

/-- The start of a text, after a byte order mark. -/
def start (s : List Char) : Cursor :=
  match s with
  | '\ufeff' :: s => { rest := s, index := 1, line := 0, column := 0 }
  | s => { rest := s, index := 0, line := 0, column := 0 }

/-- The place after one character. Lines are counted by line feeds, and by carriage returns that
none follows; a byte order mark takes no column. -/
def next (c : Cursor) : Cursor :=
  match c.rest with
  | [] => c
  | x :: s =>
    if x = '\n' || (x = '\r' && s.head? ≠ some '\n') then
      { rest := s, index := c.index + 1, line := c.line + 1, column := 0 }
    else
      let column := if x = '\ufeff' then c.column else c.column + 1
      { rest := s, index := c.index + 1, line := c.line, column }

/-- The place after a number of characters. -/
def skip : Nat → Cursor → Cursor
  | 0, c => c
  | n + 1, c => skip n c.next

/-- The place of the first character that fails the test. -/
def skipWhile (test : Char → Bool) (c : Cursor) : Cursor :=
  c.skip (c.rest.takeWhile test).length

/-- The line break at the place, as it counts in a scalar, and the place after it. -/
def lineBreak? (c : Cursor) : Option (Char × Cursor) :=
  match c.rest with
  | [] => none
  | x :: s =>
    if x = '\r' && s.head? = some '\n' then some ('\n', c.skip 2)
    else if isLineEnd x then some ('\n', c.next)
    else if isBreak x then some (x, c.next)
    else none

def skipComment (c : Cursor) : Cursor :=
  if c.rest.head? = some '#' then c.skipWhile (!isLineEnd ·) else c

/-- The start of the next line, if nothing but spaces and a comment comes before it. -/
def nextLine? (c : Cursor) : Option Cursor :=
  let c := (c.skipWhile (· = ' ')).skipComment
  if atLineEnd c.rest then some ((c.lineBreak?.map (·.2)).getD c) else none

end Cursor

end Storefront.Yaml
