import Storefront.Json.Decode
import Storefront.Yaml.Cursor

/-!
Scalars of YAML texts: plain, quoted and block ones, each with the place after it.
-/

namespace Storefront.Yaml

/-- What stands for line breaks between two words: a blank for one, else all but the first. -/
def foldedBreaks (first : Char) (further : List Char) : List Char :=
  if first ≠ '\n' then first :: further
  else if further.isEmpty then [' ']
  else further

/-- The line breaks from the start of a line to the next word, with blanks among them, and the
place after them. There are none where a marker starts a line. -/
def breaksToWord (blank : Char → Bool) : Nat → Cursor → Option (List Char) × Cursor
  | 0, c => (some [], c)
  | fuel + 1, c =>
    if isMarker c.rest then (none, c)
    else
      let c := c.skipWhile blank
      match c.lineBreak? with
      | none => (some [], c)
      | some (x, c) =>
        let (breaks, c) := breaksToWord blank fuel c
        (breaks.map (x :: ·), c)

namespace Plain

def isFlowIndicator (c : Char) : Bool :=
  c = ',' || c = '[' || c = ']' || c = '\x7b' || c = '\x7d'

/-- The word at the start of the text; a colon belongs to it unless a gap follows. -/
def word (inFlow : Bool) : List Char → List Char
  | [] => []
  | c :: s =>
    if isBlank c || isLineEnd c || (c = ':' && atGap s) || (inFlow && isFlowIndicator c) then []
    else c :: word inFlow s

/-- What comes after a word: the text that stands for it before another word, and whether a line
break is in it. -/
structure Gap where
  text : List Char
  broken : Bool

/-- The gap at a place; no word follows where its text is empty. Tabs are no part of it. -/
def gap (c : Cursor) : Gap × Cursor :=
  let blanks := c.rest.takeWhile (· = ' ')
  let c := c.skip blanks.length
  match c.lineBreak? with
  | none => (⟨blanks, false⟩, c)
  | some (x, c) => match breaksToWord (· = ' ') (c.rest.length + 1) c with
    | (some breaks, c) => (⟨foldedBreaks x breaks, true⟩, c)
    | (none, c) => (⟨[], true⟩, c)

/-- The words of a plain scalar after a gap, with the place after them and whether a line break
comes last. -/
def words (inFlow : Bool) (indent : Int) : Nat → Gap → Cursor → List Char × Cursor × Bool
  | 0, g, c => ([], c, g.broken)
  | fuel + 1, g, c =>
    let first := word inFlow c.rest
    if c.rest.head? = some '#' || first.isEmpty then ([], c, g.broken)
    else
      let text := g.text ++ first
      let (g, c) := gap (c.skip first.length)
      if g.text.isEmpty || (!inFlow && c.column < indent) then (text, c, g.broken)
      else
        let (more, c, broken) := words inFlow indent fuel g c
        (text ++ more, c, broken)

/-- A plain scalar, and whether a line break comes after it. -/
def scalar (inFlow : Bool) (indent : Int) (c : Cursor) : List Char × Cursor × Bool :=
  words inFlow indent (c.rest.length + 1) ⟨[], false⟩ c

end Plain

namespace Quoted

/-- The character of an escape of one letter. -/
def simpleEscape? : Char → Option Char
  | '0' => some '\x00'
  | 'a' => some '\x07'
  | 'b' => some '\x08'
  | 't' | '\t' => some '\t'
  | 'n' => some '\n'
  | 'v' => some '\x0b'
  | 'f' => some '\x0c'
  | 'r' => some '\r'
  | 'e' => some '\x1b'
  | ' ' => some ' '
  | '"' => some '"'
  | '/' => some '/'
  | '\\' => some '\\'
  | 'N' => some '\u0085'
  | '_' => some '\u00a0'
  | 'L' => some '\u2028'
  | 'P' => some '\u2029'
  | _ => none

/-- The number of hexadecimal digits after a letter. -/
def hexLength? : Char → Option Nat
  | 'x' => some 2
  | 'u' => some 4
  | 'U' => some 8
  | _ => none

/-- The number of an escape after its backslash, and the length of the escape. -/
def hexEscape? : List Char → Option (Nat × Nat)
  | [] => none
  | c :: s => do
    let length ← hexLength? c
    let digits := s.take length
    let n ← digits.foldlM (fun n d => (Json.hexValue? d).map (16 * n + ·)) 0
    if digits.length = length then some (n, length + 1) else none

/-- The second half of a surrogate pair, from the backslash of its escape on. -/
def lowHalf? : List Char → Option (Nat × Nat)
  | '\\' :: s => (hexEscape? s).filter fun (n, _) => 0xdc00 ≤ n && n ≤ 0xdfff
  | _ => none

/-- The character of an escape after its backslash, and the length of the escape. Two escapes may
be the halves of a surrogate pair; a half alone stands for the replacement character. -/
def escape (s : List Char) : Except Error (Char × Nat) :=
  match s.head?.bind simpleEscape? with
  | some c => .ok (c, 1)
  | none => match hexEscape? s with
    | none => .error .malformed
    | some (n, length) =>
      if 0x7fffffff < n then .error .escapeTooLarge
      else if 0x10ffff < n then .error .noSuchCharacter
      else if n.isValidChar then .ok (Char.ofNat n, length)
      else match (lowHalf? (s.drop length)).filter fun _ => n ≤ 0xdbff with
        | some (low, more) =>
          .ok (Char.ofNat (0x10000 + (n - 0xd800) * 0x400 + (low - 0xdc00)), length + 1 + more)
        | none => .ok ('\ufffd', length)

/-- The breaks at the start of a line of a quoted scalar; no marker may stand there. -/
def breaks (c : Cursor) : Except Error (List Char × Cursor) :=
  match breaksToWord isBlank (c.rest.length + 1) c with
  | (some breaks, c) => .ok (breaks, c)
  | (none, _) => .error .malformed

/-- The characters of a quoted scalar after its opening quote, with the place after the closing
one. -/
def characters (double : Bool) : Nat → Cursor → Except Error (List Char × Cursor)
  | 0, _ => .error .malformed
  | fuel + 1, c =>
    let add (text : List Char) (c : Cursor) := do
      let (more, c) ← characters double fuel c
      return (text ++ more, c)
    match c.rest with
    | [] => .error .malformed
    | '\'' :: s =>
      if double then add ['\''] c.next
      else match s with
        | '\'' :: _ => add ['\''] (c.skip 2)
        | _ => .ok ([], c.next)
    | '"' :: _ => if double then .ok ([], c.next) else add ['"'] c.next
    | '\\' :: s =>
      if !double then add ['\\'] c.next
      else match c.next.lineBreak? with
        | some (_, c) => do
          let (text, c) ← breaks c
          add text c
        | none => do
          let (d, length) ← escape s
          add [d] (c.skip (length + 1))
    | d :: s =>
      if isBlank d || isBreak d then
        let blanks := (d :: s).takeWhile isBlank
        let c := c.skip blanks.length
        match c.lineBreak? with
        | none => add blanks c
        | some (x, c) => do
          let (further, c) ← breaks c
          add (foldedBreaks x further) c
      else add [d] c.next

/-- A quoted scalar after its opening quote. -/
def scalar (double : Bool) (c : Cursor) : Except Error (List Char × Cursor) :=
  characters double (c.rest.length + 1) c

end Quoted

namespace Block

/-- What the line breaks at the end of a block scalar become. -/
inductive Chomping where
  | strip
  | clip
  | keep
  deriving DecidableEq

/-- What is left of the last line's break and of those of the empty lines after it. -/
def Chomping.apply (last further : List Char) : Chomping → List Char
  | .strip => []
  | .clip => last
  | .keep => last ++ further

structure Header where
  folded : Bool
  chomping : Chomping
  /-- The indentation beyond that of the parent, where it is given. -/
  increment : Option Nat

def chomping? : Char → Option Chomping
  | '+' => some .keep
  | '-' => some .strip
  | _ => none

def increment? (c : Char) : Option Nat :=
  if '1' ≤ c && c ≤ '9' then some (c.toNat - 48) else none

/-- The indicators after the opening character, and how many they are. -/
def indicators : List Char → Option Chomping × Option Nat × Nat
  | c :: s => match chomping? c, increment? c with
    | some chomping, _ => match s.head?.bind increment? with
      | some n => (some chomping, some n, 2)
      | none => (some chomping, none, 1)
    | none, some n => match s.head?.bind chomping? with
      | some chomping => (some chomping, some n, 2)
      | none => (none, some n, 1)
    | none, none => (none, none, 0)
  | [] => (none, none, 0)

/-- The header after its opening character, with the place at the start of the next line. -/
def header (folded : Bool) (c : Cursor) : Except Error (Header × Cursor) :=
  let (chomping, increment, length) := indicators c.rest
  let c := c.skip length
  if !atSpace c.rest then .error .malformed
  else match c.nextLine? with
    | none => .error .malformed
    | some c => .ok ({ folded, chomping := chomping.getD .clip, increment }, c)

/-- The empty lines before a block scalar. -/
structure Lead where
  breaks : List Char
  /-- The column of the first break. -/
  first : Option Nat
  /-- The column after the most spaces, in one of the lines or in the line after them. -/
  widest : Nat

def lead : Nat → Cursor → Lead × Cursor
  | 0, c => (⟨[], none, 0⟩, c)
  | fuel + 1, c =>
    let d := c.skipWhile (· = ' ')
    let widest := if d.index = c.index then 0 else d.column
    match d.lineBreak? with
    | none => (⟨[], none, widest⟩, d)
    | some (x, c) =>
      let (l, c) := lead fuel c
      (⟨x :: l.breaks, some d.column, max widest l.widest⟩, c)

/-- The breaks of empty lines, up to the column `indent` of the line after them. -/
def emptyLines (indent : Nat) : Nat → Cursor → List Char × Cursor
  | 0, c => ([], c)
  | fuel + 1, c =>
    let spaces := (c.rest.takeWhile (· = ' ')).length
    let c := c.skip (min spaces (indent - c.column))
    match c.lineBreak? with
    | none => ([], c)
    | some (x, c) =>
      let (breaks, c) := emptyLines indent fuel c
      (x :: breaks, c)

def startsBlank (c : Cursor) : Bool := (c.rest.head?.map isBlank).getD false

/-- What joins a line that ends in `last` to the next one, with `further` breaks between them. In
a folded scalar a single break is a blank, but not beside a line that starts with a blank. -/
def joint (folded blankStart : Bool) (last further : List Char) : List Char :=
  if folded && last = ['\n'] && !blankStart then (if further.isEmpty then [' '] else [])
  else last

/-- The lines of a block scalar from the first character of one on, after the `breaks` of empty
lines. A scalar of its own that is not indented (`bare`) ends before a marker. -/
def lines (h : Header) (indent : Nat) (bare : Bool) :
    Nat → List Char → Cursor → List Char × Cursor
  | 0, _, c => ([], c)
  | fuel + 1, breaks, c =>
    if c.column ≠ indent || c.rest.isEmpty then (h.chomping.apply [] breaks, c)
    else
      let line := c.rest.takeWhile (!isLineEnd ·)
      let e := c.skip line.length
      let (last, e) := match e.lineBreak? with
        | some (x, e) => ([x], e)
        | none => ([], e)
      let (further, d) := emptyLines indent (e.rest.length + 1) e
      let ends := d.column ≠ indent || d.rest.isEmpty ||
        (bare && d.column = 0 && isMarker d.rest)
      if ends then (breaks ++ line ++ h.chomping.apply last further, d)
      else
        let joint := joint h.folded (startsBlank c || startsBlank d) last further
        let (more, c) := lines h indent bare fuel further d
        (breaks ++ line ++ joint ++ more, c)

/-- A block scalar after its opening character, inside a collection of the indentation `parent`.
Where no indentation is given, the first empty line may not be narrower than a later line. -/
def scalar (folded : Bool) (parent : Int) (c : Cursor) : Except Error (List Char × Cursor) := do
  let (h, c) ← header folded c
  let least := (parent + 1).toNat
  let fuel := c.rest.length + 1
  match h.increment with
  | some n =>
    let indent := max least 1 + n - 1
    let (breaks, c) := emptyLines indent fuel c
    return lines h indent false fuel breaks c
  | none =>
    let (l, c) := lead fuel c
    if (l.first.map fun n => 0 < n && n < l.widest).getD false then .error .malformed
    else return lines h (max least l.widest) (least = 0) fuel l.breaks c

end Block

end Storefront.Yaml
