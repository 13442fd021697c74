import Storefront.Asset.Url.Template
import Storefront.Text.Digit
import Storefront.Text.Quoted

/-!
What fields of URL templates stand for. The only name is that of the file name; a field can take
attributes and characters of it, convert it, cut it off and pad it.
-/

namespace Storefront.Asset.Url

/-- An object that a field leads to: a text, or one that is known by a reference to it. -/
inductive Subject where
  | text (s : List Char)
  | other (reference : Nat)

/-- What stands in square brackets. -/
inductive Index where
  | position (n : Nat)
  | key (s : List Char)

/-- How an object is made a text. -/
inductive Conversion where
  | plain
  | quoted
  /-- Quoted, and all characters beyond ASCII by their code points. -/
  | ascii
  deriving DecidableEq

/-- What the system knows of objects: the attributes of all, and of those that are no texts also
their items, conversions and formats. -/
structure Objects where
  attributeOf : Subject → List Char → Except UrlError Subject
  itemOf : Nat → Index → Except UrlError Subject
  convert : Nat → Conversion → Except UrlError (List Char)
  format : Nat → List Char → Except UrlError (List Char)

/-- Nothing but texts, which have no attributes. -/
def Objects.texts : Objects where
  attributeOf _ name := .error (.noAttribute (.ofList name))
  itemOf _ _ := .error .wrongType
  convert _ _ := .error .wrongType
  format _ _ := .error .wrongType

/-! ### Numbers -/

/-- The greatest index and width. -/
def maxInteger : Nat := 0x7fffffffffffffff

def integerAfter (n : Nat) : List Char → Except UrlError (Option Nat)
  | [] => .ok (some n)
  | c :: s => match Text.digitValue? c with
    | none => .ok none
    | some d =>
      if maxInteger < 10 * n + d then .error .malformedField else integerAfter (10 * n + d) s

/-- The number that a text is, if it is one. It can be too large before it proves to be none. -/
def integer? (s : List Char) : Except UrlError (Option Nat) :=
  if s.isEmpty then .ok none else integerAfter 0 s

/-- The number in front of a text, if there is one, and what follows. -/
def leadingInteger (s : List Char) : Except UrlError (Option Nat × List Char) :=
  return (← integer? (s.takeWhile Text.isDigit), s.dropWhile Text.isDigit)

/-! ### Names -/

inductive Accessor where
  | ofName (name : List Char)
  | ofIndex (key : List Char)
  /-- From here on the name cannot be read. -/
  | fault

def opensAccessor (c : Char) : Bool := c = '.' || c = '['

/-- What a name takes of its value, of which so many characters belong to the accessor before. -/
def accessorsAfter : Nat → List Char → List Accessor
  | _, [] => []
  | passed + 1, _ :: s => accessorsAfter passed s
  | 0, c :: s =>
    if c = '.' then
      let name := s.takeWhile (!opensAccessor ·)
      .ofName name :: accessorsAfter name.length s
    else if c = '[' then
      let key := s.takeWhile (· ≠ ']')
      if key.length = s.length then [.fault] else .ofIndex key :: accessorsAfter (key.length + 1) s
    else [.fault]

/-- The character of a text at a position. -/
def characterOf (s : List Char) : Index → Except UrlError Subject
  | .position n => match s[n]? with
    | some c => .ok (.text [c])
    | none => .error .noCharacter
  | .key _ => .error .wrongType

def Subject.access (objects : Objects) (x : Subject) : Accessor → Except UrlError Subject
  | .ofName name => if name.isEmpty then .error .malformedField else objects.attributeOf x name
  | .ofIndex key => do
    let index := match ← integer? key with
      | some n => .position n
      | none => .key key
    if key.isEmpty then .error .malformedField
    else match x with
      | .text s => characterOf s index
      | .other reference => objects.itemOf reference index
  | .fault => .error .malformedField

/-- What a field leads to, where the file name stands for the text. -/
def Field.subject (objects : Objects) (filename : List Char) (f : Field) :
    Except UrlError Subject := do
  let name := f.name.takeWhile (!opensAccessor ·)
  match ← integer? name with
  | some _ => .error .positionalField
  | none =>
    if name.isEmpty then .error .positionalField
    else if name ≠ "filename".toList then .error (.unknownField (.ofList name))
    else
      (accessorsAfter 0 (f.name.drop name.length)).foldlM (Subject.access objects) (.text filename)

/-! ### Conversions -/

namespace Conversion

def ofChar? : Char → Option Conversion
  | 's' => some plain
  | 'r' => some quoted
  | 'a' => some ascii
  | _ => none

/-- What a text is converted to. -/
def apply (s : List Char) : Conversion → List Char
  | plain => s
  | quoted => (Text.quoted (.ofList s)).toList
  | ascii => (Text.quoted (.ofList s)).toList.flatMap fun c =>
    if c.toNat < 0x80 then [c] else Text.codePointEscape c

end Conversion

/-- The null character stands for no conversion. -/
def Subject.convert (objects : Objects) (x : Subject) : Option Char → Except UrlError Subject
  | none | some '\x00' => .ok x
  | some c => match Conversion.ofChar? c, x with
    | none, _ => .error .malformedField
    | some k, .text s => .ok (.text (k.apply s))
    | some k, .other reference => (objects.convert reference k).map .text

/-! ### Formats -/

def isAlignment (c : Char) : Bool := c = '<' || c = '>' || c = '=' || c = '^'

/-- What fills a text up, if that is told, on which side the text stands, and what follows. -/
def alignment : List Char → Option Char × Char × List Char
  | fill :: align :: s =>
    if isAlignment align then (some fill, align, s)
    else if isAlignment fill then (none, fill, align :: s)
    else (none, '<', fill :: align :: s)
  | [c] => if isAlignment c then (none, c, []) else (none, '<', [c])
  | [] => (none, '<', [])

/-- A zero before the width fills the text up where nothing else does. -/
def fillOf : Option Char → List Char → Char × List Char
  | some fill, s => (fill, s)
  | none, '0' :: s => ('0', s)
  | none, s => (' ', s)

/-- The length that a text is cut off at, if there is one, and what follows. -/
def precision : List Char → Except UrlError (Option Nat × List Char)
  | '.' :: s => do
    let (some n, rest) ← leadingInteger s | .error .malformedField
    return (some n, rest)
  | s => .ok (none, s)

/-- The text filled up to a width. -/
def padded (fill align : Char) (width : Nat) (s : List Char) : List Char :=
  let missing := width - s.length
  let before := if align = '>' then missing else if align = '^' then missing / 2 else 0
  .replicate before fill ++ s ++ .replicate (missing - before) fill

/-- A text in a format. What formats can ask of numbers alone, as signs and separators, is refused
with whatever else stands where only the letter of texts may. -/
def formatText (s format : List Char) : Except UrlError (List Char) :=
  if format.isEmpty then .ok s
  else do
    let (fill, align, rest) := alignment format
    let (fill, rest) := fillOf fill rest
    let (width, rest) ← leadingInteger rest
    let (length, rest) ← precision rest
    if align = '=' || !(rest = [] || rest = ['s']) then .error .malformedField
    else return padded fill align (width.getD 0) (s.take (length.getD s.length))

def Subject.inFormat (objects : Objects) (format : List Char) :
    Subject → Except UrlError (List Char)
  | .text s => formatText s format
  | .other reference => objects.format reference format

/-! ### Templates -/

/-- The text of a field. Its format may hold fields itself and is expanded then. -/
def Field.value (objects : Objects) (filename : List Char)
    (expand : List Char → Except UrlError (List Char)) (f : Field) :
    Except UrlError (List Char) := do
  let x ← f.subject objects filename
  let x ← x.convert objects f.conversion
  let format := f.format.getD []
  x.inFormat objects (← if format.contains '\x7b' then expand format else pure format)

def Part.value (field : Field → Except UrlError (List Char)) :
    Part → Except UrlError (List Char)
  | .char c | .brace c => .ok [c]
  | .field f => field f
  | .fault e => .error e

/-- The text of a template, in which fields may stand in formats of others at less than `depth`. -/
def expand (objects : Objects) (filename : List Char) :
    Nat → List Char → Except UrlError (List Char)
  | 0, _ => .error .malformedField
  | depth + 1, s => do
    let field := Field.value objects filename (expand objects filename depth)
    return (← (parts s).mapM (Part.value field)).flatten

/-- Fields may stand in the format of a field, but not in those of such fields. -/
def maxDepth : Nat := 2

end Storefront.Asset.Url
