/-!
Templates of URLs, read as literal characters and fields. A brace that is written twice stands for
itself; any other one opens a field or closes it.
-/

namespace Storefront.Asset

/-- What can be wrong with a template. -/
inductive UrlError where
  /-- A brace is not written twice, and belongs to no field. -/
  | strayBrace
  /-- A field cannot be read, or asks for a conversion or a format that its value has not. -/
  | malformedField
  /-- A field has a number for a name, or none. -/
  | positionalField
  | unknownField (name : String)
  /-- A field asks for a character after the last one. -/
  | noCharacter
  /-- A field takes its value for one of another type. -/
  | wrongType
  | noAttribute (name : String)
  deriving DecidableEq, Repr

namespace Url

/-- What stands between the braces of a field: a name with what is taken of its value, then, after
an exclamation mark, a conversion, and after a colon the format. -/
structure Field where
  name : List Char
  conversion : Option Char
  format : Option (List Char)
  deriving DecidableEq

inductive Part where
  | char (c : Char)
  /-- A brace that is written twice. -/
  | brace (c : Char)
  | field (f : Field)
  /-- From here on the template cannot be read. -/
  | fault (e : UrlError)
  deriving DecidableEq

def isBrace (c : Char) : Bool := c = '\x7b' || c = '\x7d'

/-- A character that ends the name of a field. -/
def endsName (c : Char) : Bool := c = '\x7d' || c = ':' || c = '!'

/-- The name of a field with what ends it and what follows; in square brackets nothing ends it. -/
def readName : Bool → List Char → Option (List Char × Char × List Char)
  | _, [] => none
  | true, c :: s => (readName (c ≠ ']') s).map fun (name, rest) => (c :: name, rest)
  | false, c :: s =>
    if c = '\x7b' then none
    else if endsName c then some ([], c, s)
    else (readName (c = '[') s).map fun (name, rest) => (c :: name, rest)

/-- How many braces are open after a character. -/
def openAfter (c : Char) (depth : Nat) : Nat :=
  if c = '\x7b' then depth + 1 else if c = '\x7d' then depth - 1 else depth

/-- The format of a field and what follows its closing brace, with so many braces open in the
format. -/
def readFormat : Nat → List Char → Option (List Char × List Char)
  | _, [] => none
  | depth, c :: s =>
    if c = '\x7d' && depth = 0 then some ([], s)
    else (readFormat (openAfter c depth) s).map fun (format, rest) => (c :: format, rest)

/-- A field after its opening brace, and what follows its closing one. -/
def readField (s : List Char) : Option (Field × List Char) := do
  let (name, stop, rest) ← readName false s
  if stop = '\x7d' then return (⟨name, none, none⟩, rest)
  else if stop = ':' then
    let (format, rest) ← readFormat 0 rest
    return (⟨name, none, some format⟩, rest)
  else match rest with
    | c :: '\x7d' :: rest => return (⟨name, some c, none⟩, rest)
    | c :: ':' :: rest =>
      let (format, rest) ← readFormat 0 rest
      return (⟨name, some c, some format⟩, rest)
    | _ => none

/-- The parts of a text, of which so many characters belong to the part before. -/
def partsAfter : Nat → List Char → List Part
  | _, [] => []
  | passed + 1, _ :: s => partsAfter passed s
  | 0, c :: s =>
    if !isBrace c then .char c :: partsAfter 0 s
    else if s.head? = some c then .brace c :: partsAfter 1 s
    else if c = '\x7d' then [.fault .strayBrace]
    else match readField s with
      | some (f, rest) => .field f :: partsAfter (s.length - rest.length) s
      | none => [.fault .malformedField]

def parts (s : List Char) : List Part := partsAfter 0 s

end Url

end Storefront.Asset
