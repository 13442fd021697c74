import Storefront.Settings.Path
import Storefront.Text.Blank
import Storefront.Text.Search

/-!
The directives of assets, recognised at the start of a text: output of asset URLs and of settings,
conditionals, and all other tags and outputs. Blanks around the words of a directive do not count,
nor does a dash inside its braces.
-/

namespace Storefront.Asset

/-- What follows `mark` at the start of the text. -/
def after? (mark s : List Char) : Option (List Char) :=
  if mark.isPrefixOf s then some (s.drop mark.length) else none

def outputOpen : List Char := ['\x7b', '\x7b']

def outputClose : List Char := ['\x7d', '\x7d']

def tagOpen : List Char := ['\x7b', '%']

def tagClose : List Char := ['%', '\x7d']

def skipDash : List Char → List Char
  | '-' :: s => s
  | s => s

/-- What follows an opening mark, its dash and the blanks after them. -/
def opened? (mark s : List Char) : Option (List Char) :=
  (after? mark s).map fun s => Text.dropBlanks (skipDash s)

/-- What follows blanks, a dash and a closing mark. -/
def closed? (mark s : List Char) : Option (List Char) := after? mark (skipDash (Text.dropBlanks s))

def isQuote (c : Char) : Bool := c = '\'' || c = '"'

/-- A file name between quotes, with no quote of either kind inside. -/
def filename? : List Char → Option (List Char × List Char)
  | quote :: s =>
    let name := s.takeWhile (!isQuote ·)
    match s.dropWhile (!isQuote ·) with
    | c :: rest => if isQuote quote && c = quote && !name.isEmpty then some (name, rest) else none
    | [] => none
  | [] => none

/-- The file name of an output of an asset URL. -/
def assetUrl? (s : List Char) : Option (List Char × List Char) := do
  let s ← opened? outputOpen s
  let (name, s) ← filename? s
  let s ← after? ['|'] (Text.dropBlanks s)
  let s ← after? "asset_url".toList (Text.dropBlanks s)
  let s ← closed? outputClose s
  return (name, s)

/-- A dotted path. -/
def path? : List Char → Option (List Char × List Char)
  | c :: s =>
    if Text.isSegmentChar c then
      let (rest, s) := Text.takeDotted s
      some (c :: rest, s)
    else none
  | [] => none

/-- The path of an output of a setting. -/
def settingOutput? (s : List Char) : Option (List Char × List Char) := do
  let s ← opened? outputOpen s
  let s ← after? "settings.".toList s
  let (path, s) ← path? s
  let s ← closed? outputClose s
  return (path, s)

/-- What follows a tag of one word. -/
def tag? (word s : List Char) : Option (List Char) := do
  let s ← opened? tagOpen s
  let s ← after? word s
  closed? tagClose s

/-- The text before the first place from which `ends` finds an end, and what follows that end. -/
def cutBy? (ends : List Char → Option (List Char)) : List Char → Option (List Char × List Char)
  | [] => (ends []).map ([], ·)
  | c :: s => match ends (c :: s) with
    | some rest => some ([], rest)
    | none => (cutBy? ends s).map fun (before, rest) => (c :: before, rest)

/-- A conditional: its body is kept if the condition holds, or if it does not when `negated`. -/
structure Conditional where
  negated : Bool
  condition : List Char
  body : List Char
  deriving DecidableEq, Repr

def elseWord : List Char := "else".toList

namespace Conditional

def openWord (negated : Bool) : List Char := (if negated then "unless" else "if").toList

def endWord (negated : Bool) : List Char := (if negated then "endunless" else "endif").toList

/-- A conditional after its opening word and blanks: a condition of at least one character up to
the first end of a tag, and the body up to the first end tag. -/
def ofCondition? (negated : Bool) : List Char → Option (Conditional × List Char)
  | [] => none
  | c :: s => do
    let (condition, s) ← cutBy? (closed? tagClose) s
    let (body, s) ← cutBy? (tag? (endWord negated)) s
    return ({ negated, condition := c :: condition, body }, s)

/-- A conditional whose condition is nothing but the last of several blanks. -/
def ofBlanks? (negated : Bool) (blanks s : List Char) : Option (Conditional × List Char) := do
  let s ← closed? tagClose s
  let (body, s) ← cutBy? (tag? (endWord negated)) s
  if 2 ≤ blanks.length then
    some ({ negated, condition := blanks.drop (blanks.length - 1), body }, s)
  else none

/-- A conditional of the kind that `negated` tells, after the opening mark. -/
def ofKind? (negated : Bool) (s : List Char) : Option (Conditional × List Char) := do
  let s ← after? (openWord negated) s
  let blanks := s.takeWhile Text.isBlank
  let s := s.dropWhile Text.isBlank
  if blanks.isEmpty then none
  else ofCondition? negated s <|> ofBlanks? negated blanks s

/-- The branches of the body before and after its first `else`. -/
def branches (c : Conditional) : List Char × List Char :=
  (cutBy? (tag? elseWord) c.body).getD (c.body, [])

end Conditional

def conditional? (s : List Char) : Option (Conditional × List Char) := do
  let s ← opened? tagOpen s
  Conditional.ofKind? false s <|> Conditional.ofKind? true s

/-- Any tag. -/
def anyTag? (s : List Char) : Option (Unit × List Char) := do
  let s ← after? tagOpen s
  let (_, s) ← Text.cutAt? tagClose s
  return ((), s)

/-- Any output. -/
def anyOutput? (s : List Char) : Option (Unit × List Char) := do
  let s ← after? outputOpen s
  let (_, s) ← Text.cutAt? outputClose s
  return ((), s)

/-- The mark that holds the place of the value of a slot. -/
def heldMark (slot : Nat) : List Char := '\ue000' :: Nat.toDigits 10 slot ++ ['\ue001']

/-- The slot of a mark that holds a place. -/
def held? : List Char → Option (Nat × List Char)
  | '\ue000' :: s =>
    let digits := s.takeWhile Text.isDigit
    match s.dropWhile Text.isDigit with
    | '\ue001' :: rest => if digits.isEmpty then none else some (Text.natOfDigits digits, rest)
    | _ => none
  | _ => none

/-- A text between directives, or a directive. -/
inductive Piece (α : Type) where
  | char (c : Char)
  | directive (a : α) (source : List Char)

namespace Piece

/-- The pieces of a text whose first `skip` characters are passed over: at each place the directive
that `recognise` finds there, or else one character. -/
def scan {α : Type} (recognise : List Char → Option (α × List Char)) :
    Nat → List Char → List (Piece α)
  | _, [] => []
  | skip + 1, _ :: s => scan recognise skip s
  | 0, c :: s => match recognise (c :: s) with
    | some (a, rest) =>
      let length := s.length - rest.length
      .directive a (c :: s.take length) :: scan recognise length s
    | none => .char c :: scan recognise 0 s

/-- All pieces of a text. -/
def all {α : Type} (recognise : List Char → Option (α × List Char)) (s : List Char) :
    List (Piece α) :=
  scan recognise 0 s

end Piece

end Storefront.Asset
