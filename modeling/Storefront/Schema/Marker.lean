import Storefront.Text.Blank

/-!
The tags around the schema of a section file. A tag is its word between brace and percent sign,
in letters of either case, with any blanks and dashes around the word. The body goes from the first
opening tag to the first closing tag after it.
-/

namespace Storefront.Schema

def isFiller (c : Char) : Bool := c = '-' || Text.isBlank c

/-- `c` is the small letter `letter` in either case; the long s counts as an s. -/
def sameLetter (letter c : Char) : Bool := c.toLower = letter || (letter = 's' && c = 'ſ')

/-- What follows the word at the start of the text. -/
def afterWord? : List Char → List Char → Option (List Char)
  | [], s => some s
  | _ :: _, [] => none
  | w :: word, c :: s => if sameLetter w c then afterWord? word s else none

/-- What follows the tag of the word at the start of the text. -/
def afterTag? (word : List Char) : List Char → Option (List Char)
  | '\x7b' :: '%' :: s => do
    let s ← afterWord? word (s.dropWhile isFiller)
    match s.dropWhile isFiller with
    | '%' :: '\x7d' :: s => some s
    | _ => none
  | _ => none

def openingWord : List Char := "schema".toList

def closingWord : List Char := "endschema".toList

/-- The text before the first closing tag. -/
def beforeClosing? : List Char → Option (List Char)
  | [] => none
  | c :: s =>
    if (afterTag? closingWord (c :: s)).isSome then some []
    else (beforeClosing? s).map (c :: ·)

/-- The body of the first schema block. -/
def findBody? : List Char → Option (List Char)
  | [] => none
  | c :: s => match afterTag? openingWord (c :: s) with
    | some rest => beforeClosing? rest
    | none => findBody? s

end Storefront.Schema
