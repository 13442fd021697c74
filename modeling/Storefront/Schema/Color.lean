import Storefront.Text.Blank

/-!
The colours that a colour setting accepts: `#` with three or six hexadecimal digits, or `rgb` or
`rgba` with numbers between parentheses. Blanks around the text do not count.
-/

namespace Storefront.Schema

def isHexDigit (c : Char) : Bool :=
  c.isDigit || ('a' ≤ c && c ≤ 'f') || ('A' ≤ c && c ≤ 'F')

def isHexColor : List Char → Bool
  | '#' :: s => (s.length = 3 || s.length = 6) && s.all isHexDigit
  | _ => false

/-- What may stand between the parentheses of a functional colour. -/
def isChannelChar (c : Char) : Bool :=
  c.isDigit || c = '.' || c = '%' || c = ',' || c = '/' || Text.isBlank c

/-- Channels up to a closing parenthesis that ends the text, at least one character. -/
def isChannels (s : List Char) : Bool :=
  match s.reverse with
  | ')' :: channels => !channels.isEmpty && channels.all isChannelChar
  | _ => false

def isFunctionalColor : List Char → Bool
  | 'r' :: 'g' :: 'b' :: 'a' :: '(' :: s => isChannels s
  | 'r' :: 'g' :: 'b' :: '(' :: s => isChannels s
  | _ => false

def isColor (s : String) : Bool :=
  let text := Text.trim s.toList
  isHexColor text || isFunctionalColor text

end Storefront.Schema
