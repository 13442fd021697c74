/-!
Comments in JSON text: from `//` to the end of the line, which is kept, and from `/*` to the next
`*/` or the end of the text. Inside a string, which ends at the first quote that no backslash
escapes, nothing is a comment.
-/

namespace Storefront.Json

/-- What the next character of the text belongs to. -/
inductive Lexeme where
  | code
  | string
  | lineComment
  | blockComment
  deriving DecidableEq, Repr

/-- The text without its comments, from inside a lexeme on. -/
def stripFrom : Lexeme → List Char → List Char
  | .code, '"' :: s => '"' :: stripFrom .string s
  | .code, '/' :: '/' :: s => stripFrom .lineComment s
  | .code, '/' :: '*' :: s => stripFrom .blockComment s
  | .code, c :: s => c :: stripFrom .code s
  | .string, '\\' :: c :: s => '\\' :: c :: stripFrom .string s
  | .string, '"' :: s => '"' :: stripFrom .code s
  | .string, c :: s => c :: stripFrom .string s
  | .lineComment, '\n' :: s => '\n' :: stripFrom .code s
  | .lineComment, _ :: s => stripFrom .lineComment s
  | .blockComment, '*' :: '/' :: s => stripFrom .code s
  | .blockComment, _ :: s => stripFrom .blockComment s
  | _, [] => []

def stripComments (s : List Char) : List Char := stripFrom .code s

end Storefront.Json
