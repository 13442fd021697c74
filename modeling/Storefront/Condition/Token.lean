import Storefront.Condition.Error
import Storefront.Text.Blank
import Storefront.Text.Dotted

/-!
Tokens of conditions: strings between single or double quotes, numbers, comparison operators and
dotted words, with any blanks between them.
-/

namespace Storefront.Condition

inductive Token.Kind where
  | string
  | number
  | operator
  | word
  deriving DecidableEq, Repr

structure Token where
  kind : Token.Kind
  text : String
  deriving DecidableEq, Repr

namespace Token

def Kind.name : Kind → String
  | .string => "string"
  | .number => "number"
  | .operator => "op"
  | .word => "word"

/-- A part of the text and what follows it. -/
abbrev Cut : Type := List Char × List Char

/-- A string up to the next quote of its kind. -/
def string? : List Char → Option Cut
  | quote :: s =>
    if quote = '\'' || quote = '"' then
      match s.dropWhile (· ≠ quote) with
      | _ :: rest => some (quote :: s.takeWhile (· ≠ quote) ++ [quote], rest)
      | [] => none
    else none
  | [] => none

def takeSign : List Char → Cut
  | '-' :: s => (['-'], s)
  | s => ([], s)

/-- A point and the digits after it; nothing where no digit follows the point. -/
def takeFraction : List Char → Cut
  | '.' :: s => match s.takeWhile Text.isDigit with
    | [] => ([], '.' :: s)
    | digits => ('.' :: digits, s.dropWhile Text.isDigit)
  | s => ([], s)

/-- A character that may not follow a number. -/
def joinsNumber (c : Char) : Bool := Text.isWord c || c = '.'

/-- Digits with a sign and a fraction as may be, ended by what does not join them. -/
def number? (s : List Char) : Option Cut :=
  let (sign, s) := takeSign s
  match s.takeWhile Text.isDigit with
  | [] => none
  | digits =>
    let (fraction, rest) := takeFraction (s.dropWhile Text.isDigit)
    if (rest.head?.map joinsNumber).getD false then none
    else some (sign ++ digits ++ fraction, rest)

def operator? : List Char → Option Cut
  | '=' :: '=' :: s => some (['=', '='], s)
  | '!' :: '=' :: s => some (['!', '='], s)
  | '<' :: '>' :: s => some (['<', '>'], s)
  | '<' :: '=' :: s => some (['<', '='], s)
  | '>' :: '=' :: s => some (['>', '='], s)
  | '<' :: s => some (['<'], s)
  | '>' :: s => some (['>'], s)
  | _ => none

def startsWord (c : Char) : Bool := c.isAlpha || c = '_'

/-- A dotted word, which may end in a question mark. -/
def word? : List Char → Option Cut
  | c :: s =>
    if startsWord c then
      let (name, rest) := Text.takeDotted s
      match rest with
      | '?' :: rest => some (c :: name ++ ['?'], rest)
      | rest => some (c :: name, rest)
    else none
  | [] => none

def ofCut (kind : Kind) (cut : Cut) : Token × List Char := ({ kind, text := .ofList cut.1 }, cut.2)

/-- The token at the start of the text and what follows it. -/
def first? (s : List Char) : Option (Token × List Char) :=
  (string? s).map (ofCut .string) <|> (number? s).map (ofCut .number) <|>
    (operator? s).map (ofCut .operator) <|> (word? s).map (ofCut .word)

/-- The tokens of a text that does not end in a blank, or the rest in which none comes first. Each
token takes at least one of `fuel` characters. -/
def scan : Nat → List Char → Except (List Char) (List Token)
  | _, [] => .ok []
  | 0, s => .error s
  | fuel + 1, s => match first? (Text.dropBlanks s) with
    | none => .error s
    | some (token, rest) => (scan fuel rest).map (token :: ·)

end Token

/-- The tokens of an expression. -/
def tokenize (expression : String) : Except Error (List Token) :=
  let s := Text.trimRight expression.toList
  (Token.scan s.length s).mapError fun rest =>
    .unexpectedInput (s.length - rest.length) expression

end Storefront.Condition
