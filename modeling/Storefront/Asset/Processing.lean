import Storefront.Asset.Directive
import Storefront.Asset.Url
import Storefront.Condition.Evaluation
import Storefront.Outcome
import Storefront.Settings.Render

/-!
Processing of assets: URLs are resolved first, then setting values, conditionals, and what other
tags and outputs are left are removed. Setting values are held back by marks until all else is done,
so that nothing in a value is taken for a directive.
-/

namespace Storefront.Asset

structure Context where
  settings : Dict Value
  resolveUrl : String → Except UrlError String
  /-- Every body of a conditional is kept whole, as older themes were rendered. -/
  keepBodies : Bool

namespace Piece

/-- The text of pieces in which each directive is replaced. -/
def text {α : Type} (replace : α → List Char → List Char) (pieces : List (Piece α)) : List Char :=
  pieces.flatMap fun
    | .char c => [c]
    | .directive a source => replace a source

/-- The directives of the pieces, in order. -/
def directives {α : Type} (pieces : List (Piece α)) : List α :=
  pieces.filterMap fun
    | .char _ => none
    | .directive a _ => some a

/-- The text of pieces in which each directive is replaced and may fail or warn. -/
def textM {α ε : Type} (replace : α → Outcome ε (List Char)) :
    List (Piece α) → Outcome ε (List Char)
  | [] => pure []
  | .char c :: pieces => return c :: (← textM replace pieces)
  | .directive a _ :: pieces => do
    let s ← replace a
    return s ++ (← textM replace pieces)

/-- The text of pieces with a mark in place of each directive, numbered from `slot`. -/
def hold {α : Type} (slot : Nat) : List (Piece α) → List Char
  | [] => []
  | .char c :: pieces => c :: hold slot pieces
  | .directive _ _ :: pieces => heldMark slot ++ hold (slot + 1) pieces

end Piece

/-- The text with all asset URLs resolved. -/
def resolveUrls (context : Context) (s : List Char) : Outcome UrlError (List Char) :=
  Piece.textM (fun name => .ofExcept ((context.resolveUrl (.ofList name)).map String.toList))
    (Piece.all assetUrl? s)

/-- The rendered values of the settings that a text outputs. -/
def settingValues (settings : Dict Value) (s : List Char) : List (List Char) :=
  (Piece.directives (Piece.all settingOutput? s)).map fun path =>
    (lookupPath settings path).render.toList

/-- The text with marks in place of the outputs of settings. -/
def holdSettings (s : List Char) : List Char := Piece.hold 0 (Piece.all settingOutput? s)

/-- Whether a condition holds. One that cannot be read does not, with a warning. -/
def verdict {ε : Type} (settings : Dict Value) (condition : String) : Outcome ε Bool :=
  match Condition.evaluate settings condition with
  | .ok b => pure b
  | .error e => do
    Outcome.warn (.unsupportedCondition condition e)
    return false

/-- The branch of a conditional that is kept. -/
def Conditional.resolve {ε : Type} (context : Context) (c : Conditional) :
    Outcome ε (List Char) :=
  if context.keepBodies then pure c.body
  else do
    let holds ← verdict context.settings (.ofList c.condition)
    return if holds != c.negated then c.branches.1 else c.branches.2

/-- The text with all conditionals resolved. -/
def resolveConditionals {ε : Type} (context : Context) (s : List Char) : Outcome ε (List Char) :=
  Piece.textM (Conditional.resolve context) (Piece.all conditional? s)

def removeTags (s : List Char) : List Char := Piece.text (fun _ _ => []) (Piece.all anyTag? s)

def removeOutputs (s : List Char) : List Char :=
  Piece.text (fun _ _ => []) (Piece.all anyOutput? s)

/-- The text with the values in place of their marks; a mark without a value stays. -/
def releaseSettings (values : List (List Char)) (s : List Char) : List Char :=
  Piece.text (fun slot source => values[slot]?.getD source) (Piece.all held? s)

def processChars (context : Context) (s : List Char) : Outcome UrlError (List Char) := do
  let s ← resolveUrls context s
  let values := settingValues context.settings s
  let s ← resolveConditionals context (holdSettings s)
  return releaseSettings values (removeOutputs (removeTags s))

/-- The asset with all directives resolved or removed. -/
def process (context : Context) (text : String) : Outcome UrlError String := do
  return .ofList (← processChars context text.toList)

end Storefront.Asset
