import Storefront.Text.Dotted

/-!
Paths of files: names from the working directory on or, after a slash, from the root. Empty names
and single dots are dropped; `..` stays.
-/

namespace Storefront

/-- `slashes` is 0 for a relative path and 1 for an absolute one, or 2 where exactly two slashes
come first. -/
structure Path where
  slashes : Nat
  names : List String
  deriving DecidableEq, Repr, Inhabited

namespace Path

def leadingSlashes (s : List Char) : Nat :=
  match (s.takeWhile (· = '/')).length with
  | 0 => 0
  | 2 => 2
  | _ => 1

def ofString (s : String) : Path where
  slashes := leadingSlashes s.toList
  names := ((Text.splitOn '/' s.toList).map String.ofList).filter fun n => n ≠ "" && n ≠ "."

def text (p : Path) : String :=
  let names := "/".intercalate p.names
  if p.slashes = 0 then (if p.names.isEmpty then "." else names)
  else (if p.slashes = 2 then "//" else "/") ++ names

def isAbsolute (p : Path) : Bool := p.slashes ≠ 0

/-- The second path as seen from the first; an absolute one stands for itself. -/
def join (p q : Path) : Path :=
  if q.isAbsolute then q else { p with names := p.names ++ q.names }

/-- The path of a name below `p`. -/
def child (p : Path) (name : String) : Path := { p with names := p.names ++ [name] }

def parent (p : Path) : Path := { p with names := p.names.dropLast }

end Path

end Storefront
