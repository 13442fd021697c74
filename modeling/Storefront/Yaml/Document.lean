import Storefront.Yaml.Data
import Storefront.Yaml.Node
import Storefront.Yaml.Scalar
import Storefront.Yaml.Token.Lexer

/-!
Reading of YAML documents. Keys may be of any kind but a map, and no two keys of a map are equal;
the pairs of a merge key are put before the other ones, and those prevail. What lies deeper is
looked at later, so that of several faults the first of the least depth counts.
-/

namespace Storefront.Yaml.Data

mutual

/-- Two keys are equal, numbers and booleans by value. -/
def sameKey : Data → Data → Bool
  | .null, .null => true
  | .text s, .text t => s = t
  | .date s, .date t => s = t
  | .list xs, .list ys => sameKeys xs ys
  | a, b => match a.number?, b.number? with
    | some m, some n => m.equals n
    | _, _ => false

def sameKeys : List Data → List Data → Bool
  | [], [] => true
  | a :: as, b :: bs => sameKey a b && sameKeys as bs
  | _, _ => false

end

def isCollection : Data → Bool
  | .list _ | .map _ | .cycle => true
  | _ => false

/-- The data cannot be a key at all; a list can, as far as its form goes. -/
def isNoKey : Data → Bool
  | .map _ | .cycle => true
  | _ => false

/-- The data is a list that holds lists or maps, so that it cannot be looked up. -/
def isUnusableKey : Data → Bool
  | .list items => items.any isCollection
  | _ => false

def assign (key value : Data) : List (Data × Data) → List (Data × Data)
  | [] => [(key, value)]
  | (k, v) :: pairs =>
    if sameKey k key then (k, value) :: pairs else (k, v) :: assign key value pairs

def ofPlain (s : String) : Except Error Data :=
  match Form.ofText s with
  | .null => .ok .null
  | .bool b => .ok (.bool b)
  | .float => return .number (.float (← Scalar.float s.toList))
  | .int => return .number (.int (← Scalar.int s.toList))
  | .date => match Form.date? s.toList with
    | some d => if d.isPossible then .ok (.date s) else .error .impossibleScalar
    | none => .error .malformed
  | .merge | .default => .error .malformed
  | .text => .ok (.text s)

def boolOf? (s : String) : Option Bool :=
  match s.toLower with
  | "true" | "yes" | "on" => some true
  | "false" | "no" | "off" => some false
  | _ => none

/-- A scalar with a tag. -/
def ofTagged (tag s : String) : Except Error Data :=
  if tag = Node.coreTag "str" then .ok (.text s)
  else if tag = Node.coreTag "null" then .ok .null
  else if tag = Node.coreTag "int" then return .number (.int (← Scalar.int s.toList))
  else if tag = Node.coreTag "float" then return .number (.float (← Scalar.float s.toList))
  else if tag = Node.coreTag "bool" then
    match boolOf? s with
    | some b => .ok (.bool b)
    | none => .error .malformed
  else if tag = Node.coreTag "timestamp" then
    match Form.date? s.toList with
    | some d => if d.isPossible then .ok (.date s) else .error .impossibleScalar
    | none => .error .malformed
  else .error .malformed

def isMergeKey : Node → Bool
  | .scalar none s true => s = "<<"
  | .scalar (some tag) _ _ => tag = Node.coreTag "merge"
  | _ => false

/-- The key that a lone equals sign stands for is that text. -/
def plainKey : Node → Node
  | .scalar none "=" true => .scalar none "=" false
  | node => node

abbrev Pairs := List (Node × Node)

/-- The pairs that the value of a merge key adds: those of a mapping, or of several, the last
first. -/
def mergedPairs (flatten : Pairs → Except Error Pairs) : Node → Except Error Pairs
  | .mapping _ pairs => flatten pairs
  | .sequence _ nodes => do
    let parts ← nodes.mapM fun node => match node with
      | .mapping _ pairs => flatten pairs
      | _ => .error .malformed
    return parts.reverse.flatten
  | _ => .error .malformed

/-- The pairs that the merge key of a mapping adds, and its other pairs. A second merge key is
admitted only if those before it add nothing. -/
def splitMerges : Nat → Pairs → Except Error (Pairs × Pairs)
  | 0, _ => .error .malformed
  | fuel + 1, pairs =>
    let flatten (pairs : Pairs) : Except Error Pairs := do
      let (merged, own) ← splitMerges fuel pairs
      return merged ++ own
    pairs.foldlM (fun (merged, own) pair =>
      if !isMergeKey pair.1 then .ok (merged, own ++ [pair])
      else if !merged.isEmpty then .error .malformed
      else do return (← mergedPairs flatten pair.2, own)) ([], [])

/-- The faults met, each with its depth. -/
abbrev Building := StateM (List (Nat × Error))

def fault (depth : Nat) (e : Error) : Building Unit := modify (· ++ [(depth, e)])

/-- What is found, or `absent` and a fault. -/
def orFault {α : Type} (depth : Nat) (absent : α) : Except Error α → Building α
  | .ok a => return a
  | .error e => do
    fault depth e
    return absent

def leastFault? : List (Nat × Error) → Option (Nat × Error)
  | [] => none
  | f :: faults => match leastFault? faults with
    | some g => if g.1 < f.1 then some g else some f
    | none => some f

/-- The depth of the content of a collection. Keys are looked at as a whole (`whole`). -/
def inside (whole : Bool) (depth : Nat) : Nat := if whole then depth else depth + 1

mutual

def ofNode (whole : Bool) : Nat → Nat → Node → Building Data
  | 0, depth, _ => do
    fault depth .malformed
    return .null
  | fuel + 1, depth, node => match node with
    | .scalar none s plain => if plain then orFault depth .null (ofPlain s) else return .text s
    | .scalar (some tag) s _ => orFault depth .null (ofTagged tag s)
    | .sequence tag nodes => do
      if (tag.filter (· ≠ Node.coreTag "seq")).isSome then fault depth .malformed
      return .list (← ofNodes whole fuel (inside whole depth) nodes)
    | .mapping tag pairs => do
      if (tag.filter (· ≠ Node.coreTag "map")).isSome then fault depth .malformed
      let depth := inside whole depth
      let (merged, own) ← orFault depth ([], []) (splitMerges fuel pairs)
      let start ← ofPairs whole false fuel depth [] merged
      return .map (← ofPairs whole merged.isEmpty fuel depth start own)
    | .cycle => return .cycle

def ofNodes (whole : Bool) : Nat → Nat → List Node → Building (List Data)
  | 0, depth, _ => do
    fault depth .malformed
    return []
  | fuel + 1, depth, nodes => match nodes with
    | [] => return []
    | node :: nodes => do
      let a ← ofNode whole fuel depth node
      return a :: (← ofNodes whole fuel depth nodes)

/-- Pairs added to the ones before them; where keys have to be `distinct`, none may come twice. -/
def ofPairs (whole distinct : Bool) :
    Nat → Nat → List (Data × Data) → Pairs → Building (List (Data × Data))
  | 0, depth, before, _ => do
    fault depth .malformed
    return before
  | fuel + 1, depth, before, pairs => match pairs with
    | [] => return before
    | (k, v) :: pairs => do
      let key ← ofNode true fuel depth (plainKey k)
      if isNoKey key then fault depth .malformed
      let value ← ofNode whole fuel depth v
      if isUnusableKey key then fault depth .unusableKey
      if distinct && before.any (sameKey key ·.1) then fault depth .malformed
      ofPairs whole distinct fuel depth (assign key value before) pairs

end

/-- The data of a text, null where it holds no document. -/
def ofText (text : List Char) : Except Error Data := do
  let tokens := tokens text
  match ← Node.ofTokens? tokens with
  | none => return .null
  | some node =>
    let fuel := 4 * tokens.length * tokens.length + 4
    let (data, faults) := (ofNode false fuel 0 node).run []
    match leastFault? faults with
    | some (_, e) => .error e
    | none => return data

end Storefront.Yaml.Data
