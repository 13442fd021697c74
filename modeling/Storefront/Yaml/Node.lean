import Storefront.Yaml.Error
import Storefront.Yaml.Token

/-!
Nodes of a YAML document, read from its tokens. An alias stands for the node of its anchor; inside
that node itself it stands for a cycle.
-/

namespace Storefront.Yaml

/-- A tag in full is kept where one is given; `plain` tells that the text of a scalar without one
may stand for something else than a text. -/
inductive Node where
  | scalar (tag : Option String) (text : String) (plain : Bool)
  | sequence (tag : Option String) (items : List Node)
  | mapping (tag : Option String) (pairs : List (Node × Node))
  | cycle
  deriving Inhabited

namespace Node

def empty : Node := .scalar none "" true

/-- The tokens to be read and the anchors before them, the latest first; an anchor has no node while
that is read. -/
structure Reader where
  tokens : List Token
  anchors : List (String × Option Node)
  handles : List (String × String)

def coreTag (name : String) : String := "tag:yaml.org,2002:" ++ name

/-- A tag in full; the lone exclamation mark is none. -/
def fullTag? (r : Reader) (source : TagSource) : Except Error (Option String) :=
  if source.handle = "" then .ok (if source.suffix = "!" then none else some source.suffix)
  else match r.handles.lookup source.handle with
    | some target => .ok (some (target ++ source.suffix))
    | none => if source.handle = "!" then .ok (some ("!" ++ source.suffix))
      else if source.handle = "!!" then .ok (some (coreTag source.suffix))
      else .error .malformed

/-- What stands before the content of a node. -/
structure Properties where
  anchor : Option String
  tag : Option TagSource

/-- An anchor and a tag, in either order. -/
def properties : List Token → Properties × List Token
  | .anchor name :: .tag source :: ts => (⟨some name, some source⟩, ts)
  | .tag source :: .anchor name :: ts => (⟨some name, some source⟩, ts)
  | .anchor name :: ts => (⟨some name, none⟩, ts)
  | .tag source :: ts => (⟨none, some source⟩, ts)
  | ts => (⟨none, none⟩, ts)

/-- The latest anchor of a name that has no node yet gets one. -/
def settle (name : String) (node : Node) :
    List (String × Option Node) → List (String × Option Node)
  | [] => []
  | (n, none) :: anchors =>
    if n = name then (n, some node) :: anchors else (n, none) :: settle name node anchors
  | entry :: anchors => entry :: settle name node anchors

/-- What is wrong where no token fits. -/
def refuse {α : Type} : List Token → Except Error α
  | .fault e :: _ => .error e
  | _ => .error .malformed

def endsEntry : List Token → Bool
  | .blockEntry :: _ | .blockEnd :: _ => true
  | _ => false

def endsIndentless : List Token → Bool
  | .blockEntry :: _ | .key :: _ | .value :: _ | .blockEnd :: _ => true
  | _ => false

def endsPart : List Token → Bool
  | .key :: _ | .value :: _ | .blockEnd :: _ => true
  | _ => false

def endsFlowKey : List Token → Bool
  | .value :: _ | .flowEntry :: _ | .flowSequenceEnd :: _ | .flowMappingEnd :: _ => true
  | _ => false

def endsFlowValue : List Token → Bool
  | .flowEntry :: _ | .flowSequenceEnd :: _ | .flowMappingEnd :: _ => true
  | _ => false

/-- The tokens after a comma, or all at the start of a flow collection or before its end. -/
def afterComma (first : Bool) (close : Token) (ts : List Token) : Except Error (List Token) :=
  if first || ts.head? = some close then .ok ts
  else match ts with
    | .flowEntry :: ts => .ok ts
    | ts => refuse ts

mutual

/-- A node; `inBlock` admits collections in block style and `indentless` sequences that are not
indented. -/
def read (inBlock indentless : Bool) : Nat → Reader → Except Error (Node × Reader)
  | 0, _ => .error .malformed
  | fuel + 1, r => match r.tokens with
    | .alias name :: ts => match r.anchors.lookup name with
      | some (some node) => .ok (node, { r with tokens := ts })
      | some none => .ok (.cycle, { r with tokens := ts })
      | none => .error .malformed
    | _ => do
      let (properties, ts) := properties r.tokens
      if ts matches .fault _ :: _ then refuse ts
      else
        let tag ← match properties.tag with
          | some source => fullTag? r source
          | none => .ok none
        let opened := properties.anchor.toList.map (·, none)
        let r := { r with tokens := ts, anchors := opened ++ r.anchors }
        let (node, r) ← content inBlock indentless properties tag fuel r
        match properties.anchor with
        | some name => return (node, { r with anchors := settle name node r.anchors })
        | none => return (node, r)

/-- The content of a node after its properties. -/
def content (inBlock indentless : Bool) (properties : Properties) (tag : Option String) :
    Nat → Reader → Except Error (Node × Reader)
  | 0, _ => .error .malformed
  | fuel + 1, r => match r.tokens with
    | .scalar text style :: ts =>
      let plain := tag.isNone && (style = .plain || properties.tag.isSome)
      .ok (.scalar tag text plain, { r with tokens := ts })
    | .flowSequenceStart :: ts => do
      let (items, r) ← flowItems true fuel { r with tokens := ts }
      return (.sequence tag items, r)
    | .flowMappingStart :: ts => do
      let (pairs, r) ← flowPairs true fuel { r with tokens := ts }
      return (.mapping tag pairs, r)
    | .blockEntry :: _ => if indentless then do
        let (items, r) ← indentlessItems fuel r
        return (.sequence tag items, r)
      else noContent properties tag r
    | .blockSequenceStart :: ts => if inBlock then do
        let (items, r) ← blockItems fuel { r with tokens := ts }
        return (.sequence tag items, r)
      else noContent properties tag r
    | .blockMappingStart :: ts => if inBlock then do
        let (pairs, r) ← blockPairs fuel { r with tokens := ts }
        return (.mapping tag pairs, r)
      else noContent properties tag r
    | _ => noContent properties tag r

/-- A node of nothing but properties. -/
def noContent (properties : Properties) (tag : Option String) (r : Reader) :
    Except Error (Node × Reader) :=
  if properties.anchor.isSome || properties.tag.isSome then
    .ok (.scalar tag "" tag.isNone, r)
  else refuse r.tokens

def blockItems : Nat → Reader → Except Error (List Node × Reader)
  | 0, _ => .error .malformed
  | fuel + 1, r => match r.tokens with
    | .blockEnd :: ts => .ok ([], { r with tokens := ts })
    | .blockEntry :: ts => do
      let r := { r with tokens := ts }
      let (node, r) ← if endsEntry ts then .ok (empty, r) else read true false fuel r
      let (nodes, r) ← blockItems fuel r
      return (node :: nodes, r)
    | ts => refuse ts

def indentlessItems : Nat → Reader → Except Error (List Node × Reader)
  | 0, _ => .error .malformed
  | fuel + 1, r => match r.tokens with
    | .blockEntry :: ts => do
      let r := { r with tokens := ts }
      let (node, r) ← if endsIndentless ts then .ok (empty, r) else read true false fuel r
      let (nodes, r) ← indentlessItems fuel r
      return (node :: nodes, r)
    | _ => .ok ([], r)

def blockPairs : Nat → Reader → Except Error (List (Node × Node) × Reader)
  | 0, _ => .error .malformed
  | fuel + 1, r => match r.tokens with
    | .blockEnd :: ts => .ok ([], { r with tokens := ts })
    | .key :: ts => do
      let r := { r with tokens := ts }
      let (key, r) ← if endsPart ts then .ok (empty, r) else read true true fuel r
      let (value, r) ← blockValue fuel r
      let (pairs, r) ← blockPairs fuel r
      return ((key, value) :: pairs, r)
    | .value :: _ => do
      let (value, r) ← blockValue fuel r
      let (pairs, r) ← blockPairs fuel r
      return ((empty, value) :: pairs, r)
    | ts => refuse ts

/-- The value of a key in block style, empty where none follows. -/
def blockValue : Nat → Reader → Except Error (Node × Reader)
  | 0, _ => .error .malformed
  | fuel + 1, r => match r.tokens with
    | .value :: ts =>
      let r := { r with tokens := ts }
      if endsPart ts then .ok (empty, r) else read true true fuel r
    | _ => .ok (empty, r)

/-- A key after its indicator, and its value, in a flow collection. -/
def flowPair : Nat → Reader → Except Error ((Node × Node) × Reader)
  | 0, _ => .error .malformed
  | fuel + 1, r => do
    let (key, r) ← if endsFlowKey r.tokens then .ok (empty, r) else read false false fuel r
    let (value, r) ← flowValue fuel r
    return ((key, value), r)

/-- The value of a key in flow style, empty where none follows. -/
def flowValue : Nat → Reader → Except Error (Node × Reader)
  | 0, _ => .error .malformed
  | fuel + 1, r => match r.tokens with
    | .value :: ts =>
      let r := { r with tokens := ts }
      if endsFlowValue ts then .ok (empty, r) else read false false fuel r
    | _ => .ok (empty, r)

def flowItems (first : Bool) : Nat → Reader → Except Error (List Node × Reader)
  | 0, _ => .error .malformed
  | fuel + 1, r => do
    let ts ← afterComma first .flowSequenceEnd r.tokens
    match ts with
    | .flowSequenceEnd :: ts => return ([], { r with tokens := ts })
    | .key :: ts => do
      let (pair, r) ← flowPair fuel { r with tokens := ts }
      let (nodes, r) ← flowItems false fuel r
      return (.mapping none [pair] :: nodes, r)
    | ts => do
      let (node, r) ← read false false fuel { r with tokens := ts }
      let (nodes, r) ← flowItems false fuel r
      return (node :: nodes, r)

def flowPairs (first : Bool) : Nat → Reader → Except Error (List (Node × Node) × Reader)
  | 0, _ => .error .malformed
  | fuel + 1, r => do
    let ts ← afterComma first .flowMappingEnd r.tokens
    match ts with
    | .flowMappingEnd :: ts => return ([], { r with tokens := ts })
    | .key :: ts => do
      let (pair, r) ← flowPair fuel { r with tokens := ts }
      let (pairs, r) ← flowPairs false fuel r
      return (pair :: pairs, r)
    | .value :: _ => do
      let (value, r) ← flowValue fuel { r with tokens := ts }
      let (pairs, r) ← flowPairs false fuel r
      return ((empty, value) :: pairs, r)
    | ts => do
      let (key, r) ← read false false fuel { r with tokens := ts }
      let (pairs, r) ← flowPairs false fuel r
      return ((key, empty) :: pairs, r)

end

/-- The handles that directives declare, each once, and the tokens after them. -/
def directives (version : Bool) (handles : List (String × String)) :
    List Token → Except Error (List (String × String) × List Token)
  | .versionDirective major minor :: ts =>
    if version || major ≠ 1 || (minor ≠ 1 && minor ≠ 2) then .error .malformed
    else directives true handles ts
  | .tagDirective handle target :: ts =>
    if (handles.lookup handle).isSome then .error .malformed
    else directives version ((handle, target) :: handles) ts
  | .otherDirective :: ts => directives version handles ts
  | ts => .ok (handles, ts)

def endsDocument : List Token → Bool
  | .versionDirective .. :: _ | .tagDirective .. :: _ | .otherDirective :: _ | .documentStart :: _
  | .documentEnd :: _ | .streamEnd :: _ => true
  | _ => false

/-- The end of the only document, with a marker or without. -/
def finish (node : Node) (r : Reader) : Except Error (Option Node) :=
  let ts := match r.tokens with
    | .documentEnd :: ts => ts
    | ts => ts
  if ts = [.streamEnd] then .ok (some node)
  else do
    let (_, ts) ← directives false [] ts
    refuse ts

/-- The node of the only document, none where there is no document. -/
def ofTokens? (ts : List Token) : Except Error (Option Node) := do
  let (handles, rest) ← directives false [] ts
  let declared := rest.length ≠ ts.length
  let fuel := 4 * ts.length + 4
  let r : Reader := { tokens := rest, anchors := [], handles }
  match rest with
  | .documentStart :: rest =>
    let r := { r with tokens := rest }
    if endsDocument rest then finish empty r
    else
      let (node, r) ← read true false fuel r
      finish node r
  | rest =>
    if declared then refuse rest
    else if rest = [.streamEnd] then return none
    else
      let (node, r) ← read true false fuel r
      finish node r

end Node

end Storefront.Yaml
