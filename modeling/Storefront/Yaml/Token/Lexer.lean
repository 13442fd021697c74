import Storefront.Yaml.Token
import Storefront.Yaml.Token.Scalar

/-!
The tokens of a YAML text. Collections in block style are told by their indentation. A key without
an indicator is known as one only at the colon after it, and its token is put in before it then;
until that is settled, the tokens from the possible key on are held back.
-/

namespace Storefront.Yaml

/-- A token that turns out to be a key if a colon follows it on its line. -/
structure PossibleKey where
  required : Bool
  /-- The number of tokens before it. -/
  position : Nat
  index : Nat
  line : Nat
  column : Nat

inductive FlowKind where
  | sequence
  | mapping
  deriving DecidableEq

structure Lexer where
  cursor : Cursor
  tokens : Array Token
  /-- The column of the innermost block collection, and those of the ones around it. -/
  indent : Int
  indents : List Int
  /-- The flow collections around the place, the innermost first. -/
  flows : List FlowKind
  keyAllowed : Bool
  /-- The possible key of each flow level, the innermost first. -/
  keys : List (Option PossibleKey)

namespace Lexer

def start (s : List Char) : Lexer where
  cursor := .start s
  tokens := #[]
  indent := -1
  indents := []
  flows := []
  keyAllowed := true
  keys := [none]

def inFlow (l : Lexer) : Bool := !l.flows.isEmpty

def emit (t : Token) (l : Lexer) : Lexer := { l with tokens := l.tokens.push t }

def insertAt (position : Nat) (t : Token) (l : Lexer) : Lexer :=
  { l with tokens := (l.tokens.toList.insertIdx position t).toArray }

def skip (n : Nat) (l : Lexer) : Lexer := { l with cursor := l.cursor.skip n }

def skipWhile (test : Char → Bool) (l : Lexer) : Lexer :=
  { l with cursor := l.cursor.skipWhile test }

def allowKey (allowed : Bool) (l : Lexer) : Lexer := { l with keyAllowed := allowed }

/-- The first character after spaces, line breaks and comments; tabs are skipped in flow
collections alone. A new line of a block collection may start with a key. -/
def skipToToken : Nat → Lexer → Lexer
  | 0, l => l
  | fuel + 1, l =>
    let c := (l.cursor.skipWhile fun x => x = ' ' || (x = '\t' && l.inFlow)).skipComment
    match c.lineBreak? with
    | some (_, c) =>
      skipToToken fuel { l with cursor := c, keyAllowed := l.keyAllowed || !l.inFlow }
    | none => { l with cursor := c }

def maxKeyLength : Nat := 1024

def isStale (c : Cursor) (k : PossibleKey) : Bool :=
  k.line ≠ c.line || k.index + maxKeyLength < c.index

/-- Possible keys that can be none any more are given up. -/
def dropStaleKeys (l : Lexer) : Except Error Lexer :=
  if l.keys.any fun k => (k.map fun k => k.required && isStale l.cursor k).getD false then
    .error .malformed
  else .ok { l with keys := l.keys.map fun k => k.filter (!isStale l.cursor ·) }

/-- The number of tokens that no possible key holds back. -/
def released (l : Lexer) : Nat :=
  (l.keys.filterMap fun k => k.map (·.position)).foldl min l.tokens.size

/-- The possible key of this level is given up. -/
def removeKey (l : Lexer) : Except Error Lexer :=
  match l.keys with
  | some k :: keys => if k.required then .error .malformed else .ok { l with keys := none :: keys }
  | _ => .ok l

/-- The next token may turn out to be a key. -/
def saveKey (l : Lexer) : Except Error Lexer :=
  if l.keyAllowed then do
    let l ← l.removeKey
    let k : PossibleKey := {
      required := !l.inFlow && l.indent = l.cursor.column
      position := l.tokens.size
      index := l.cursor.index
      line := l.cursor.line
      column := l.cursor.column }
    return { l with keys := some k :: l.keys.drop 1 }
  else .ok l

/-- A block collection starts at a column that lies deeper. -/
def rollIndent (column : Nat) (position : Option Nat) (t : Token) (l : Lexer) : Lexer :=
  if l.inFlow || (column : Int) ≤ l.indent then l
  else
    let l := { l with indents := l.indent :: l.indents, indent := column }
    match position with
    | some n => l.insertAt n t
    | none => l.emit t

/-- The block collections that lie deeper than a column end. -/
def unrollIndent (column : Int) (l : Lexer) : Lexer :=
  if l.inFlow then l
  else
    let rec go : Int → List Int → Array Token → Int × List Int × Array Token
      | indent, [], tokens => (indent, [], tokens)
      | indent, outer :: indents, tokens =>
        if column < indent then go outer indents (tokens.push .blockEnd)
        else (indent, outer :: indents, tokens)
    let (indent, indents, tokens) := go l.indent l.indents l.tokens
    { l with indent, indents, tokens }

/-- A character of the name of an anchor or an alias: visible, and no flow indicator. -/
def isNameChar (c : Char) : Bool :=
  !Plain.isFlowIndicator c && (('!' ≤ c && c ≤ '~') || ('\u00a0' ≤ c && c ≠ '\ufeff'))

/-- The name of an anchor or an alias after its indicator. -/
def anchorName (l : Lexer) : Except Error (String × Lexer) :=
  let name := l.cursor.rest.takeWhile isNameChar
  let l := l.skip name.length
  if name.isEmpty || l.cursor.rest.head? = some '\ufeff' then .error .malformed
  else .ok (.ofList name, l)

def isHandleChar (c : Char) : Bool := c.isAlphanum || c = '_' || c = '-'

def isUriChar (c : Char) : Bool :=
  isHandleChar c || [';', '/', '?', ':', '@', '&', '=', '+', '$', '.', '!', '~', '*', '\'', '(',
    ')', '%', ',', '[', ']', '#'].contains c

/-- The URI at the place. -/
def uri (l : Lexer) : Except Error (String × Lexer) :=
  let uri := l.cursor.rest.takeWhile isUriChar
  if uri.isEmpty then .error .malformed else .ok (.ofList uri, l.skip uri.length)

/-- The handle of a tag at its exclamation mark: that mark before a space, else all up to a second
one. -/
def tagHandle (l : Lexer) : Except Error (String × Lexer) :=
  match l.cursor.rest with
  | '!' :: ' ' :: _ => .ok ("!", l.skip 1)
  | '!' :: s =>
    let name := s.takeWhile isHandleChar
    if (s.drop name.length).head? = some '!' then
      .ok (s!"!{String.ofList name}!", l.skip (name.length + 2))
    else .error .malformed
  | _ => .error .malformed

/-- A tag at its exclamation mark; `short` is its handle if it writes no other one. -/
def tagSource (short : String) (l : Lexer) : Except Error (TagSource × Lexer) :=
  let s := l.cursor.rest.drop 1
  if s.head? = some '<' then do
    let (full, l) ← (l.skip 2).uri
    if l.cursor.rest.head? = some '>' then return (⟨"", full⟩, l.skip 1) else .error .malformed
  else if atGap s then .ok (⟨"", short⟩, l.skip 1)
  else do
    let ownHandle := (s.takeWhile fun c => c ≠ ' ' && !isBreak c).contains '!'
    let (handle, l) ← if ownHandle then l.tagHandle else .ok (short, l.skip 1)
    let (suffix, l) ← l.uri
    return (⟨handle, suffix⟩, l)

def natural (l : Lexer) : Except Error (Nat × Lexer) :=
  let digits := l.cursor.rest.takeWhile Json.isDecimal
  if digits.isEmpty then .error .malformed else .ok (Json.decimal digits, l.skip digits.length)

/-- A token that a space or a line break has to follow. -/
def beforeSpace (t : Token) (l : Lexer) : Except Error Lexer :=
  if atSpace l.cursor.rest then .ok (l.emit t) else .error .malformed

/-- The numbers of a version after the directive's name. -/
def versionDirective (l : Lexer) : Except Error Lexer := do
  let (major, l) ← l.natural
  if l.cursor.rest.head? ≠ some '.' then .error .malformed
  else
    let (minor, l) ← (l.skip 1).natural
    l.beforeSpace (.versionDirective major minor)

/-- The handle and the start of the tags it stands for, after the directive's name. -/
def tagDirective (l : Lexer) : Except Error Lexer := do
  let (handle, l) ← l.tagHandle
  if l.cursor.rest.head? ≠ some ' ' then .error .malformed
  else
    let (target, l) ← (l.skipWhile (· = ' ')).uri
    l.beforeSpace (.tagDirective handle target)

/-- A directive after its percent sign; those of unknown names are read and have no effect. -/
def directive (l : Lexer) : Except Error Lexer := do
  let name := l.cursor.rest.takeWhile fun c => isHandleChar c || c = ':' || c = '.'
  let l := l.skip name.length
  if name.isEmpty || !atSpace l.cursor.rest then .error .malformed
  else
    let values := l.skipWhile (· = ' ')
    let l ← match String.ofList name with
      | "YAML" => values.versionDirective
      | "TAG" => values.tagDirective
      | _ => .ok ((l.skipWhile (!isLineEnd ·)).emit .otherDirective)
    match l.cursor.nextLine? with
    | some cursor => return { l with cursor }
    | none => .error .malformed

/-- A token that ends what is possible before it: the collections of the block level and a key. -/
def fetchDirective (l : Lexer) : Except Error Lexer := do
  let l ← (l.unrollIndent (-1)).removeKey
  ((l.allowKey false).skip 1).directive

def fetchMarker (t : Token) (l : Lexer) : Except Error Lexer := do
  let l ← (l.unrollIndent (-1)).removeKey
  return ((l.allowKey false).skip 3).emit t

def fetchFlowStart (kind : FlowKind) (t : Token) (l : Lexer) : Except Error Lexer := do
  let l ← l.saveKey
  let l := { l with keys := none :: l.keys, flows := kind :: l.flows, keyAllowed := true }
  return (l.skip 1).emit t

def fetchFlowEnd (t : Token) (l : Lexer) : Except Error Lexer := do
  let l ← l.removeKey
  let l := if l.inFlow then { l with keys := l.keys.drop 1, flows := l.flows.drop 1 } else l
  return ((l.allowKey false).skip 1).emit t

def fetchFlowEntry (l : Lexer) : Except Error Lexer := do
  let l ← l.removeKey
  return ((l.allowKey true).skip 1).emit .flowEntry

def fetchBlockEntry (l : Lexer) : Except Error Lexer := do
  if !l.inFlow && !l.keyAllowed then .error .malformed
  else
    let l ← (l.rollIndent l.cursor.column none .blockSequenceStart).removeKey
    return ((l.allowKey true).skip 1).emit .blockEntry

def fetchKey (l : Lexer) : Except Error Lexer := do
  if !l.inFlow && !l.keyAllowed then .error .malformed
  else
    let l ← (l.rollIndent l.cursor.column none .blockMappingStart).removeKey
    return ((l.allowKey (!l.inFlow)).skip 1).emit .key

def fetchValue (l : Lexer) : Except Error Lexer :=
  match l.keys with
  | some k :: keys =>
    let l := (l.insertAt k.position .key).rollIndent k.column (some k.position) .blockMappingStart
    .ok ((({ l with keys := none :: keys }.allowKey false).skip 1).emit .value)
  | _ =>
    if !l.inFlow && !l.keyAllowed then .error .malformed
    else
      let l := l.rollIndent l.cursor.column none .blockMappingStart
      .ok (((l.allowKey (!l.inFlow)).skip 1).emit .value)

def fetchAlias (l : Lexer) : Except Error Lexer := do
  let l ← l.saveKey
  let (name, l) ← ((l.allowKey false).skip 1).anchorName
  return l.emit (.alias name)

def fetchAnchor (l : Lexer) : Except Error Lexer := do
  let l ← l.saveKey
  let (name, l) ← ((l.allowKey false).skip 1).anchorName
  return l.emit (.anchor name)

def fetchTag (l : Lexer) : Except Error Lexer := do
  let l ← l.saveKey
  let l := l.allowKey false
  let (source, l) ← match l.cursor.rest with
    | '!' :: '!' :: _ => (l.skip 1).tagSource "!!"
    | _ => l.tagSource "!"
  l.beforeSpace (.tag source)

def fetchBlockScalar (folded : Bool) (l : Lexer) : Except Error Lexer := do
  let l ← l.removeKey
  let l := (l.allowKey true).skip 1
  let (s, cursor) ← Block.scalar folded l.indent l.cursor
  return { l with cursor }.emit (.scalar (.ofList s) .block)

def fetchQuoted (double : Bool) (l : Lexer) : Except Error Lexer := do
  let l ← l.saveKey
  let l := (l.allowKey false).skip 1
  let (s, cursor) ← Quoted.scalar double l.cursor
  return { l with cursor }.emit (.scalar (.ofList s) .quoted)

def fetchPlain (l : Lexer) : Except Error Lexer := do
  let l ← l.saveKey
  let (s, cursor, broken) := Plain.scalar l.inFlow (l.indent + 1) l.cursor
  return ({ l with cursor }.allowKey broken).emit (.scalar (.ofList s) .plain)

/-- Characters that start no plain scalar unless more is said of them. -/
def isIndicator (c : Char) : Bool :=
  ['-', '?', ':', ',', '[', ']', '\x7b', '\x7d', '#', '&', '*', '!', '|', '>', '\'', '"', '%', '@',
    '\x60'].contains c

def startsPlain (inFlow : Bool) : List Char → Bool
  | [] => false
  | c :: s =>
    !(isBlank c || isBreak c || isIndicator c) || (c = '-' && !atGap s) ||
      (c = ':' && inFlow && !(s.head?.map isBlank).getD false) ||
      ((c = '?' || c = ':') && !inFlow && !atGap s)

/-- A colon starts a value before a gap. In a flow mapping it does so before a word too, but for
right after another colon while a possible key holds tokens back (`held`). -/
def startsValue (held : Bool) (s : List Char) (l : Lexer) : Bool :=
  atGap s || (l.flows.head? = some .mapping && !(held && l.tokens.back? = some .value))

/-- The next token, at its first character. -/
def fetch (held : Bool) (l : Lexer) : Except Error Lexer :=
  match l.cursor.rest with
  | [] => .error .malformed
  | c :: s =>
    if l.cursor.column = 0 && c = '%' then l.fetchDirective
    else if l.cursor.column = 0 && isMarker (c :: s) then
      l.fetchMarker (if c = '-' then .documentStart else .documentEnd)
    else if c = '[' then l.fetchFlowStart .sequence .flowSequenceStart
    else if c = '\x7b' then l.fetchFlowStart .mapping .flowMappingStart
    else if c = ']' then l.fetchFlowEnd .flowSequenceEnd
    else if c = '\x7d' then l.fetchFlowEnd .flowMappingEnd
    else if c = ',' then l.fetchFlowEntry
    else if c = '-' && atGap s then l.fetchBlockEntry
    else if c = '?' && (l.inFlow || atGap s) then l.fetchKey
    else if c = ':' && l.startsValue held s then l.fetchValue
    else if c = '*' then l.fetchAlias
    else if c = '&' then l.fetchAnchor
    else if c = '!' then l.fetchTag
    else if c = '|' && !l.inFlow then l.fetchBlockScalar false
    else if c = '>' && !l.inFlow then l.fetchBlockScalar true
    else if c = '\'' then l.fetchQuoted false
    else if c = '"' then l.fetchQuoted true
    else if startsPlain l.inFlow (c :: s) then l.fetchPlain
    else .error .malformed

/-- The next token after what may come before it, or the end of the text. -/
def step (l : Lexer) : Except Error Lexer := do
  let held : Bool := l.released < l.tokens.size
  let l ← (l.skipToToken (l.cursor.rest.length + 1)).dropStaleKeys
  let l := l.unrollIndent l.cursor.column
  if l.cursor.rest.isEmpty then
    let l ← (l.unrollIndent (-1)).removeKey
    return l.emit .streamEnd
  else l.fetch held

/-- The tokens before a fault. Those that a possible key holds back are lost with it. -/
def stop (e : Error) (l : Lexer) : List Token := l.tokens.toList.take l.released ++ [.fault e]

/-- All tokens from a place on. Each takes at least one of `fuel` characters. -/
def run : Nat → Lexer → List Token
  | 0, l => l.stop .malformed
  | fuel + 1, l => match l.dropStaleKeys with
    | .error e => l.stop e
    | .ok l => match l.step with
      | .error e => l.stop e
      | .ok next =>
        if next.tokens.back? = some .streamEnd then next.tokens.toList else run fuel next

end Lexer

/-- The tokens of a text, up to its end or a fault. -/
def tokens (s : List Char) : List Token :=
  if s.all isAllowed then Lexer.run (s.length + 2) (.start s) else [.fault .malformed]

end Storefront.Yaml
