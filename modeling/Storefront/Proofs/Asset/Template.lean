import Storefront.Asset.Processing

/-!
Assets in the documented form: text, outputs of settings and of asset URLs, tags and outputs that
mean nothing, and conditionals around such parts. `Node.source` writes a document out, and
`Node.meaning` says what each part stands for, with no search for directives.
-/

namespace Storefront.Asset

/-- A part of an asset that is no conditional. -/
inductive Leaf where
  | text (s : List Char)
  | setting (path : List Char)
  | url (name : List Char)
  /-- A tag that belongs to no conditional. -/
  | tag (words : List Char)
  /-- An output of neither a setting nor a URL. -/
  | output (expression : List Char)
  deriving DecidableEq, Repr

/-- A part of an asset. A conditional keeps its body if the condition holds, or if it does not when
`negated`, and else what comes after `else`, if there is such a branch. -/
inductive Node where
  | leaf (l : Leaf)
  | conditional (negated : Bool) (condition : List Char) (body : List Leaf)
      (otherwise : Option (List Leaf))
  deriving DecidableEq, Repr

/-! ### Written form -/

def tagSource (words : List Char) : List Char := tagOpen ++ ' ' :: (words ++ ' ' :: tagClose)

def outputSource (expression : List Char) : List Char :=
  outputOpen ++ ' ' :: (expression ++ ' ' :: outputClose)

def Leaf.source : Leaf → List Char
  | .text s => s
  | .setting path => outputSource ("settings.".toList ++ path)
  | .url name => outputSource ('\'' :: (name ++ "' | asset_url".toList))
  | .tag words => tagSource words
  | .output expression => outputSource expression

/-- The parts between the tags that open and close a conditional. -/
def Leaf.between (body : List Leaf) (otherwise : Option (List Leaf)) : List Leaf :=
  body ++ otherwise.elim [] fun branch => .tag elseWord :: branch

/-- The parts in a row, among them the tags of a conditional. -/
def Node.leaves : Node → List Leaf
  | .leaf l => [l]
  | .conditional negated condition body otherwise =>
    .tag (Conditional.openWord negated ++ ' ' :: condition) :: Leaf.between body otherwise ++
      [.tag (Conditional.endWord negated)]

def Leaf.sources (ls : List Leaf) : List Char := ls.flatMap Leaf.source

def Node.sources (ns : List Node) : List Char := Leaf.sources (ns.flatMap Node.leaves)

/-! ### Well-formed documents -/

/-- Text in which no directive and no held mark begins, whatever follows it. -/
structure PlainText (s : List Char) : Prop where
  noOutput : ¬outputOpen <:+: s
  noTag : ¬tagOpen <:+: s
  noBraceAtEnd : s.getLast? ≠ some '\x7b'
  noMark : '\ue000' ∉ s

theorem PlainText.of_not_mem {s : List Char} (hbrace : '\x7b' ∉ s) (hmark : '\ue000' ∉ s) :
    PlainText s where
  noOutput h := hbrace (h.subset List.mem_cons_self)
  noTag h := hbrace (h.subset List.mem_cons_self)
  noBraceAtEnd h := hbrace (List.mem_of_getLast? h)
  noMark := hmark

/-- Segments of word characters and dashes with dots between them. -/
def IsPath (path : List Char) : Prop :=
  ∀ segment ∈ Text.splitOn '.' path, segment ≠ [] ∧ ∀ c ∈ segment, Text.isSegmentChar c = true

/-- The words that open, divide and close conditionals. -/
def reservedWords : List (List Char) :=
  [Conditional.openWord false, Conditional.openWord true, elseWord, Conditional.endWord false,
    Conditional.endWord true]

theorem openWord_mem_reservedWords (negated : Bool) :
    Conditional.openWord negated ∈ reservedWords := by
  cases negated <;> simp [reservedWords]

theorem endWord_mem_reservedWords (negated : Bool) :
    Conditional.endWord negated ∈ reservedWords := by
  cases negated <;> simp [reservedWords]

theorem elseWord_mem_reservedWords : elseWord ∈ reservedWords := by
  simp [reservedWords]

theorem isWord_of_mem_reservedWords {word : List Char} (h : word ∈ reservedWords) :
    ∀ c ∈ word, Text.isWord c = true := by
  have hall : reservedWords.all (·.all Text.isWord) = true := by decide
  exact List.all_eq_true.1 (List.all_eq_true.1 hall word h)

/-- Words of a tag that starts with a word of its own. -/
structure FreeTag (words : List Char) : Prop where
  startsWithWord : words.takeWhile Text.isWord ≠ []
  notReserved : words.takeWhile Text.isWord ∉ reservedWords
  noMark : ∀ c ∈ words, c ∉ ['\x7b', '\x7d', '%']

/-- An expression whose output, taken alone, is that of neither a setting nor a URL. -/
structure FreeOutput (expression : List Char) : Prop where
  noBrace : ∀ c ∈ expression, c ∉ ['\x7b', '\x7d']
  noSetting : settingOutput? (outputSource expression) = none
  noUrl : assetUrl? (outputSource expression) = none

theorem not_mark_of_isWord {c : Char} (h : Text.isWord c = true) : c ∉ ['\x7b', '\x7d', '%'] := by
  have hmarks : ['\x7b', '\x7d', '%'].all (!Text.isWord ·) = true := by decide
  intro hc
  have hnot := List.all_eq_true.1 hmarks c hc
  simp [h] at hnot

/-- No character is among those that are ruled out, as a test of all characters finds. -/
theorem not_mem_of_all {s ruledOut : List Char} (h : s.all (!ruledOut.contains ·) = true) :
    ∀ c ∈ s, c ∉ ruledOut := by
  simpa using h

structure IsCondition (condition : List Char) : Prop where
  nonempty : condition ≠ []
  trimmed : Text.trim condition = condition
  noMark : ∀ c ∈ condition, c ∉ ['\x7b', '\x7d', '%']

def Leaf.WellFormed : Leaf → Prop
  | .text s => PlainText s
  | .setting path => IsPath path
  | .url name => name ≠ [] ∧ ∀ c ∈ name, isQuote c = false
  | .tag words => FreeTag words
  | .output expression => FreeOutput expression

/-- The conditions are written as they should be and all parts have a property. -/
def Node.Forall (P : Leaf → Prop) : Node → Prop
  | .leaf l => P l
  | .conditional _ condition body otherwise =>
    IsCondition condition ∧ (∀ l ∈ body, P l) ∧ ∀ branch ∈ otherwise, ∀ l ∈ branch, P l

def Node.WellFormed (n : Node) : Prop := n.Forall Leaf.WellFormed

/-- No asset URL begins at an output of the document: a quote that an output opens and leaves open
is not closed further on by one that ends the name of an asset. -/
def OutputsEnd (ls : List Leaf) : Prop :=
  ∀ expression after, .output expression :: after <:+ ls →
    assetUrl? (Leaf.sources (.output expression :: after)) = none

/-- All URLs are free of opening braces and of held marks. -/
def PlainUrls (context : Context) : Prop :=
  ∀ name url, context.resolveUrl name = .ok url → '\x7b' ∉ url.toList ∧ '\ue000' ∉ url.toList

/-! ### Meaning -/

/-- The names of the asset URLs, in order. -/
def Leaf.urlNames (ls : List Leaf) : List (List Char) :=
  ls.filterMap fun
    | .url name => some name
    | _ => none

/-- All URLs are resolved, those of branches that are not kept as well. -/
def resolveAll (context : Context) (names : List (List Char)) : Except UrlError Unit :=
  names.forM fun name => do
    let _ ← context.resolveUrl (.ofList name)

/-- The URL of a name, where it has one. -/
def urlText (context : Context) (name : List Char) : List Char :=
  match context.resolveUrl (.ofList name) with
  | .ok url => url.toList
  | .error _ => []

def Leaf.meaning (context : Context) : Leaf → List Char
  | .text s => s
  | .setting path => (lookupPath context.settings path).render.toList
  | .url name => urlText context name
  | .tag _ | .output _ => []

def Leaf.meanings (context : Context) (ls : List Leaf) : List Char :=
  ls.flatMap (Leaf.meaning context)

def Node.meaning {ε : Type} (context : Context) : Node → Outcome ε (List Char)
  | .leaf l => pure (l.meaning context)
  | .conditional negated condition body otherwise =>
    let kept := Leaf.meanings context body
    let other := Leaf.meanings context (otherwise.getD [])
    if context.keepBodies then pure (kept ++ other)
    else do
      let holds ← verdict context.settings (.ofList condition)
      return if holds != negated then kept else other

def Node.meanings {ε : Type} (context : Context) : List Node → Outcome ε (List Char)
  | [] => pure []
  | n :: ns => return (← n.meaning context) ++ (← meanings context ns)

end Storefront.Asset
