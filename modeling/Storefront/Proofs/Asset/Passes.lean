import Storefront.Proofs.Asset.Conditional

/-!
The passes over an asset, one by one, as changes of its document: URLs and settings become text,
conditionals become the parts that are kept, and tags and outputs disappear.
-/

namespace Storefront.Asset

/-! ### Changes of documents -/

def Leaf.resolved (context : Context) : Leaf → Leaf
  | .url name => .text (urlText context name)
  | l => l

/-- The paths of the settings that are put out, in order. -/
def Leaf.settings (ls : List Leaf) : List (List Char) :=
  ls.filterMap fun
    | .setting path => some path
    | _ => none

/-- The parts with a held mark in place of each setting, numbered from `slot`. -/
def Leaf.held (slot : Nat) : List Leaf → List Leaf
  | [] => []
  | .setting _ :: ls => .text (heldMark slot) :: held (slot + 1) ls
  | l :: ls => l :: held slot ls

def Leaf.isTag : Leaf → Bool
  | .tag _ => true
  | _ => false

def Leaf.texts (ls : List Leaf) : List Char :=
  ls.flatMap fun
    | .text s => s
    | _ => []

/-- The parts that stay of a node once its condition is decided; both branches with the `else`
between them where bodies are kept whole. -/
def Node.kept {ε : Type} (context : Context) : Node → Outcome ε (List Leaf)
  | .leaf l => pure [l]
  | .conditional negated condition body otherwise =>
    if context.keepBodies then pure (Leaf.between body otherwise)
    else do
      let holds ← verdict context.settings (.ofList condition)
      return if holds != negated then body else otherwise.getD []

def Node.keptAll {ε : Type} (context : Context) : List Node → Outcome ε (List Leaf)
  | [] => pure []
  | n :: ns => return (← n.kept context) ++ (← keptAll context ns)

/-! ### Outputs in general -/

section output

variable {α : Type} {recognise : List Char → Option (α × List Char)}

/-- An output that is not recognised falls into its characters. -/
theorem all_outputSource_of_none (hle : ∀ u, after? outputOpen u = none → recognise u = none)
    {x r : List Char} (hb : '\x7b' ∉ x) (h : recognise (outputSource x ++ r) = none) :
    Piece.all recognise (outputSource x ++ r) =
      (outputSource x).map .char ++ Piece.all recognise r := by
  have htail := Piece.all_append_of_silent ((silent_outputOpen_tail hb).of_le hle) r
  have hhead : Piece.all recognise (outputSource x ++ r) = .char '\x7b' ::
      Piece.all recognise ('\x7b' :: ' ' :: (x ++ ' ' :: outputClose) ++ r) :=
    Piece.all_cons_of_none h
  rw [hhead, htail]
  rfl

theorem all_tagSource (hle : ∀ u, after? outputOpen u = none → recognise u = none) {x : List Char}
    (hb : '\x7b' ∉ x) (r : List Char) :
    Piece.all recognise (tagSource x ++ r) = (tagSource x).map .char ++ Piece.all recognise r :=
  Piece.all_append_of_silent ((silent_outputOpen_tagSource hb).of_le hle) r

end output

/-! ### URLs -/

section urls

variable {context : Context}

theorem resolveAll_cons (name : List Char) (names : List (List Char)) :
    resolveAll context (name :: names) =
      context.resolveUrl (.ofList name) >>= fun _ => resolveAll context names := by
  simp [resolveAll]

theorem OutputsEnd.tail {l : Leaf} {ls : List Leaf} (h : OutputsEnd (l :: ls)) : OutputsEnd ls :=
  fun expression after hs => h expression after (hs.trans (List.suffix_cons l ls))

/-- Text in front of what is resolved stays in front of it. -/
theorem resolveUrls_chars_append {s t u : List Char} {names : List (List Char)}
    (h : Piece.all assetUrl? (s ++ t) = s.map .char ++ Piece.all assetUrl? t)
    (ht : resolveUrls context t = do
      Outcome.ofExcept (resolveAll context names)
      return u) :
    resolveUrls context (s ++ t) = do
      Outcome.ofExcept (resolveAll context names)
      return s ++ u := by
  rw [resolveUrls, h, Piece.textM_chars_append]
  show (s ++ ·) <$> resolveUrls context t = _
  rw [ht]
  simp

theorem resolveUrls_url_append {name t u : List Char} {names : List (List Char)} (hne : name ≠ [])
    (hq : ∀ c ∈ name, isQuote c = false)
    (ht : resolveUrls context t = do
      Outcome.ofExcept (resolveAll context names)
      return u) :
    resolveUrls context (Leaf.source (.url name) ++ t) = do
      Outcome.ofExcept (resolveAll context (name :: names))
      return urlText context name ++ u := by
  have hsource : Leaf.source (.url name) ≠ [] := List.cons_ne_nil _ _
  rw [resolveUrls, Piece.all_append_of_some hsource (assetUrl?_url hne hq t), Piece.textM]
  show (do
    let s ← Outcome.ofExcept ((context.resolveUrl (.ofList name)).map String.toList)
    return s ++ (← resolveUrls context t)) = _
  rw [ht, resolveAll_cons, urlText]
  cases context.resolveUrl (.ofList name) with
  | error e => rfl
  | ok url =>
    show (do let s ← pure url.toList; return s ++ (← _)) = _
    simp only [pure_bind, bind_assoc]
    rfl

/-- URLs are resolved where the document has them and nowhere else. -/
theorem resolveUrls_sources {ls : List Leaf} (hsound : ∀ l ∈ ls, (l.resolved context).Sound)
    (hname : ∀ name, .url name ∈ ls → name ≠ [] ∧ ∀ c ∈ name, isQuote c = false)
    (hend : OutputsEnd ls) :
    resolveUrls context (Leaf.sources ls) = do
      Outcome.ofExcept (resolveAll context (Leaf.urlNames ls))
      return Leaf.sources (ls.map (Leaf.resolved context)) := by
  induction ls with
  | nil => rfl
  | cons l ls ih =>
    have ih := ih (fun m hm => hsound m (List.mem_cons_of_mem _ hm))
      (fun name hm => hname name (List.mem_cons_of_mem _ hm)) hend.tail
    have hl := hsound l List.mem_cons_self
    cases l with
    | text s =>
      exact resolveUrls_chars_append
        (Piece.all_append_of_silent (hl.1.of_le fun _ => assetUrl?_eq_none) _) ih
    | setting path =>
      refine resolveUrls_chars_append
        (all_outputSource_of_none (fun _ => assetUrl?_eq_none) ?_ ?_) ih
      · exact not_mem_settingExpression hl (by simp)
      · exact assetUrl?_setting path _
    | url name =>
      obtain ⟨hne, hq⟩ := hname name List.mem_cons_self
      exact resolveUrls_url_append hne hq ih
    | tag words =>
      exact resolveUrls_chars_append
        (all_tagSource (fun _ => assetUrl?_eq_none) (fun hm => hl _ hm (by simp)) _) ih
    | output expression =>
      refine resolveUrls_chars_append
        (all_outputSource_of_none (fun _ => assetUrl?_eq_none) ?_ ?_) ih
      · exact fun hm => hl.noBrace _ hm (by simp)
      · exact hend expression ls (List.suffix_refl _)

end urls

/-! ### Settings -/

/-- The settings that are put out are those of the document. -/
theorem directives_settingOutput {ls : List Leaf} (h : ∀ l ∈ ls, l.Sound) :
    Piece.directives (Piece.all settingOutput? (Leaf.sources ls)) = Leaf.settings ls ∧
      ∀ slot, Piece.hold slot (Piece.all settingOutput? (Leaf.sources ls)) =
        Leaf.sources (Leaf.held slot ls) := by
  induction ls with
  | nil => exact ⟨rfl, fun _ => rfl⟩
  | cons l ls ih =>
    obtain ⟨ihd, ihh⟩ := ih fun m hm => h m (List.mem_cons_of_mem _ hm)
    have hl := h l List.mem_cons_self
    have hle : ∀ u, after? outputOpen u = none → settingOutput? u = none :=
      fun _ => settingOutput?_eq_none
    -- All parts but settings fall into their characters, which `hold` leaves in place.
    have hchars (hall : Piece.all settingOutput? (l.source ++ Leaf.sources ls) =
        l.source.map .char ++ Piece.all settingOutput? (Leaf.sources ls)) :
        Piece.directives (Piece.all settingOutput? (Leaf.sources (l :: ls))) = Leaf.settings ls ∧
          ∀ slot, Piece.hold slot (Piece.all settingOutput? (Leaf.sources (l :: ls))) =
            l.source ++ Leaf.sources (Leaf.held slot ls) := by
      rw [Leaf.sources, List.flatMap_cons]
      refine ⟨?_, fun slot => ?_⟩
      · exact (congrArg _ hall).trans (by simp [ihd])
      · exact (congrArg _ hall).trans (by simp [ihh])
    cases l with
    | text s => exact hchars (Piece.all_append_of_silent (hl.1.of_le hle) _)
    | setting path =>
      have hall := Piece.all_append_of_some (List.cons_ne_nil _ _)
        (settingOutput?_setting hl (Leaf.sources ls))
      refine ⟨?_, fun slot => ?_⟩
      · exact (congrArg _ hall).trans (congrArg (path :: ·) ihd)
      · exact (congrArg _ hall).trans (congrArg (heldMark slot ++ ·) (ihh (slot + 1)))
    | url name => exact hl.elim
    | tag words => exact hchars (all_tagSource hle (fun hm => hl _ hm (by simp)) _)
    | output expression =>
      refine hchars (all_outputSource_of_none hle (fun hm => hl.noBrace _ hm (by simp)) ?_)
      exact settingOutput?_append_eq_none (fun hm => hl.noBrace _ hm (by simp)) hl.noSetting _

/-! ### Conditionals -/

theorem Leaf.Free.silent_conditional? {l : Leaf} (h : l.Free) : Silent conditional? l.source := by
  have hsound := h.sound
  cases l with
  | text s => exact hsound.2.of_le fun _ => conditional?_eq_none
  | setting path =>
    exact (silent_tagOpen_outputSource (not_mem_settingExpression hsound (by simp))).of_le
      fun _ => conditional?_eq_none
  | url name => exact hsound.elim
  | tag words =>
    have hfree := h.freeTag words rfl
    have hb : '\x7b' ∉ words := fun hm => hsound _ hm (by simp)
    refine Silent.cons_iff.2
      ⟨fun r => ?_, (silent_tagOpen_tail hb).of_le fun _ => conditional?_eq_none⟩
    have hnone := conditional?_eq_none_of_takeWhile_ne (s := tagClose ++ r) hfree.startsWithWord
      fun negated heq => hfree.notReserved (heq ▸ openWord_mem_reservedWords negated)
    simpa [tagOpen] using hnone
  | output expression =>
    have hb : '\x7b' ∉ expression := fun hm => hsound.noBrace _ hm (by simp)
    exact (silent_tagOpen_outputSource hb).of_le fun _ => conditional?_eq_none

/-- A conditional resolves to the source of the parts that are kept of it. -/
theorem resolve_source {ε : Type} {condition : List Char} {body : List Leaf}
    {otherwise : Option (List Leaf)} (hb : ∀ l ∈ body, l.Free) (context : Context)
    (negated : Bool) :
    Conditional.resolve (ε := ε) context
        { negated, condition, body := Leaf.sources (Leaf.between body otherwise) } =
      Leaf.sources <$> (Node.conditional negated condition body otherwise).kept context := by
  rw [Conditional.resolve, branches_source hb, Node.kept]
  split
  · rfl
  · simp only [map_bind, map_pure, apply_ite Leaf.sources]

theorem resolveConditionals_sources {ε : Type} {ns : List Node} (h : ∀ n ∈ ns, n.Forall Leaf.Free)
    (context : Context) :
    resolveConditionals (ε := ε) context (Node.sources ns) =
      Leaf.sources <$> Node.keptAll context ns := by
  induction ns with
  | nil => rfl
  | cons n ns ih =>
    have ih := ih fun m hm => h m (List.mem_cons_of_mem _ hm)
    have hn := h n List.mem_cons_self
    have hsources : Node.sources (n :: ns) = Leaf.sources n.leaves ++ Node.sources ns := by
      simp [Node.sources, Leaf.sources]
    rw [hsources, Node.keptAll]
    cases n with
    | leaf l =>
      have hl : Leaf.sources (Node.leaf l).leaves = l.source := List.append_nil _
      rw [hl, resolveConditionals, Piece.all_append_of_silent (hn.silent_conditional?),
        Piece.textM_chars_append]
      show (l.source ++ ·) <$> resolveConditionals context (Node.sources ns) = _
      rw [ih]
      simp [Node.kept, Leaf.sources]
    | conditional negated condition body otherwise =>
      obtain ⟨hc, hb, ho⟩ := hn
      have hne : Leaf.sources (Node.conditional negated condition body otherwise).leaves ≠ [] :=
        List.cons_ne_nil _ _
      rw [resolveConditionals,
        Piece.all_append_of_some hne (conditional?_source hc hb ho negated _), Piece.textM,
        resolve_source hb]
      show (do
        let s ← Leaf.sources <$> (Node.conditional negated condition body otherwise).kept context
        return s ++ (← resolveConditionals context (Node.sources ns))) = _
      rw [ih]
      simp [Leaf.sources]

/-! ### Other tags and outputs -/

theorem removeTags_append_of_silent {s : List Char} (h : Silent (after? tagOpen) s)
    (r : List Char) : removeTags (s ++ r) = s ++ removeTags r := by
  rw [removeTags, Piece.all_append_of_silent (h.of_le fun _ => anyTag?_eq_none), Piece.text_append,
    Piece.text_chars]
  rfl

theorem removeTags_sources {ls : List Leaf} (h : ∀ l ∈ ls, l.Sound) :
    removeTags (Leaf.sources ls) = Leaf.sources (ls.filter (!·.isTag)) := by
  induction ls with
  | nil => rfl
  | cons l ls ih =>
    have ih := ih fun m hm => h m (List.mem_cons_of_mem _ hm)
    have hl := h l List.mem_cons_self
    have hkept (hs : Silent (after? tagOpen) l.source) (ht : l.isTag = false) :
        removeTags (Leaf.sources (l :: ls)) = Leaf.sources ((l :: ls).filter (!·.isTag)) := by
      rw [Leaf.sources, List.flatMap_cons, removeTags_append_of_silent hs]
      show l.source ++ removeTags (Leaf.sources ls) = _
      rw [ih, List.filter_cons_of_pos (by simp [ht])]
      rfl
    cases l with
    | text s => exact hkept hl.2 rfl
    | setting path =>
      exact hkept (silent_tagOpen_outputSource (not_mem_settingExpression hl (by simp))) rfl
    | url name => exact hl.elim
    | tag words =>
      have hall := Piece.all_append_of_some (List.cons_ne_nil _ _)
        (anyTag?_tagSource (fun hm => hl _ hm (by simp)) (Leaf.sources ls))
      exact (congrArg (Piece.text fun _ _ => []) hall).trans ih
    | output expression =>
      exact hkept (silent_tagOpen_outputSource fun hm => hl.noBrace _ hm (by simp)) rfl

theorem removeOutputs_outputSource_append {x : List Char} (h : '\x7d' ∉ x) (r : List Char) :
    removeOutputs (outputSource x ++ r) = removeOutputs r :=
  (congrArg (Piece.text fun _ _ => [])
    (Piece.all_append_of_some (d := outputSource x) (List.cons_ne_nil _ _)
      (anyOutput?_outputSource h r))).trans rfl

theorem removeOutputs_sources {ls : List Leaf} (h : ∀ l ∈ ls, l.Sound)
    (htag : ∀ l ∈ ls, l.isTag = false) : removeOutputs (Leaf.sources ls) = Leaf.texts ls := by
  induction ls with
  | nil => rfl
  | cons l ls ih =>
    have ih := ih (fun m hm => h m (List.mem_cons_of_mem _ hm))
      fun m hm => htag m (List.mem_cons_of_mem _ hm)
    have hl := h l List.mem_cons_self
    rw [Leaf.sources, List.flatMap_cons, Leaf.texts, List.flatMap_cons]
    cases l with
    | text s =>
      have hall := Piece.all_append_of_silent (hl.1.of_le fun _ => anyOutput?_eq_none)
        (Leaf.sources ls)
      refine (congrArg (Piece.text fun _ _ => []) hall).trans ?_
      rw [Piece.text_append, Piece.text_chars]
      exact congrArg (s ++ ·) ih
    | setting path =>
      exact (removeOutputs_outputSource_append (not_mem_settingExpression hl (by simp)) _).trans ih
    | url name => exact hl.elim
    | tag words => exact Bool.noConfusion (htag _ List.mem_cons_self)
    | output expression =>
      exact (removeOutputs_outputSource_append (fun hm => hl.noBrace _ hm (by simp)) _).trans ih

/-- Of a document without conditionals only its texts are left. -/
theorem removeOutputs_removeTags_sources {ls : List Leaf} (h : ∀ l ∈ ls, l.Sound) :
    removeOutputs (removeTags (Leaf.sources ls)) = Leaf.texts ls := by
  rw [removeTags_sources h, removeOutputs_sources (fun l hl => h l (List.mem_filter.1 hl).1)
    fun l hl => by simpa using (List.mem_filter.1 hl).2]
  induction ls with
  | nil => rfl
  | cons l ls ih =>
    have ih := ih fun m hm => h m (List.mem_cons_of_mem _ hm)
    cases l with
    | tag words => exact ih
    | _ => exact congrArg (_ ++ ·) ih

end Storefront.Asset
