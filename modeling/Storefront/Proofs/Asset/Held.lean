import Storefront.Proofs.Asset.Passes

/-!
Documents whose settings are held back: the marks of a document are numbered through all its parts,
nothing but the directives of the document begins in it, and each value is released where its mark
stands.
-/

namespace Storefront.Asset

variable {context : Context} {ε : Type}

/-! ### Documents with values held back -/

/-- The parts with URLs resolved and a held mark for each setting, numbered from `slot`. -/
def Leaf.prepared (context : Context) (slot : Nat) (ls : List Leaf) : List Leaf :=
  Leaf.held slot (ls.map (Leaf.resolved context))

def Leaf.prepare (context : Context) (slot : Nat) : Leaf → Leaf
  | .setting _ => .text (heldMark slot)
  | l => l.resolved context

def Node.prepare (context : Context) (slot : Nat) : Node → Node
  | .leaf l => .leaf (l.prepare context slot)
  | .conditional negated condition body otherwise =>
    .conditional negated condition (Leaf.prepared context slot body)
      (otherwise.map (Leaf.prepared context (slot + (Leaf.settings body).length)))

def Node.prepareAll (context : Context) (slot : Nat) : List Node → List Node
  | [] => []
  | n :: ns =>
    n.prepare context slot :: prepareAll context (slot + (Leaf.settings n.leaves).length) ns

theorem Leaf.settings_append (as bs : List Leaf) :
    Leaf.settings (as ++ bs) = Leaf.settings as ++ Leaf.settings bs :=
  List.filterMap_append

@[simp] theorem Leaf.settings_map_resolved (ls : List Leaf) :
    Leaf.settings (ls.map (Leaf.resolved context)) = Leaf.settings ls := by
  induction ls with
  | nil => rfl
  | cons l ls ih =>
    cases l with
    | setting path => exact congrArg (path :: ·) ih
    | _ => exact ih

theorem Leaf.held_append (slot : Nat) (as bs : List Leaf) :
    Leaf.held slot (as ++ bs) =
      Leaf.held slot as ++ Leaf.held (slot + (Leaf.settings as).length) bs := by
  induction as generalizing slot with
  | nil => rfl
  | cons a as ih =>
    cases a with
    | setting path =>
      have hslot : slot + (Leaf.settings (.setting path :: as)).length =
          slot + 1 + (Leaf.settings as).length := by
        show slot + ((Leaf.settings as).length + 1) = _
        omega
      rw [hslot]
      exact congrArg (Leaf.text (heldMark slot) :: ·) (ih (slot + 1))
    | _ => exact congrArg (_ :: ·) (ih slot)

theorem Leaf.prepared_append (slot : Nat) (as bs : List Leaf) :
    Leaf.prepared context slot (as ++ bs) = Leaf.prepared context slot as ++
      Leaf.prepared context (slot + (Leaf.settings as).length) bs := by
  rw [prepared, List.map_append, held_append, settings_map_resolved]
  rfl

theorem Leaf.prepared_between (context : Context) (slot : Nat) (body : List Leaf)
    (otherwise : Option (List Leaf)) :
    Leaf.prepared context slot (Leaf.between body otherwise) =
      Leaf.between (Leaf.prepared context slot body)
        (otherwise.map (Leaf.prepared context (slot + (Leaf.settings body).length))) := by
  rw [between, prepared_append]
  cases otherwise <;> rfl

theorem Node.leaves_prepare (slot : Nat) (n : Node) :
    (n.prepare context slot).leaves = Leaf.prepared context slot n.leaves := by
  cases n with
  | leaf l => cases l <;> rfl
  | conditional negated condition body otherwise =>
    have hbetween := Leaf.prepared_between context slot body otherwise
    rw [Node.leaves, Leaf.prepared_append]
    show _ = Leaf.tag _ :: Leaf.prepared context slot (Leaf.between body otherwise) ++ _
    rw [hbetween]
    rfl

/-- Held marks are numbered through all parts of a document. -/
theorem Node.leaves_prepareAll (slot : Nat) (ns : List Node) :
    (Node.prepareAll context slot ns).flatMap Node.leaves =
      Leaf.prepared context slot (ns.flatMap Node.leaves) := by
  induction ns generalizing slot with
  | nil => rfl
  | cons n ns ih =>
    rw [prepareAll, List.flatMap_cons, List.flatMap_cons, Leaf.prepared_append, leaves_prepare, ih]

/-! ### Soundness -/

theorem silent_of_plainText {s : List Char} (h : PlainText s) :
    Silent (after? outputOpen) s ∧ Silent (after? tagOpen) s :=
  ⟨silent_after?_pair h.noOutput h.noBraceAtEnd, silent_after?_pair h.noTag h.noBraceAtEnd⟩

theorem urlText_plain (hurl : PlainUrls context) (name : List Char) :
    '\x7b' ∉ urlText context name ∧ '\ue000' ∉ urlText context name := by
  rw [urlText]
  split
  · next url h => exact hurl _ url h
  · exact ⟨List.not_mem_nil, List.not_mem_nil⟩

theorem Leaf.WellFormed.free_resolved {l : Leaf} (h : l.WellFormed) (hurl : PlainUrls context) :
    (l.resolved context).Free := by
  cases l with
  | text s => exact ⟨silent_of_plainText h, fun words hw => by cases hw⟩
  | setting path => exact ⟨h, fun words hw => by cases hw⟩
  | url name =>
    have hbrace := (urlText_plain hurl name).1
    exact ⟨⟨silent_after?_of_not_mem hbrace, silent_after?_of_not_mem hbrace⟩,
      fun words hw => by cases hw⟩
  | tag words =>
    exact ⟨h.noMark, fun words hw => by cases hw; exact h⟩
  | output expression => exact ⟨h, fun words hw => by cases hw⟩

theorem Leaf.mem_held {l : Leaf} {ls : List Leaf} {slot : Nat} (h : l ∈ Leaf.held slot ls) :
    l ∈ ls ∨ ∃ k, l = .text (heldMark k) := by
  induction ls generalizing slot with
  | nil => exact absurd h List.not_mem_nil
  | cons a ls ih =>
    have htail {k : Nat} (h : l ∈ Leaf.held k ls) : l ∈ a :: ls ∨ ∃ k, l = .text (heldMark k) :=
      (ih h).imp_left (List.mem_cons_of_mem a)
    cases a with
    | setting path =>
      rcases List.mem_cons.1 h with rfl | h
      · exact .inr ⟨slot, rfl⟩
      · exact htail h
    | _ =>
      rcases List.mem_cons.1 h with rfl | h
      · exact .inl List.mem_cons_self
      · exact htail h

theorem Leaf.free_heldMark (slot : Nat) : (Leaf.text (heldMark slot)).Free := by
  have hbrace : '\x7b' ∉ heldMark slot :=
    not_mem_heldMark (by decide) (by decide) (by decide) slot
  exact ⟨⟨silent_after?_of_not_mem hbrace, silent_after?_of_not_mem hbrace⟩,
    fun words hw => by cases hw⟩

theorem Leaf.free_prepared {ls : List Leaf} (h : ∀ l ∈ ls, l.WellFormed)
    (hurl : PlainUrls context) (slot : Nat) : ∀ l ∈ Leaf.prepared context slot ls, l.Free := by
  intro l hl
  rcases Leaf.mem_held hl with hl | ⟨k, rfl⟩
  · obtain ⟨m, hm, rfl⟩ := List.mem_map.1 hl
    exact (h m hm).free_resolved hurl
  · exact Leaf.free_heldMark k

theorem Node.free_prepareAll {ns : List Node} (h : ∀ n ∈ ns, n.WellFormed)
    (hurl : PlainUrls context) (slot : Nat) :
    ∀ n ∈ Node.prepareAll context slot ns, n.Forall Leaf.Free := by
  induction ns generalizing slot with
  | nil => exact fun n hn => absurd hn List.not_mem_nil
  | cons m ns ih =>
    have hm := h m List.mem_cons_self
    refine List.forall_mem_cons.2 ⟨?_, ih (fun n hn => h n (List.mem_cons_of_mem _ hn)) _⟩
    cases m with
    | leaf l =>
      have hfree := Leaf.free_prepared (List.forall_mem_singleton.2 hm) hurl slot
      cases l <;> exact hfree _ List.mem_cons_self
    | conditional negated condition body otherwise =>
      obtain ⟨hc, hb, ho⟩ := hm
      refine ⟨hc, Leaf.free_prepared hb hurl slot, fun branch hbranch => ?_⟩
      obtain ⟨branch, hmem, rfl⟩ := Option.map_eq_some_iff.1 hbranch
      exact Leaf.free_prepared (ho branch hmem) hurl _

/-- The tags of a conditional are sound, though they are not free. -/
theorem IsCondition.sound_openTag {condition : List Char} (h : IsCondition condition)
    (negated : Bool) : (Leaf.tag (Conditional.openWord negated ++ ' ' :: condition)).Sound := by
  have hword := isWord_of_mem_reservedWords (openWord_mem_reservedWords negated)
  intro c hc
  rcases List.mem_append.1 hc with hc | hc
  · exact not_mark_of_isWord (hword c hc)
  · rcases List.mem_cons.1 hc with rfl | hc
    · decide
    · exact h.noMark c hc

section leaves

variable {P Q : Leaf → Prop}

theorem Leaf.forall_between (helse : P (.tag elseWord)) {body : List Leaf}
    {otherwise : Option (List Leaf)} (hb : ∀ l ∈ body, P l)
    (ho : ∀ branch ∈ otherwise, ∀ l ∈ branch, P l) : ∀ l ∈ Leaf.between body otherwise, P l := by
  refine List.forall_mem_append.2 ⟨hb, ?_⟩
  cases otherwise with
  | none => exact fun l hl => absurd hl List.not_mem_nil
  | some branch => exact List.forall_mem_cons.2 ⟨helse, ho branch rfl⟩

theorem Node.Forall.imp {n : Node} (hn : n.Forall P) (h : ∀ l, P l → Q l) : n.Forall Q := by
  cases n with
  | leaf l => exact h l hn
  | conditional negated condition body otherwise =>
    obtain ⟨hc, hb, ho⟩ := hn
    exact ⟨hc, fun l hl => h l (hb l hl), fun branch hbranch l hl => h l (ho branch hbranch l hl)⟩

theorem Leaf.sound_wordTag {word : List Char} (h : word ∈ reservedWords) :
    (Leaf.tag word).Sound :=
  fun c hc => not_mark_of_isWord (isWord_of_mem_reservedWords h c hc)

/-- What holds of all parts of a node holds in a row of them with the tags of a conditional. -/
theorem Node.forall_leaves {n : Node} (htag : ∀ words, (Leaf.tag words).Sound → P (.tag words))
    (h : n.Forall P) : ∀ l ∈ n.leaves, P l := by
  cases n with
  | leaf l => exact List.forall_mem_singleton.2 h
  | conditional negated condition body otherwise =>
    obtain ⟨hc, hb, ho⟩ := h
    have hend := Leaf.sound_wordTag (endWord_mem_reservedWords negated)
    have helse := Leaf.sound_wordTag elseWord_mem_reservedWords
    refine List.forall_mem_cons.2 ⟨htag _ (hc.sound_openTag negated), ?_⟩
    refine List.forall_mem_append.2 ⟨?_, ?_⟩
    · exact Leaf.forall_between (htag _ helse) hb ho
    · exact List.forall_mem_singleton.2 (htag _ hend)

end leaves

theorem Node.sound_of_kept {n : Node} (h : n.Forall Leaf.Sound) {ls : List Leaf}
    (hls : (n.kept (ε := ε) context).result = .ok ls) : ∀ l ∈ ls, l.Sound := by
  cases n with
  | leaf l =>
    cases hls
    exact List.forall_mem_singleton.2 h
  | conditional negated condition body otherwise =>
    obtain ⟨-, hb, ho⟩ := h
    have helse := Leaf.sound_wordTag elseWord_mem_reservedWords
    rw [Node.kept] at hls
    split at hls
    · cases hls
      exact Leaf.forall_between helse hb ho
    · obtain ⟨holds, -, hls⟩ := Outcome.bind_eq_ok.1 hls
      cases hls
      split
      · exact hb
      · cases otherwise with
        | none => exact fun l hl => absurd hl List.not_mem_nil
        | some branch => exact ho branch rfl

theorem Node.sound_of_keptAll {ns : List Node} (h : ∀ n ∈ ns, n.Forall Leaf.Sound)
    {ls : List Leaf} (hls : (Node.keptAll (ε := ε) context ns).result = .ok ls) :
    ∀ l ∈ ls, l.Sound := by
  induction ns generalizing ls with
  | nil =>
    cases hls
    exact fun l hl => absurd hl List.not_mem_nil
  | cons n ns ih =>
    obtain ⟨hn, hns⟩ := List.forall_mem_cons.1 h
    obtain ⟨first, hfirst, hls⟩ := Outcome.bind_eq_ok.1 hls
    obtain ⟨rest, hrest, hls⟩ := Outcome.bind_eq_ok.1 hls
    cases hls
    exact List.forall_mem_append.2 ⟨Node.sound_of_kept hn hfirst, ih hns hrest⟩

/-! ### Release of the values -/

/-- The rendered values of the settings that are put out, in order. -/
def Leaf.values (context : Context) (ls : List Leaf) : List (List Char) :=
  (Leaf.settings ls).map fun path => (lookupPath context.settings path).render.toList

theorem Leaf.values_append (as bs : List Leaf) :
    Leaf.values context (as ++ bs) = Leaf.values context as ++ Leaf.values context bs := by
  simp [values, settings_append]

@[simp] theorem Leaf.length_values (ls : List Leaf) :
    (Leaf.values context ls).length = (Leaf.settings ls).length :=
  List.length_map _

theorem Leaf.texts_append (as bs : List Leaf) :
    Leaf.texts (as ++ bs) = Leaf.texts as ++ Leaf.texts bs :=
  List.flatMap_append

section release

variable {values : List (List Char)}

theorem releaseSettings_text_append {s : List Char} (h : '\ue000' ∉ s) (r : List Char) :
    releaseSettings values (s ++ r) = s ++ releaseSettings values r := by
  rw [releaseSettings, Piece.all_append_of_silent (silent_held? h), Piece.text_append,
    Piece.text_chars]
  rfl

theorem releaseSettings_heldMark_append {slot : Nat} {v : List Char}
    (h : values[slot]? = some v) (r : List Char) :
    releaseSettings values (heldMark slot ++ r) = v ++ releaseSettings values r := by
  have hmark : heldMark slot ≠ [] := List.cons_ne_nil _ _
  rw [releaseSettings, Piece.all_append_of_some hmark (held?_heldMark slot r)]
  show values[slot]?.getD _ ++ _ = _
  rw [h]
  rfl

/-- Of the parts, with values released, just `meaning` is left, whatever text follows. -/
def Releases (values : List (List Char)) (ls : List Leaf) (meaning : List Char) : Prop :=
  ∀ r, releaseSettings values (Leaf.texts ls ++ r) = meaning ++ releaseSettings values r

namespace Releases

variable {as bs : List Leaf} {m n : List Char}

theorem nil : Releases values [] [] := fun _ => rfl

theorem text_cons {s : List Char} (hs : '\ue000' ∉ s) (h : Releases values as m) :
    Releases values (.text s :: as) (s ++ m) := by
  intro r
  show releaseSettings values (s ++ Leaf.texts as ++ r) = _
  rw [List.append_assoc, releaseSettings_text_append hs, h, List.append_assoc]

theorem heldMark_cons {slot : Nat} {v : List Char} (hv : values[slot]? = some v)
    (h : Releases values as m) : Releases values (.text (heldMark slot) :: as) (v ++ m) := by
  intro r
  show releaseSettings values (heldMark slot ++ Leaf.texts as ++ r) = _
  rw [List.append_assoc, releaseSettings_heldMark_append hv, h, List.append_assoc]

theorem append (ha : Releases values as m) (hb : Releases values bs n) :
    Releases values (as ++ bs) (m ++ n) := by
  intro r
  rw [Leaf.texts_append, List.append_assoc, ha, hb, List.append_assoc]

theorem between {otherwise : Option (List Leaf)} (ha : Releases values as m)
    (hb : Releases values (otherwise.getD []) n) :
    Releases values (Leaf.between as otherwise) (m ++ n) := by
  refine ha.append ?_
  cases otherwise with
  | none => exact hb
  | some branch => exact hb

end Releases

/-- Each value takes the place of its own mark. -/
theorem releases_prepared {ls : List Leaf} {slot : Nat} (hls : ∀ l ∈ ls, l.WellFormed)
    (hurl : PlainUrls context) (hvalues : Leaf.values context ls <+: values.drop slot) :
    Releases values (Leaf.prepared context slot ls) (Leaf.meanings context ls) := by
  induction ls generalizing slot with
  | nil => exact Releases.nil
  | cons l ls ih =>
    obtain ⟨hl, htail⟩ := List.forall_mem_cons.1 hls
    cases l with
    | text s => exact (ih htail hvalues).text_cons hl.noMark
    | setting path =>
      obtain ⟨t, ht⟩ := hvalues
      have hdrop : values.drop slot =
          Leaf.meaning context (.setting path) :: (Leaf.values context ls ++ t) := ht.symm
      have hvalue : values[slot]? = some (Leaf.meaning context (.setting path)) := by
        rw [← Nat.add_zero slot, ← List.getElem?_drop, hdrop]
        rfl
      have hrest : Leaf.values context ls <+: values.drop (slot + 1) := by
        rw [← List.drop_drop, hdrop]
        exact List.prefix_append _ t
      exact (ih htail hrest).heldMark_cons hvalue
    | url name => exact (ih htail hvalues).text_cons (urlText_plain hurl name).2
    | tag words => exact ih htail hvalues
    | output expression => exact ih htail hvalues

end release

end Storefront.Asset
