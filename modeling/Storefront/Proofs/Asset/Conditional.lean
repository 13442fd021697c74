import Storefront.Proofs.Asset.Leaf

/-!
Conditionals in their written form: the condition ends at the end of the opening tag, the body at
the first end tag of the conditional's kind, and its first branch at the first `else`.
-/

namespace Storefront

namespace Text

theorem isBlank_head_dropBlanks {c : Char} {s t : List Char} (h : dropBlanks s = c :: t) :
    isBlank c = false := by
  have hnot := List.head?_dropWhile_not isBlank s
  rw [show s.dropWhile isBlank = c :: t from h] at hnot
  simpa using hnot

theorem isBlank_head_trim {c : Char} {s t : List Char} (h : trim s = c :: t) :
    isBlank c = false := by
  obtain ⟨u, hu⟩ := trimRight_prefix (dropBlanks s)
  rw [show trimRight (dropBlanks s) = c :: t from h] at hu
  exact isBlank_head_dropBlanks hu.symm

theorem isBlank_last_trim {c : Char} {s t : List Char} (h : trim s = t ++ [c]) :
    isBlank c = false := by
  have hrev : dropBlanks (dropBlanks s).reverse = c :: t.reverse := by
    have := congrArg List.reverse h
    simpa [trim, trimRight, dropBlanks] using this
  exact isBlank_head_dropBlanks hrev

end Text

namespace Asset

open Text

namespace IsCondition

variable {condition : List Char}

/-- No tag ends inside a condition with a blank after it. -/
theorem closed?_eq_none (h : IsCondition condition) {u : List Char} (hu : u <:+ condition)
    (hne : u ≠ []) (t : List Char) : closed? tagClose (u ++ ' ' :: t) = none := by
  obtain ⟨v, l, rfl⟩ : ∃ v l, u = v ++ [l] :=
    ⟨u.dropLast, u.getLast hne, (List.dropLast_concat_getLast hne).symm⟩
  have hpercent : '%' ∉ v ++ [l] := fun hm => h.noMark '%' (hu.subset hm) (by simp)
  have hl : isBlank l = false := by
    obtain ⟨w, hw⟩ := hu
    exact isBlank_last_trim (h.trimmed.trans (by rw [← hw, List.append_assoc]))
  have hlast : ∀ w, '%' ∉ w → after? tagClose (w ++ l :: ' ' :: t) = none := fun w hw => by
    rw [List.append_cons]
    refine after?_of_not_mem ?_ (by simp) _
    simp_all
  rw [closed?, List.append_assoc, List.singleton_append, dropBlanks_append hl]
  cases hv : dropBlanks v with
  | nil =>
    by_cases hdash : l = '-'
    · subst hdash
      exact after?_cons_of_ne (by decide)
    · rw [List.nil_append, skipDash_cons_of_ne hdash]
      exact hlast [] (by simp)
  | cons d w =>
    have hdw : '%' ∉ d :: w := fun hm =>
      hpercent (List.mem_append_left _ (dropBlanks_subset v (hv ▸ hm)))
    by_cases hdash : d = '-'
    · subst hdash
      exact hlast w fun hm => hdw (List.mem_cons_of_mem _ hm)
    · rw [List.cons_append, skipDash_cons_of_ne hdash]
      exact hlast (d :: w) hdw

theorem exists_cons (h : IsCondition condition) :
    ∃ c s, condition = c :: s ∧ isBlank c = false := by
  cases hs : condition with
  | nil => exact absurd hs h.nonempty
  | cons c s => exact ⟨c, s, rfl, isBlank_head_trim (h.trimmed.trans hs)⟩

/-- A conditional's condition is all that stands between its word and the end of its tag. -/
theorem ofKind?_source (h : IsCondition condition) (negated : Bool) {body s r : List Char}
    (hbody : cutBy? (tag? (Conditional.endWord negated)) s = some (body, r)) :
    Conditional.ofKind? negated
        (Conditional.openWord negated ++ ' ' :: (condition ++ ' ' :: (tagClose ++ s))) =
      some ({ negated, condition, body }, r) := by
  obtain ⟨c, cs, rfl, hc⟩ := h.exists_cons
  have hcut : cutBy? (closed? tagClose) (cs ++ ' ' :: (tagClose ++ s)) = some (cs, s) :=
    cutBy?_append (fun u hu hne => h.closed?_eq_none (hu.trans (List.suffix_cons c cs)) hne _)
      (closed?_tagClose s)
  have hblank : isBlank ' ' = true := by decide
  rw [Conditional.ofKind?, after?_append]
  simp [hblank, hc, Conditional.ofCondition?, hcut, hbody]

end IsCondition

/-! ### The parts of a body -/

/-- A part once URLs are resolved: nothing begins in it but the directive that it is. -/
def Leaf.Sound : Leaf → Prop
  | .text s => Silent (after? outputOpen) s ∧ Silent (after? tagOpen) s
  | .setting path => IsPath path
  | .url _ => False
  | .tag words => ∀ c ∈ words, c ∉ ['\x7b', '\x7d', '%']
  | .output expression => FreeOutput expression

/-- A sound part that does not belong to a conditional. -/
structure Leaf.Free (l : Leaf) : Prop where
  sound : l.Sound
  freeTag : ∀ words, l = .tag words → FreeTag words

theorem Leaf.Free.silent_tag? {l : Leaf} (h : l.Free) {word : List Char}
    (hw : word ∈ reservedWords) : Silent (Asset.tag? word) l.source := by
  have hsound := h.sound
  cases l with
  | text s => exact hsound.2.of_le fun _ => tag?_eq_none
  | setting path =>
    have hb := not_mem_settingExpression hsound (.inl rfl)
    exact (silent_tagOpen_outputSource hb).of_le fun _ => tag?_eq_none
  | url name => exact hsound.elim
  | tag words =>
    have hfree := h.freeTag words rfl
    exact silent_tag?_tagSource (isWord_of_mem_reservedWords hw) hfree.startsWithWord
      (fun heq => hfree.notReserved (heq ▸ hw)) fun hm => hsound _ hm (by simp)
  | output expression =>
    have hb : '\x7b' ∉ expression := fun hm => hsound.noBrace _ hm (by simp)
    exact (silent_tagOpen_outputSource hb).of_le fun _ => tag?_eq_none

section body

variable {body : List Leaf} {otherwise : Option (List Leaf)}

theorem Leaf.silent_tag?_sources {ls : List Leaf} (h : ∀ l ∈ ls, l.Free) {word : List Char}
    (hw : word ∈ reservedWords) : Silent (Asset.tag? word) (Leaf.sources ls) :=
  Silent.flatMap fun l hl => (h l hl).silent_tag? hw

/-- No conditional ends before its own end tag. -/
theorem Leaf.silent_endTag_between (hb : ∀ l ∈ body, l.Free)
    (ho : ∀ branch ∈ otherwise, ∀ l ∈ branch, l.Free) (negated : Bool) :
    Silent (Asset.tag? (Conditional.endWord negated))
      (Leaf.sources (Leaf.between body otherwise)) := by
  have hend := endWord_mem_reservedWords negated
  rw [Leaf.between, Leaf.sources, List.flatMap_append]
  refine (silent_tag?_sources hb hend).append ?_
  cases otherwise with
  | none => exact Silent.nil
  | some branch =>
    refine (silent_tag?_tagSource (isWord_of_mem_reservedWords hend) ?_ ?_ ?_).append
      (silent_tag?_sources (ho branch rfl) hend)
    · decide
    · cases negated <;> decide
    · decide

end body

/-- A conditional is recognised with its condition and all that stands between its tags. -/
theorem conditional?_source {condition : List Char} {body : List Leaf}
    {otherwise : Option (List Leaf)} (hc : IsCondition condition) (hb : ∀ l ∈ body, l.Free)
    (ho : ∀ branch ∈ otherwise, ∀ l ∈ branch, l.Free) (negated : Bool) (r : List Char) :
    conditional? (Leaf.sources (Node.conditional negated condition body otherwise).leaves ++ r) =
      some ({ negated, condition, body := Leaf.sources (Leaf.between body otherwise) }, r) := by
  have hendWord := isWord_of_mem_reservedWords (endWord_mem_reservedWords negated)
  have hbody : cutBy? (tag? (Conditional.endWord negated))
      (Leaf.sources (Leaf.between body otherwise) ++
        (tagSource (Conditional.endWord negated) ++ r)) =
          some (Leaf.sources (Leaf.between body otherwise), r) :=
    (Leaf.silent_endTag_between hb ho negated).cutBy?_append
      (tag?_tagSource (by cases negated <;> decide) hendWord r)
  have hkind := hc.ofKind?_source negated hbody
  have hopen (s : List Char) : dropBlanks (Conditional.openWord negated ++ s) =
      Conditional.openWord negated ++ s := by
    cases negated <;> rfl
  have hsource : Leaf.sources (Node.conditional negated condition body otherwise).leaves ++ r =
      tagOpen ++ ' ' :: (Conditional.openWord negated ++ ' ' :: (condition ++ ' ' :: (tagClose ++
        (Leaf.sources (Leaf.between body otherwise) ++
          (tagSource (Conditional.endWord negated) ++ r))))) := by
    simp [Leaf.sources, Node.leaves, Leaf.source, tagSource]
  rw [conditional?, hsource, opened?_blank, hopen]
  show (Conditional.ofKind? false _ <|> Conditional.ofKind? true _) = _
  cases negated with
  | false => rw [hkind]; rfl
  | true => rw [hkind]; rfl

/-- The branches of a conditional are those between its tags. -/
theorem branches_source {body : List Leaf} {otherwise : Option (List Leaf)}
    (hb : ∀ l ∈ body, l.Free) (negated : Bool) (condition : List Char) :
    Conditional.branches
        { negated, condition, body := Leaf.sources (Leaf.between body otherwise) } =
      (Leaf.sources body, Leaf.sources (otherwise.getD [])) := by
  have hsilent := Leaf.silent_tag?_sources hb elseWord_mem_reservedWords
  cases otherwise with
  | none =>
    rw [Conditional.branches, Leaf.between, Option.elim_none, List.append_nil,
      hsilent.cutBy?_eq_none rfl]
    rfl
  | some branch =>
    have helse : tag? elseWord (tagSource elseWord ++ Leaf.sources branch) =
        some (Leaf.sources branch) :=
      tag?_tagSource (by decide) (isWord_of_mem_reservedWords elseWord_mem_reservedWords) _
    rw [Conditional.branches, Leaf.between, Option.elim_some, Leaf.sources, List.flatMap_append]
    show (cutBy? (tag? elseWord)
      (Leaf.sources body ++ (tagSource elseWord ++ Leaf.sources branch))).getD _ = _
    rw [hsilent.cutBy?_append helse]
    rfl

end Asset

end Storefront
