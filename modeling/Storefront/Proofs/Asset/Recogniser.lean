import Storefront.Proofs.Asset.Scan
import Storefront.Proofs.Asset.Template
import Storefront.Proofs.Text.Boundary

/-!
What the recognisers of directives find and where they find nothing. All but the one for held marks
ask for an opening mark of two characters; a part in which no such mark begins is silent for them.
-/

namespace Storefront

namespace Asset

open Text

/-! ### Marks and blanks -/

theorem after?_eq_some_iff {mark s r : List Char} : after? mark s = some r ↔ s = mark ++ r := by
  unfold after?
  split
  · next h =>
    obtain ⟨t, rfl⟩ := List.isPrefixOf_iff_prefix.1 h
    simp
  · next h =>
    simp only [reduceCtorEq, false_iff]
    rintro rfl
    exact h (List.isPrefixOf_iff_prefix.2 (List.prefix_append _ _))

theorem after?_append (mark s : List Char) : after? mark (mark ++ s) = some s :=
  after?_eq_some_iff.2 rfl

theorem after?_cons_of_ne {a c : Char} {mark s : List Char} (h : c ≠ a) :
    after? (a :: mark) (c :: s) = none := by
  rw [Option.eq_none_iff_forall_ne_some]
  intro r hr
  exact h (List.cons.inj (after?_eq_some_iff.1 hr)).1

theorem after?_of_not_mem {a : Char} {mark u : List Char} (hu : a ∉ u) (hne : u ≠ [])
    (t : List Char) : after? (a :: mark) (u ++ t) = none := by
  cases u with
  | nil => exact absurd rfl hne
  | cons c u => exact after?_cons_of_ne fun hc => hu (hc ▸ List.mem_cons_self)

theorem skipDash_cons_of_ne {c : Char} {s : List Char} (h : c ≠ '-') :
    skipDash (c :: s) = c :: s := by
  rw [skipDash]
  exact fun t ht => h (List.cons.inj ht).1

theorem skipDash_append {a : Char} (ha : a ≠ '-') (u t : List Char) :
    skipDash (u ++ a :: t) = skipDash u ++ a :: t := by
  cases u with
  | nil => exact skipDash_cons_of_ne ha
  | cons c u =>
    by_cases hc : c = '-'
    · subst hc; rfl
    · rw [skipDash_cons_of_ne hc]
      exact skipDash_cons_of_ne hc

theorem skipDash_suffix (s : List Char) : skipDash s <:+ s := by
  unfold skipDash
  split
  · exact List.suffix_cons _ _
  · exact List.suffix_refl _

theorem dropBlanks_subset (s : List Char) : dropBlanks s ⊆ s := List.dropWhile_subset _

theorem opened?_blank (mark s : List Char) :
    opened? mark (mark ++ ' ' :: s) = some (dropBlanks s) := by
  rw [opened?, after?_append]
  rfl

theorem opened?_eq_none {mark s : List Char} (h : after? mark s = none) :
    opened? mark s = none := by
  rw [opened?, h]
  rfl

theorem closed?_tagClose (r : List Char) : closed? tagClose (' ' :: (tagClose ++ r)) = some r :=
  after?_append tagClose r

/-- A path and what follows it are all of the text. -/
theorem eq_append_of_path? {s path rest : List Char} (h : path? s = some (path, rest)) :
    s = path ++ rest := by
  cases s with
  | nil => cases h
  | cons c s =>
    rw [path?] at h
    split at h
    · cases h
      rw [List.cons_append, takeDotted_append]
    · cases h

/-- A tag does not end where a word goes on. -/
theorem closed?_tagClose_eq_none_of_isWord {c : Char} {s : List Char} (h : isWord c = true) :
    closed? tagClose (c :: s) = none := by
  have hdash : c ≠ '-' := by rintro rfl; revert h; decide
  have hpercent : c ≠ '%' := by rintro rfl; revert h; decide
  rw [closed?, dropBlanks_cons_of_not (isBlank_eq_false_of_isWord h), skipDash_cons_of_ne hdash]
  exact after?_cons_of_ne hpercent

/-! ### Parts in which no mark begins -/

theorem silent_after?_of_not_mem {a : Char} {mark s : List Char} (h : a ∉ s) :
    Silent (after? (a :: mark)) s := by
  induction s with
  | nil => exact Silent.nil
  | cons c s ih =>
    have hc : c ≠ a := fun hc => h (hc ▸ List.mem_cons_self)
    exact Silent.cons_iff.2
      ⟨fun _ => after?_cons_of_ne hc, ih fun hs => h (List.mem_cons_of_mem _ hs)⟩

/-- A mark of two characters begins nowhere in a text that does not hold it and does not end in its
first character. -/
theorem silent_after?_pair {a b : Char} {s : List Char} (hin : ¬[a, b] <:+: s)
    (hlast : s.getLast? ≠ some a) : Silent (after? [a, b]) s := by
  intro u r hu hne
  rw [Option.eq_none_iff_forall_ne_some]
  intro t ht
  obtain ⟨v, rfl⟩ := hu
  cases u with
  | nil => exact hne rfl
  | cons c u =>
    obtain ⟨rfl, hu⟩ := List.cons.inj (after?_eq_some_iff.1 ht)
    cases u with
    | nil => exact hlast (by simp)
    | cons d u =>
      obtain ⟨rfl, -⟩ := List.cons.inj hu
      exact hin ⟨v, u, by simp⟩

theorem assetUrl?_eq_none {s : List Char} (h : after? outputOpen s = none) :
    assetUrl? s = none := by
  rw [assetUrl?, opened?_eq_none h]
  rfl

theorem settingOutput?_eq_none {s : List Char} (h : after? outputOpen s = none) :
    settingOutput? s = none := by
  rw [settingOutput?, opened?_eq_none h]
  rfl

theorem anyOutput?_eq_none {s : List Char} (h : after? outputOpen s = none) :
    anyOutput? s = none := by
  rw [anyOutput?, h]
  rfl

theorem tag?_eq_none {word s : List Char} (h : after? tagOpen s = none) : tag? word s = none := by
  rw [tag?, opened?_eq_none h]
  rfl

theorem conditional?_eq_none {s : List Char} (h : after? tagOpen s = none) :
    conditional? s = none := by
  rw [conditional?, opened?_eq_none h]
  rfl

theorem anyTag?_eq_none {s : List Char} (h : after? tagOpen s = none) : anyTag? s = none := by
  rw [anyTag?, h]
  rfl

theorem held?_cons_of_ne {c : Char} {s : List Char} (h : c ≠ '\ue000') : held? (c :: s) = none := by
  unfold held?
  split
  · next heq => exact absurd (List.cons.inj heq).1 h
  · rfl

theorem silent_held? {s : List Char} (h : '\ue000' ∉ s) : Silent held? s := by
  induction s with
  | nil => exact Silent.nil
  | cons c s ih =>
    have hc : c ≠ '\ue000' := fun hc => h (hc ▸ List.mem_cons_self)
    exact Silent.cons_iff.2
      ⟨fun _ => held?_cons_of_ne hc, ih fun hs => h (List.mem_cons_of_mem _ hs)⟩

/-! ### Words of tags -/

/-- After a word that is only the beginning of the text's first word, that word goes on. -/
theorem isWord_of_after? {word x s r : List Char} (hw : ∀ c ∈ word, isWord c = true)
    (hx : x.takeWhile isWord ≠ word) (h : after? word (x ++ ' ' :: s) = some r) :
    ∃ c r', r = c :: r' ∧ isWord c = true := by
  have heq : x.takeWhile isWord = word ++ r.takeWhile isWord := by
    rw [← takeWhile_isWord_append_blank x s, after?_eq_some_iff.1 h,
      List.takeWhile_append_of_pos hw]
  cases r with
  | nil => exact absurd (by simpa using heq) hx
  | cons c r =>
    cases hc : isWord c with
    | true => exact ⟨c, r, rfl, hc⟩
    | false => exact absurd (by simpa [hc] using heq) hx

variable {x s : List Char}

/-- A tag that starts with a word. -/
theorem opened?_word (hx : x.takeWhile isWord ≠ []) :
    opened? tagOpen (tagOpen ++ ' ' :: (x ++ ' ' :: s)) = some (x ++ ' ' :: s) := by
  rw [opened?_blank]
  cases x with
  | nil => exact absurd rfl hx
  | cons c x =>
    cases hc : isWord c with
    | true => exact congrArg some (dropBlanks_cons_of_not (isBlank_eq_false_of_isWord hc))
    | false => exact absurd (by simp [hc]) hx

/-- A tag whose first word is another one. -/
theorem tag?_eq_none_of_takeWhile_ne {word : List Char} (hw : ∀ c ∈ word, isWord c = true)
    (hx : x.takeWhile isWord ≠ []) (hne : x.takeWhile isWord ≠ word) :
    tag? word (tagOpen ++ ' ' :: (x ++ ' ' :: s)) = none := by
  rw [tag?, opened?_word hx]
  show (after? word (x ++ ' ' :: s)).bind (closed? tagClose) = none
  rw [Option.bind_eq_none_iff]
  intro r hr
  obtain ⟨c, r, rfl, hc⟩ := isWord_of_after? hw hne hr
  exact closed?_tagClose_eq_none_of_isWord hc

theorem ofKind?_eq_none_of_takeWhile_ne {negated : Bool}
    (hne : x.takeWhile isWord ≠ Conditional.openWord negated) :
    Conditional.ofKind? negated (x ++ ' ' :: s) = none := by
  rw [Conditional.ofKind?]
  cases ha : after? (Conditional.openWord negated) (x ++ ' ' :: s) with
  | none => rfl
  | some r =>
    have hword := isWord_of_mem_reservedWords (openWord_mem_reservedWords negated)
    obtain ⟨c, r, rfl, hc⟩ := isWord_of_after? hword hne ha
    simp [isBlank_eq_false_of_isWord hc]

/-- A tag whose first word opens no conditional. -/
theorem conditional?_eq_none_of_takeWhile_ne (hx : x.takeWhile isWord ≠ [])
    (hne : ∀ negated, x.takeWhile isWord ≠ Conditional.openWord negated) :
    conditional? (tagOpen ++ ' ' :: (x ++ ' ' :: s)) = none := by
  rw [conditional?, opened?_word hx]
  show (Conditional.ofKind? false (x ++ ' ' :: s) <|>
    Conditional.ofKind? true (x ++ ' ' :: s)) = none
  rw [ofKind?_eq_none_of_takeWhile_ne (hne false), ofKind?_eq_none_of_takeWhile_ne (hne true)]
  rfl

end Asset

end Storefront
