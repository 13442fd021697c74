import Mathlib.Data.Option.Basic
import Storefront.Proofs.Asset.Recogniser

/-!
The extent of directives: each reaches from an opening brace to a closing one, and so do the tags
between the condition, the branches and the end of a conditional. Where a directive is found, it
is recognised at the start of what is left of the text.
-/

namespace Storefront.Asset

open Text

/-- A text from an opening brace to a closing one. -/
def Braced (s : List Char) : Prop := ∃ u, s = '\x7b' :: (u ++ ['\x7d'])

/-! ### Parts of directives -/

theorem exists_of_opened? {mark s r : List Char} (h : opened? mark s = some r) :
    ∃ u, s = mark ++ (u ++ r) := by
  obtain ⟨t, ht, rfl⟩ := Option.map_eq_some_iff.1 h
  obtain ⟨u, hu⟩ : dropBlanks (skipDash t) <:+ t :=
    (List.dropWhile_suffix isBlank).trans (skipDash_suffix t)
  exact ⟨u, by rw [after?_eq_some_iff.1 ht, hu]⟩

theorem exists_of_closed? {mark s r : List Char} (h : closed? mark s = some r) :
    ∃ u, s = u ++ (mark ++ r) := by
  obtain ⟨u, hu⟩ : skipDash (dropBlanks s) <:+ s :=
    (skipDash_suffix _).trans (List.dropWhile_suffix isBlank)
  exact ⟨u, by rw [← after?_eq_some_iff.1 h, hu]⟩

theorem exists_of_tag? {word s r : List Char} (h : tag? word s = some r) :
    ∃ d, Braced d ∧ s = d ++ r := by
  obtain ⟨t, ht, h⟩ := Option.bind_eq_some_iff.1 h
  obtain ⟨v, hv, hr⟩ := Option.bind_eq_some_iff.1 h
  obtain ⟨u, rfl⟩ := exists_of_opened? ht
  obtain ⟨w, rfl⟩ := exists_of_closed? hr
  rw [after?_eq_some_iff.1 hv]
  exact ⟨tagOpen ++ (u ++ (word ++ (w ++ tagClose))),
    ⟨'%' :: (u ++ (word ++ (w ++ ['%']))), by simp [tagOpen, tagClose]⟩, by simp⟩

theorem exists_of_cutBy? {ends : List Char → Option (List Char)} {s before rest : List Char}
    (h : cutBy? ends s = some (before, rest)) : ∃ t, s = before ++ t ∧ ends t = some rest := by
  induction s generalizing before with
  | nil =>
    obtain ⟨r, hr, heq⟩ := Option.map_eq_some_iff.1 h
    cases heq
    exact ⟨[], rfl, hr⟩
  | cons c s ih =>
    rw [cutBy?] at h
    split at h
    · next r hr =>
      cases h
      exact ⟨c :: s, rfl, hr⟩
    · obtain ⟨⟨b, r⟩, hb, heq⟩ := Option.map_eq_some_iff.1 h
      cases heq
      obtain ⟨t, rfl, ht⟩ := ih hb
      exact ⟨t, rfl, ht⟩

/-! ### Directives -/

theorem exists_of_anyTag? {s r : List Char} {a : Unit} (h : anyTag? s = some (a, r)) :
    ∃ d, Braced d ∧ s = d ++ r := by
  obtain ⟨t, ht, h⟩ := Option.bind_eq_some_iff.1 h
  obtain ⟨⟨before, rest⟩, hcut, heq⟩ := Option.bind_eq_some_iff.1 h
  cases heq
  rw [after?_eq_some_iff.1 ht, eq_append_of_cutAt? hcut]
  exact ⟨tagOpen ++ (before ++ tagClose),
    ⟨'%' :: (before ++ ['%']), by simp [tagOpen, tagClose]⟩, by simp⟩

theorem exists_of_anyOutput? {s r : List Char} {a : Unit} (h : anyOutput? s = some (a, r)) :
    ∃ d, Braced d ∧ s = d ++ r := by
  obtain ⟨t, ht, h⟩ := Option.bind_eq_some_iff.1 h
  obtain ⟨⟨before, rest⟩, hcut, heq⟩ := Option.bind_eq_some_iff.1 h
  cases heq
  rw [after?_eq_some_iff.1 ht, eq_append_of_cutAt? hcut]
  exact ⟨outputOpen ++ (before ++ outputClose),
    ⟨'\x7b' :: (before ++ ['\x7d']), by simp [outputOpen, outputClose]⟩, by simp⟩

/-- An output of a setting names its path. -/
theorem infix_of_settingOutput? {s path r : List Char} (h : settingOutput? s = some (path, r)) :
    "settings.".toList ++ path <:+: s := by
  obtain ⟨t, ht, h⟩ := Option.bind_eq_some_iff.1 h
  obtain ⟨v, hv, h⟩ := Option.bind_eq_some_iff.1 h
  obtain ⟨⟨p, w⟩, hp, h⟩ := Option.bind_eq_some_iff.1 h
  obtain ⟨x, hx, heq⟩ := Option.bind_eq_some_iff.1 h
  cases heq
  obtain ⟨u, rfl⟩ := exists_of_opened? ht
  rw [after?_eq_some_iff.1 hv, eq_append_of_path? hp]
  exact ⟨outputOpen ++ u, w, by simp⟩

namespace Conditional

variable {negated : Bool} {s r : List Char} {c : Conditional}

/-- A conditional in parts: from its condition on to the end of its tag, its body, and its end
tag. -/
def Extends (c : Conditional) (s r : List Char) : Prop :=
  ∃ before u tail, Braced tail ∧
    s = before ++ (c.condition ++ (u ++ (tagClose ++ (c.body ++ (tail ++ r)))))

theorem Extends.prepend (h : c.Extends s r) (u : List Char) : c.Extends (u ++ s) r := by
  obtain ⟨before, v, tail, htail, rfl⟩ := h
  exact ⟨u ++ before, v, tail, htail, by simp⟩

theorem extends_of_ofCondition? (h : ofCondition? negated s = some (c, r)) : c.Extends s r := by
  cases s with
  | nil => cases h
  | cons a s =>
    obtain ⟨⟨condition, s₁⟩, hcondition, h⟩ := Option.bind_eq_some_iff.1 h
    obtain ⟨⟨body, s₂⟩, hbody, heq⟩ := Option.bind_eq_some_iff.1 h
    cases heq
    obtain ⟨t, rfl, ht⟩ := exists_of_cutBy? hcondition
    obtain ⟨u, rfl⟩ := exists_of_closed? ht
    obtain ⟨v, rfl, hv⟩ := exists_of_cutBy? hbody
    obtain ⟨tail, htail, rfl⟩ := exists_of_tag? hv
    exact ⟨[], u, tail, htail, rfl⟩

theorem extends_of_ofBlanks? {blanks : List Char} (h : ofBlanks? negated blanks s = some (c, r)) :
    c.Extends (blanks ++ s) r := by
  obtain ⟨s₁, hclosed, h⟩ := Option.bind_eq_some_iff.1 h
  obtain ⟨⟨body, s₂⟩, hbody, h⟩ := Option.bind_eq_some_iff.1 h
  dsimp only at h
  by_cases hlength : 2 ≤ blanks.length
  · rw [if_pos hlength] at h
    cases h
    obtain ⟨u, rfl⟩ := exists_of_closed? hclosed
    obtain ⟨v, rfl, hv⟩ := exists_of_cutBy? hbody
    obtain ⟨tail, htail, rfl⟩ := exists_of_tag? hv
    refine ⟨blanks.take (blanks.length - 1), u, tail, htail, ?_⟩
    rw [← List.append_assoc (blanks.take _), List.take_append_drop]
  · rw [if_neg hlength] at h
    cases h

theorem extends_of_ofKind? (h : ofKind? negated s = some (c, r)) : c.Extends s r := by
  obtain ⟨t, ht, h⟩ := Option.bind_eq_some_iff.1 h
  have hblanks : t.takeWhile isBlank ++ t.dropWhile isBlank = t := List.takeWhile_append_dropWhile
  rw [after?_eq_some_iff.1 ht]
  apply Extends.prepend
  dsimp only at h
  split at h
  · cases h
  · rw [← hblanks]
    rcases (Option.orElse_eq_some _ _ _).1 h with h | ⟨-, h⟩
    · exact (extends_of_ofCondition? h).prepend _
    · exact extends_of_ofBlanks? h

/-- The branches stand in the body with a tag between them, or the first is all of it. -/
theorem branches_cases (c : Conditional) : c.branches = (c.body, []) ∨
    ∃ d, Braced d ∧ c.body = c.branches.1 ++ (d ++ c.branches.2) := by
  rw [branches]
  cases hcut : cutBy? (tag? elseWord) c.body with
  | none => exact .inl rfl
  | some parts =>
    obtain ⟨before, rest⟩ := parts
    obtain ⟨t, ht, htag⟩ := exists_of_cutBy? hcut
    obtain ⟨d, hd, rfl⟩ := exists_of_tag? htag
    exact .inr ⟨d, hd, ht⟩

end Conditional

theorem extends_of_conditional? {s r : List Char} {c : Conditional}
    (h : conditional? s = some (c, r)) : ∃ t, s = '\x7b' :: t ∧ c.Extends t r := by
  obtain ⟨t, ht, hkind⟩ := Option.bind_eq_some_iff.1 h
  have hextends : c.Extends t r := by
    rcases (Option.orElse_eq_some _ _ _).1 hkind with hkind | ⟨-, hkind⟩
    · exact Conditional.extends_of_ofKind? hkind
    · exact Conditional.extends_of_ofKind? hkind
  obtain ⟨u, rfl⟩ := exists_of_opened? ht
  exact ⟨'%' :: (u ++ t), rfl, hextends.prepend ('%' :: u)⟩

/-! ### Pieces and where they come from -/

namespace Piece

variable {α : Type} {recognise : List Char → Option (α × List Char)}

/-- The text that a piece stands for. -/
def source : Piece α → List Char
  | .char c => [c]
  | .directive _ s => s

/-- The pieces of a text are all of it. -/
theorem flatMap_source_scan (skip : Nat) (s : List Char) :
    (scan recognise skip s).flatMap source = s.drop skip := by
  induction s generalizing skip with
  | nil => cases skip <;> rfl
  | cons c s ih =>
    cases skip with
    | succ skip => exact ih skip
    | zero =>
      rw [scan]
      split
      · rw [List.flatMap_cons, ih, source, List.cons_append, List.take_append_drop]
        rfl
      · rw [List.flatMap_cons, ih]
        rfl

theorem flatMap_source_all (s : List Char) : (all recognise s).flatMap source = s :=
  flatMap_source_scan 0 s

theorem exists_of_mem_directives_scan {a : α} {skip : Nat} {s : List Char}
    (h : a ∈ directives (scan recognise skip s)) :
    ∃ t r, t <:+ s ∧ recognise t = some (a, r) := by
  induction s generalizing skip with
  | nil => cases skip <;> cases h
  | cons c s ih =>
    have hrest : ∀ skip, a ∈ directives (scan recognise skip s) →
        ∃ t r, t <:+ c :: s ∧ recognise t = some (a, r) := by
      intro skip h
      obtain ⟨t, r, ht, hr⟩ := ih h
      exact ⟨t, r, ht.trans (List.suffix_cons c s), hr⟩
    cases skip with
    | succ skip => exact hrest skip h
    | zero =>
      rw [scan] at h
      split at h
      · next b r hb =>
        rcases List.mem_cons.1 h with rfl | h
        · exact ⟨c :: s, r, List.suffix_refl _, hb⟩
        · exact hrest _ h
      · exact hrest 0 h

/-- A directive among the pieces is recognised where it stands. -/
theorem exists_of_mem_directives {a : α} {s : List Char}
    (h : a ∈ directives (all recognise s)) :
    ∃ t r, t <:+ s ∧ recognise t = some (a, r) :=
  exists_of_mem_directives_scan h

theorem mem_of_char_mem_all {c : Char} {s : List Char} (h : .char c ∈ all recognise s) :
    c ∈ s := by
  rw [← flatMap_source_all s]
  exact List.mem_flatMap.2 ⟨.char c, h, List.mem_cons_self⟩

end Piece

end Storefront.Asset
