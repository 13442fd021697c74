import Mathlib.Data.Option.Basic
import Storefront.Condition.Evaluation
import Storefront.Proofs.Condition.Grammar
import Storefront.Proofs.Condition.Lexing

/-!
What a condition reads of the settings: the values at the paths of its words, each of which stands
in the expression as it is.
-/

namespace Storefront

namespace Condition

open Text

/-- The path of a setting is all that follows `settings.` in its name. -/
theorem eq_append_of_settingPath? {s : String} {path : List Char}
    (h : settingPath? s = some path) : s.toList = "settings.".toList ++ path := by
  rw [settingPath?] at h
  split at h
  · next name part parts hsplit =>
    have hs : s.toList = name ++ '.' :: ['.'].intercalate (part :: parts) := by
      rw [← intercalate_splitOn '.' s.toList, hsplit]
      rfl
    dsimp only at h
    split at h
    · next hname =>
      cases h
      rw [Bool.and_eq_true, decide_eq_true_eq] at hname
      obtain ⟨rfl, -⟩ := hname
      rw [hs]
      simp
    · cases h
  · cases h

theorem exists_of_mem_tokenize {expression : String} {tokens : List Token}
    (h : tokenize expression = .ok tokens) {t : Token} (ht : t ∈ tokens) :
    t.text.toList <:+: expression.toList ∧
      (t.kind = .operator ∨ t.kind = .word → '\ue000' ∉ t.text.toList) := by
  obtain ⟨u, r, hu, hfirst⟩ := (tokenize_eq_ok_iff.1 h).exists_of_mem ht
  obtain ⟨rfl, hmark⟩ := Token.append_of_first? hfirst
  have hpart : t.text.toList <:+: trimRight expression.toList :=
    (List.prefix_append _ r).isInfix.trans hu.isInfix
  exact ⟨hpart.trans (List.IsPrefix.isInfix <| trimRight_prefix _), hmark⟩

/-! ### Operands of a condition -/

/-- The operands of a comparison. -/
def Comparison.operands (c : Comparison) : List Token :=
  c.left :: (c.right.map Prod.snd).toList

end Condition

/-- The operands of all comparisons of a condition. -/
def Condition.operands (c : Condition) : List Condition.Token :=
  c.first.operands ++ c.rest.flatMap (·.2.operands)

namespace Condition

theorem Comparison.operands_subset (c : Comparison) : c.operands ⊆ c.tokens := by
  obtain ⟨left, right⟩ := c
  cases right with
  | none => exact List.Subset.refl _
  | some p => exact List.cons_subset_cons left (List.subset_cons_self p.1.token _)

/-- The operands are tokens of the condition. -/
theorem operands_subset (c : Condition) : c.operands ⊆ c.tokens := by
  intro t ht
  rcases List.mem_append.1 ht with ht | ht
  · exact List.mem_append_left _ (c.first.operands_subset ht)
  · obtain ⟨next, hnext, ht⟩ := List.mem_flatMap.1 ht
    refine List.mem_append_right _ (List.mem_flatMap.2 ⟨next, hnext, ?_⟩)
    exact List.mem_cons_of_mem _ (next.2.operands_subset ht)

/-! ### Values of the operands -/

section values

variable {s₁ s₂ : Dict Value}

theorem Token.operand_congr {t : Token}
    (h : t.kind = .operator ∨ t.kind = .word → ∀ path, t.text.toList = "settings.".toList ++ path →
      lookupPath s₁ path = lookupPath s₂ path) : t.operand s₁ = t.operand s₂ := by
  have hword (hkind : t.kind = .operator ∨ t.kind = .word) :
      wordOperand s₁ t.text = wordOperand s₂ t.text := by
    unfold wordOperand
    split
    case h_7 =>
      split
      · next path hpath => rw [h hkind path (eq_append_of_settingPath? hpath)]
      · rfl
    all_goals rfl
  rw [Token.operand, Token.operand]
  cases hkind : t.kind with
  | string => rfl
  | number => rfl
  | operator => exact hword (.inl hkind)
  | word => exact hword (.inr hkind)

theorem Comparison.holds_congr {c : Comparison}
    (h : ∀ t ∈ c.operands, t.operand s₁ = t.operand s₂) : c.holds s₁ = c.holds s₂ := by
  obtain ⟨left, right⟩ := c
  have hleft : left.operand s₁ = left.operand s₂ := h left List.mem_cons_self
  cases right with
  | none => exact congrArg Operand.isTruthy hleft
  | some right =>
    obtain ⟨operator, right⟩ := right
    have hright : right.operand s₁ = right.operand s₂ :=
      h right (List.mem_cons_of_mem left List.mem_cons_self)
    exact congrArg₂ operator.holds hleft hright

theorem chainHolds_congr {first : Comparison} {rest : List (Combinator × Comparison)}
    (hfirst : ∀ t ∈ first.operands, t.operand s₁ = t.operand s₂)
    (hrest : ∀ t ∈ rest.flatMap (·.2.operands), t.operand s₁ = t.operand s₂) :
    chainHolds s₁ first rest = chainHolds s₂ first rest := by
  induction rest generalizing first with
  | nil => exact Comparison.holds_congr hfirst
  | cons next rest ih =>
    obtain ⟨combinator, next⟩ := next
    obtain ⟨hnext, hrest⟩ := List.forall_mem_append.1 hrest
    rw [chainHolds, chainHolds, Comparison.holds_congr hfirst, ih hnext hrest]

/-- A condition reads only settings that the expression names. -/
theorem evaluate_congr {expression : String}
    (h : ∀ path, '\ue000' ∉ path → "settings.".toList ++ path <:+: expression.toList →
      lookupPath s₁ path = lookupPath s₂ path) :
    evaluate s₁ expression = evaluate s₂ expression := by
  rw [evaluate, evaluate]
  cases hparse : parse expression with
  | error e => rfl
  | ok c =>
    obtain ⟨htokens, -⟩ := parse_eq_ok_iff.1 hparse
    have hoperands : ∀ t ∈ c.operands, t.operand s₁ = t.operand s₂ := by
      intro t ht
      obtain ⟨hpart, hmark⟩ := exists_of_mem_tokenize htokens (c.operands_subset ht)
      refine Token.operand_congr fun hkind path hpath => h path ?_ (hpath ▸ hpart)
      intro hmem
      exact hmark hkind (hpath ▸ List.mem_append_right _ hmem)
    obtain ⟨hfirst, hrest⟩ := List.forall_mem_append.1 hoperands
    exact congrArg Except.ok (chainHolds_congr hfirst hrest)

end values

end Condition

end Storefront
