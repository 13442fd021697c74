import Storefront.Proofs.Condition.Joining
import Storefront.Proofs.Condition.Lexeme
import Storefront.Proofs.Value.Symmetry

/-!
Comparisons with their operands in the other order. Equality does not depend on the order, and `<`
and `<=` turn into `>` and `>=` (`evaluate_dual`). The settings are data with distinct keys, and so
is all that an operand stands for.
-/

namespace Storefront

/-- What lies below a value at any keys. -/
theorem Value.Distinct.descend {v : Value} (h : v.Distinct) (keys : List String) :
    (v.descend keys).Distinct := by
  induction keys generalizing v with
  | nil => exact h
  | cons key keys ih =>
    unfold Value.descend
    split
    · next fields =>
      have hfield := h.field key
      split
      · exact .null
      · exact ih hfield
    · exact .null

namespace Condition

/-! ### Operands -/

/-- An operand that stands for a value has distinct keys in all maps of it. -/
inductive Operand.Distinct : Operand → Prop
  | value {v : Value} (h : v.Distinct) : Distinct (.value v)
  | blank : Distinct .blank
  | empty : Distinct .empty

theorem distinct_wordOperand {settings : Dict Value} (h : (Value.map settings).Distinct)
    (s : String) : (wordOperand settings s).Distinct := by
  unfold wordOperand
  split
  case h_7 =>
    split
    · exact .value (h.descend _)
    · exact .value .null
  case h_5 => exact .blank
  case h_6 => exact .empty
  case h_1 | h_2 => exact .value (.bool _)
  case h_3 | h_4 => exact .value .null

theorem Token.distinct_operand {settings : Dict Value} (h : (Value.map settings).Distinct)
    (t : Token) : (t.operand settings).Distinct := by
  rw [Token.operand]
  cases t.kind with
  | string => exact .value (.str _)
  | number => exact .value (.number _)
  | operator | word => exact distinct_wordOperand h t.text

namespace Operand

variable {l r : Operand}

/-- The tests `blank` and `empty` ask the same of the other operand on either side. -/
theorem equals_comm (hl : l.Distinct) (hr : r.Distinct) : l.equals r = r.equals l := by
  cases hl with
  | value hv =>
    cases hr with
    | value hw => exact Value.equals_comm hv hw
    | blank | empty => rfl
  | blank | empty => cases hr <;> rfl

theorem order?_swap (hl : l.Distinct) (hr : r.Distinct) :
    r.order? l = (l.order? r).map Ordering.swap := by
  cases hl with
  | value hv =>
    cases hr with
    | value hw => exact Value.order?_swap hv hw
    | blank | empty => rfl
  | blank | empty => cases hr <;> rfl

end Operand

namespace Operator

variable {l r : Operand}

theorem holds_greater (hl : l.Distinct) (hr : r.Distinct) :
    Operator.greater.holds r l = Operator.less.holds l r := by
  simp only [holds, Operand.order?_swap hl hr]
  cases l.order? r with
  | none => rfl
  | some o => cases o <;> rfl

theorem holds_greaterOrEqual (hl : l.Distinct) (hr : r.Distinct) :
    Operator.greaterOrEqual.holds r l = Operator.lessOrEqual.holds l r := by
  simp only [holds, Operand.order?_swap hl hr]
  cases l.order? r with
  | none => rfl
  | some o => cases o <;> rfl

/-- An operator is read from its own text. -/
theorem hasForm_token (o : Operator) : o.token.HasForm := by
  have hfirst : Token.first? o.text.toList = some (o.token, []) := by
    cases o <;> rfl
  exact Token.hasForm_of_first? hfirst

end Operator

/-! ### Comparisons as texts -/

section text

variable {settings : Dict Value} {l r : Token}

/-- The text of a comparison of two operands. -/
def comparisonText (l : Token) (o : Operator) (r : Token) : String :=
  l.text ++ " " ++ o.text ++ " " ++ r.text

theorem spaced_comparison (l : Token) (o : Operator) (r : Token) :
    Token.spaced [l, o.token, r] = comparisonText l o r := by
  simp [Token.spaced, comparisonText, String.intercalate_cons_cons, String.append_assoc,
    Operator.token]

/-- A comparison of two operands holds as its operator does. -/
theorem evaluate_comparisonText (settings : Dict Value) (hl : l.HasForm) (hlvalue : l.IsOperand)
    (hr : r.HasForm) (hrvalue : r.IsOperand) (o : Operator) :
    evaluate settings (comparisonText l o r) =
      .ok (o.holds (l.operand settings) (r.operand settings)) := by
  have hforms : ∀ t ∈ [l, o.token, r], t.HasForm :=
    List.forall_mem_cons.2 ⟨hl, List.forall_mem_cons.2 ⟨o.hasForm_token,
      List.forall_mem_singleton.2 hr⟩⟩
  have htokens := tokenize_spaced hforms
  rw [spaced_comparison] at htokens
  have hfits : Comparison.Fits Token.IsValue ⟨l, some (o, r)⟩ := by
    refine ⟨hlvalue, fun p hp => ?_⟩
    cases hp
    exact hrvalue.isValue
  have hparse : parse (comparisonText l o r) = .ok ⟨⟨l, some (o, r)⟩, []⟩ :=
    parse_eq_ok_iff.2 ⟨htokens, fits_single.2 hfits⟩
  exact evaluate_of_parse hparse

/-- For any settings and any two operands `==` gives the same with the operands in the other order,
`!=` and `<>` give the opposite of it, `<` gives what `>` gives in the other order, and so do `<=`
and `>=`. -/
theorem evaluate_dual (hsettings : (Value.map settings).Distinct) (hl : l.HasForm)
    (hlvalue : l.IsOperand) (hr : r.HasForm) (hrvalue : r.IsOperand) :
    ∃ equal less atMost : Bool,
      evaluate settings (l.text ++ " == " ++ r.text) = .ok equal ∧
      evaluate settings (r.text ++ " == " ++ l.text) = .ok equal ∧
      evaluate settings (l.text ++ " != " ++ r.text) = .ok !equal ∧
      evaluate settings (l.text ++ " <> " ++ r.text) = .ok !equal ∧
      evaluate settings (l.text ++ " < " ++ r.text) = .ok less ∧
      evaluate settings (r.text ++ " > " ++ l.text) = .ok less ∧
      evaluate settings (l.text ++ " <= " ++ r.text) = .ok atMost ∧
      evaluate settings (r.text ++ " >= " ++ l.text) = .ok atMost := by
  have hldistinct := Token.distinct_operand hsettings l
  have hrdistinct := Token.distinct_operand hsettings r
  have hforward := evaluate_comparisonText settings hl hlvalue hr hrvalue
  have hbackward := evaluate_comparisonText settings hr hrvalue hl hlvalue
  have htext (l r : Token) {o : Operator} {middle : String}
      (hmiddle : " " ++ o.text ++ " " = middle) :
      l.text ++ middle ++ r.text = comparisonText l o r := by
    rw [← hmiddle]
    simp [comparisonText, String.append_assoc]
  have hequal : " " ++ Operator.equal.text ++ " " = " == " := rfl
  have hnotEqual : " " ++ Operator.notEqual.text ++ " " = " != " := rfl
  have hunequal : " " ++ Operator.unequal.text ++ " " = " <> " := rfl
  have hless : " " ++ Operator.less.text ++ " " = " < " := rfl
  have hgreater : " " ++ Operator.greater.text ++ " " = " > " := rfl
  have hlessOrEqual : " " ++ Operator.lessOrEqual.text ++ " " = " <= " := rfl
  have hgreaterOrEqual : " " ++ Operator.greaterOrEqual.text ++ " " = " >= " := rfl
  rw [htext l r hequal, htext r l hequal, htext l r hnotEqual, htext l r hunequal,
    htext l r hless, htext r l hgreater, htext l r hlessOrEqual, htext r l hgreaterOrEqual]
  refine ⟨_, _, _, hforward .equal, ?_, hforward .notEqual, hforward .unequal, hforward .less,
    ?_, hforward .lessOrEqual, ?_⟩
  · rw [hbackward .equal]
    exact congrArg Except.ok (Operand.equals_comm hrdistinct hldistinct)
  · rw [hbackward .greater, Operator.holds_greater hldistinct hrdistinct]
  · rw [hbackward .greaterOrEqual, Operator.holds_greaterOrEqual hldistinct hrdistinct]

/-- A member that is `true` is 1, so the members behind it decide. -/
theorem evaluate_dual_lists :
    ∃ sizes limits : Value,
      sizes = .list [.bool true, .int 2] ∧ limits = .list [.int 1, .int 3] ∧
      evaluate [("sizes", sizes), ("limits", limits)] "settings.sizes <> settings.limits" =
        .ok true ∧
      evaluate [("sizes", sizes), ("limits", limits)] "settings.limits > settings.sizes" =
        .ok true := by
  obtain ⟨sizes, hsizes⟩ : ∃ v : Value, v = .list [.bool true, .int 2] := ⟨_, rfl⟩
  obtain ⟨limits, hlimits⟩ : ∃ v : Value, v = .list [.int 1, .int 3] := ⟨_, rfl⟩
  refine ⟨sizes, limits, hsizes, hlimits, ?_⟩
  have hpair {v w : Value} (hv : v.Distinct) (hw : w.Distinct) : (Value.list [v, w]).Distinct :=
    .list (List.forall_mem_cons.2 ⟨hv, List.forall_mem_singleton.2 hw⟩)
  have hsettings : (Value.map [("sizes", sizes), ("limits", limits)]).Distinct := by
    rw [hsizes, hlimits]
    exact .map (by decide) (List.forall_mem_cons.2 ⟨hpair (.bool _) (.number _),
      List.forall_mem_singleton.2 (hpair (.number _) (.number _))⟩)
  have hlfirst : Token.first? "settings.sizes".toList = some (⟨.word, "settings.sizes"⟩, []) := by
    rfl
  have hrfirst : Token.first? "settings.limits".toList =
      some (⟨.word, "settings.limits"⟩, []) := by
    rfl
  have hl := Token.hasForm_of_first? hlfirst
  have hr := Token.hasForm_of_first? hrfirst
  have hlvalue : Token.IsOperand ⟨.word, "settings.sizes"⟩ := .word (by decide) (by decide)
  have hrvalue : Token.IsOperand ⟨.word, "settings.limits"⟩ := .word (by decide) (by decide)
  obtain ⟨equal, less, -, hequal, -, -, hunequal, hless, hgreater, -, -⟩ :=
    evaluate_dual hsettings hl hlvalue hr hrvalue
  have hoperator (o : Operator) :
      evaluate [("sizes", sizes), ("limits", limits)]
        (comparisonText ⟨.word, "settings.sizes"⟩ o ⟨.word, "settings.limits"⟩) =
          .ok (o.holds (.value sizes) (.value limits)) := by
    have hleft : Token.operand [("sizes", sizes), ("limits", limits)] ⟨.word, "settings.sizes"⟩ =
        .value sizes := by
      rw [hsizes, hlimits]
      rfl
    have hright : Token.operand [("sizes", sizes), ("limits", limits)]
        ⟨.word, "settings.limits"⟩ = .value limits := by
      rw [hsizes, hlimits]
      rfl
    rw [evaluate_comparisonText _ hl hlvalue hr hrvalue, hleft, hright]
  have hdiffer : Operator.equal.holds (.value sizes) (.value limits) = false := by
    rw [hsizes, hlimits]
    rfl
  have hbelow : Operator.less.holds (.value sizes) (.value limits) = true := by
    rw [hsizes, hlimits]
    rfl
  have hequalHolds := hoperator .equal
  have hlessHolds := hoperator .less
  rw [hdiffer] at hequalHolds
  rw [hbelow] at hlessHolds
  simp only [comparisonText, Operator.text, String.reduceAppend]
    at hequal hunequal hless hgreater hequalHolds hlessHolds
  obtain rfl : false = equal := Except.ok.inj (hequalHolds.symm.trans hequal)
  obtain rfl : true = less := Except.ok.inj (hlessHolds.symm.trans hless)
  exact ⟨hunequal, hgreater⟩

end text

end Condition

end Storefront
