import Storefront.Proofs.Condition.Stepwise

/-!
Conditions written out again. The texts of the comparisons with the combinators between them are the
texts of the tokens that the condition was read from, so none is lost, doubled or made up
(`parse_writesOut`).
-/

namespace Storefront.Condition

namespace Stepwise.Comparison

variable (c : Comparison)

def operator? : Option String := c.right.map Prod.fst

def rightOperand? : Option Token := c.right.map Prod.snd

/-- The texts of the left operand, the operator and the right operand, as far as they are there. -/
def texts : List String :=
  c.left.text :: (c.operator?.toList ++ (c.rightOperand?.map (·.text)).toList)

end Stepwise.Comparison

/-- The texts of comparisons with a combinator between any two of them. -/
inductive WritesOut : List Stepwise.Comparison → List String → List String → Prop
  | last (c : Stepwise.Comparison) : WritesOut [c] [] c.texts
  | joined (c : Stepwise.Comparison) (k : String) {comparisons : List Stepwise.Comparison}
    {combinators texts : List String} (h : WritesOut comparisons combinators texts) :
    WritesOut (c :: comparisons) (k :: combinators) (c.texts ++ k :: texts)

namespace WritesOut

variable {comparisons : List Stepwise.Comparison} {combinators texts : List String}

theorem length_eq (h : WritesOut comparisons combinators texts) :
    comparisons.length = combinators.length + 1 := by
  induction h with
  | last c => rfl
  | joined c k _ ih => rw [List.length_cons, List.length_cons, ih]

end WritesOut

/-! ### The parts of a condition -/

theorem Comparison.texts_written (c : Comparison) :
    (Stepwise.written c).texts = c.tokens.map (·.text) := by
  obtain ⟨left, right⟩ := c
  cases right with
  | none => rfl
  | some p => rfl

theorem writesOut_tokens (c : Condition) :
    WritesOut (c.comparisons.map Stepwise.written) (Stepwise.combinators c)
      (c.tokens.map (·.text)) := by
  induction c using join_induction with
  | single first =>
    rw [tokens_single, ← Comparison.texts_written]
    exact .last (Stepwise.written first)
  | join first k c ih =>
    rw [tokens_join, List.map_append, List.map_cons, ← Comparison.texts_written]
    exact .joined (Stepwise.written first) k.text ih

theorem Combinator.text_cases (k : Combinator) : k.text = "and" ∨ k.text = "or" := by
  cases k with
  | and => exact .inl rfl
  | or => exact .inr rfl

theorem Operator.text_mem (o : Operator) :
    o.text ∈ ["==", "!=", "<>", "<", ">", "<=", ">=", "contains"] := by
  cases o <;> decide

/-- The comparisons and combinators that are read from an expression give back the texts of its
tokens when they are written out. There is one combinator fewer than there are comparisons, and a
comparison has an operator just if it has a right operand. -/
theorem parse_writesOut {expression : String} {c : Condition} (h : parse expression = .ok c) :
    ∃ tokens comparisons combinators, tokenize expression = .ok tokens ∧
      Stepwise.parse expression = .ok (comparisons, combinators) ∧
      comparisons = c.comparisons.map Stepwise.written ∧
      combinators = c.rest.map (·.1.text) ∧
      WritesOut comparisons combinators (tokens.map (·.text)) ∧
      comparisons.length = combinators.length + 1 ∧
      (∀ k ∈ combinators, k = "and" ∨ k = "or") ∧
      ∀ next ∈ comparisons, (next.operator?.isSome ↔ next.rightOperand?.isSome) ∧
        ∀ o ∈ next.operator?, o ∈ ["==", "!=", "<>", "<", ">", "<=", ">=", "contains"] := by
  obtain ⟨htokens, -⟩ := parse_eq_ok_iff.1 h
  have hwrites := writesOut_tokens c
  have hsteps : Stepwise.parse expression =
      .ok (c.comparisons.map Stepwise.written, Stepwise.combinators c) := by
    rw [Stepwise.parse_eq, h]
    rfl
  refine ⟨c.tokens, _, _, htokens, hsteps, rfl, rfl, hwrites, hwrites.length_eq, ?_, ?_⟩
  · intro k hk
    obtain ⟨next, -, rfl⟩ := List.mem_map.1 hk
    exact next.1.text_cases
  · intro next hnext
    obtain ⟨⟨left, right⟩, -, rfl⟩ := List.mem_map.1 hnext
    cases right with
    | none => exact ⟨Iff.rfl, fun o ho => by cases ho⟩
    | some p =>
      refine ⟨Iff.rfl, fun o ho => ?_⟩
      cases ho
      exact p.1.text_mem

/-- A comparison of one operand, and two of two operands. -/
theorem parse_writesOut_chain :
    ∃ comparisons combinators,
      Stepwise.parse "a == 1 and b or 'c' contains d" = .ok (comparisons, combinators) ∧
      combinators = ["and", "or"] ∧
      WritesOut comparisons combinators
        ["a", "==", "1", "and", "b", "or", "'c'", "contains", "d"] := by
  have hparse : parse "a == 1 and b or 'c' contains d" =
      .ok ⟨⟨⟨.word, "a"⟩, some (.equal, ⟨.number, "1"⟩)⟩, [(.and, ⟨⟨.word, "b"⟩, none⟩),
        (.or, ⟨⟨.string, "'c'"⟩, some (.contains, ⟨.word, "d"⟩)⟩)]⟩ := by
    rfl
  obtain ⟨tokens, comparisons, combinators, htokens, hsteps, -, hcombinators, hwrites, -⟩ :=
    parse_writesOut hparse
  have htexts : tokens.map (·.text) =
      ["a", "==", "1", "and", "b", "or", "'c'", "contains", "d"] := by
    rw [(parse_eq_ok_iff.1 hparse).1] at htokens
    obtain rfl := Except.ok.inj htokens
    rfl
  rw [htexts] at hwrites
  exact ⟨comparisons, combinators, hsteps, hcombinators, hwrites⟩

end Storefront.Condition
