import Storefront.Condition

/-!
The grammar of conditions. A condition is a comparison, or several with `and` or `or` between any
two of them; a comparison is an operand, or two with an operator between them. A condition is read
from a text just if its tokens are those of the text (`parse_eq_ok_iff`). To the left of an operator
`and` and `or` are no operands, but to the right of one they are taken as any other word.
-/

namespace Storefront.Condition

/-! ### Tokens of the grammar -/

def Operator.token (o : Operator) : Token where
  kind := match o with
    | .contains => .word
    | _ => .operator
  text := o.text

def Combinator.token (k : Combinator) : Token := { kind := .word, text := k.text }

theorem Operator.ofToken?_eq_some_iff {t : Token} {o : Operator} :
    ofToken? t = some o ↔ t = o.token := by
  constructor
  · intro h
    obtain ⟨kind, text⟩ := t
    unfold ofToken? at h
    split at h
    case h_9 => cases h
    all_goals
      next hkind htext =>
        cases h
        simp only at hkind htext
        subst hkind htext
        rfl
  · rintro rfl
    cases o <;> rfl

theorem Combinator.ofToken?_eq_some_iff {t : Token} {k : Combinator} :
    ofToken? t = some k ↔ t = k.token := by
  constructor
  · intro h
    obtain ⟨kind, text⟩ := t
    unfold ofToken? at h
    split at h
    case h_3 => cases h
    all_goals
      next hkind htext =>
        cases h
        simp only at hkind htext
        subst hkind htext
        rfl
  · rintro rfl
    cases k <;> rfl

theorem Operator.ofToken?_token (o : Operator) : ofToken? o.token = some o :=
  ofToken?_eq_some_iff.2 rfl

theorem Combinator.ofToken?_token (k : Combinator) : ofToken? k.token = some k :=
  ofToken?_eq_some_iff.2 rfl

/-- No operator is spelled as a combinator is. -/
theorem Operator.ofToken?_combinator (k : Combinator) : ofToken? k.token = none := by
  cases k <;> rfl

namespace Token

/-- A string, a number, or a word other than `and` and `or`. -/
inductive IsOperand : Token → Prop
  | string (text : String) : IsOperand ⟨.string, text⟩
  | number (text : String) : IsOperand ⟨.number, text⟩
  | word {text : String} (hand : text ≠ "and") (hor : text ≠ "or") : IsOperand ⟨.word, text⟩

/-- A string, a number, or any word. -/
def IsValue (t : Token) : Prop := t.kind ≠ .operator

theorem isOperand_iff {t : Token} : t.IsOperand ↔ t.IsValue ∧ Combinator.ofToken? t = none := by
  constructor
  · intro h
    refine ⟨by cases h <;> exact Kind.noConfusion, ?_⟩
    rw [Option.eq_none_iff_forall_ne_some]
    intro k hk
    rw [Combinator.ofToken?_eq_some_iff] at hk
    cases k <;> cases h <;> simp_all [Combinator.token, Combinator.text]
  · rintro ⟨hvalue, hnone⟩
    obtain ⟨kind, text⟩ := t
    cases kind with
    | string => exact .string text
    | number => exact .number text
    | operator => exact absurd rfl hvalue
    | word =>
      refine .word ?_ ?_
      · rintro rfl
        cases hnone
      · rintro rfl
        cases hnone

theorem IsOperand.isValue {t : Token} (h : t.IsOperand) : t.IsValue := (isOperand_iff.1 h).1

end Token

/-! ### The grammar -/

/-- The tokens of a comparison; `right` tells what may stand to the right of an operator. -/
inductive IsComparison (right : Token → Prop) : List Token → Prop
  | operand {l : Token} (hl : l.IsOperand) : IsComparison right [l]
  | compared {l r : Token} (hl : l.IsOperand) (o : Operator) (hr : right r) :
    IsComparison right [l, o.token, r]

/-- The tokens of a condition. -/
inductive IsCondition (right : Token → Prop) : List Token → Prop
  | comparison {tokens : List Token} (h : IsComparison right tokens) : IsCondition right tokens
  | joined {tokens more : List Token} (h : IsComparison right tokens) (k : Combinator)
    (hmore : IsCondition right more) : IsCondition right (tokens ++ k.token :: more)

/-! ### The tokens of a condition -/

namespace Comparison

def tokens (c : Comparison) : List Token :=
  c.left :: match c.right with
    | none => []
    | some (o, r) => [o.token, r]

/-- The operands are such as the grammar asks for. -/
def Fits (right : Token → Prop) (c : Comparison) : Prop :=
  c.left.IsOperand ∧ ∀ p ∈ c.right, right p.2

theorem isComparison_iff {right : Token → Prop} {tokens : List Token} :
    IsComparison right tokens ↔ ∃ c : Comparison, c.tokens = tokens ∧ c.Fits right := by
  constructor
  · intro h
    cases h with
    | @operand l hl => exact ⟨⟨l, none⟩, rfl, hl, fun p hp => by cases hp⟩
    | @compared l r hl o hr =>
      refine ⟨⟨l, some (o, r)⟩, rfl, hl, fun p hp => ?_⟩
      cases hp
      exact hr
  · rintro ⟨⟨left, right⟩, rfl, hleft, hright⟩
    cases right with
    | none => exact .operand hleft
    | some p => exact .compared hleft p.1 (hright p rfl)

end Comparison

def comparisons (c : Condition) : List Comparison := c.first :: c.rest.map Prod.snd

def tokens (c : Condition) : List Token :=
  c.first.tokens ++ c.rest.flatMap fun (k, next) => k.token :: next.tokens

def Fits (right : Token → Prop) (c : Condition) : Prop := ∀ next ∈ c.comparisons, next.Fits right

section join

variable {first : Comparison} {k : Combinator} {c : Condition} {right : Token → Prop}

/-- The condition that joins a comparison to another condition. -/
def join (first : Comparison) (k : Combinator) (c : Condition) : Condition :=
  ⟨first, (k, c.first) :: c.rest⟩

@[simp] theorem tokens_single : (⟨first, []⟩ : Condition).tokens = first.tokens :=
  List.append_nil _

@[simp] theorem tokens_join : (join first k c).tokens = first.tokens ++ k.token :: c.tokens := rfl

@[simp] theorem fits_single : (⟨first, []⟩ : Condition).Fits right ↔ first.Fits right := by
  simp [Fits, comparisons]

@[simp] theorem fits_join : (join first k c).Fits right ↔ first.Fits right ∧ c.Fits right := by
  simp [Fits, comparisons, join]

/-- A condition is a comparison, or a comparison joined to a condition. -/
@[elab_as_elim]
theorem join_induction {motive : Condition → Prop} (single : ∀ first, motive ⟨first, []⟩)
    (join : ∀ first k c, motive c → motive (join first k c)) (c : Condition) : motive c := by
  obtain ⟨first, rest⟩ := c
  induction rest generalizing first with
  | nil => exact single first
  | cons p rest ih => exact join first p.1 ⟨p.2, rest⟩ (ih p.2)

end join

/-- The tokens of the grammar are those of the conditions whose operands fit. -/
theorem isCondition_iff {right : Token → Prop} {tokens : List Token} :
    IsCondition right tokens ↔ ∃ c : Condition, c.tokens = tokens ∧ c.Fits right := by
  constructor
  · intro h
    induction h with
    | comparison h =>
      obtain ⟨first, rfl, hfirst⟩ := Comparison.isComparison_iff.1 h
      exact ⟨⟨first, []⟩, tokens_single, fits_single.2 hfirst⟩
    | joined h k hmore ih =>
      obtain ⟨first, rfl, hfirst⟩ := Comparison.isComparison_iff.1 h
      obtain ⟨c, rfl, hc⟩ := ih
      exact ⟨join first k c, tokens_join, fits_join.2 ⟨hfirst, hc⟩⟩
  · rintro ⟨c, rfl, hfits⟩
    induction c using join_induction with
    | single first =>
      rw [tokens_single]
      exact .comparison (Comparison.isComparison_iff.2 ⟨first, rfl, fits_single.1 hfits⟩)
    | join first k c ih =>
      obtain ⟨hfirst, hc⟩ := fits_join.1 hfits
      exact .joined (Comparison.isComparison_iff.2 ⟨first, rfl, hfirst⟩) k (ih hc)

/-! ### Reading back the tokens -/

section read

variable {expression : String} {fuel : Nat} {all rest : List Token}

/-- A comparison is taken from the tokens with its operands as they stand. -/
theorem of_takeComparison {c : Comparison} (h : takeComparison expression all = .ok (c, rest)) :
    c.tokens ++ rest = all ∧ c.Fits Token.IsValue := by
  unfold takeComparison at h
  split at h
  · cases h
  · next left all =>
    split at h
    · cases h
    · next hleft =>
      have hoperand : left.IsOperand := by
        simpa [Token.isOperand_iff, Token.IsValue] using hleft
      split at h
      · cases h
        exact ⟨rfl, hoperand, fun p hp => by cases hp⟩
      · next t all =>
        split at h
        · cases h
          exact ⟨rfl, hoperand, fun p hp => by cases hp⟩
        · next operator hoperator =>
          obtain rfl := Operator.ofToken?_eq_some_iff.1 hoperator
          split at h
          · cases h
          · next right all =>
            split at h
            · cases h
            · next hright =>
              cases h
              refine ⟨rfl, hoperand, fun p hp => ?_⟩
              cases hp
              exact hright

/-- A comparison is taken back from its own tokens, unless what follows would go on with it. -/
theorem takeComparison_tokens {c : Comparison} (h : c.Fits Token.IsValue)
    (hrest : ∀ t ∈ rest.head?, Operator.ofToken? t = none) :
    takeComparison expression (c.tokens ++ rest) = .ok (c, rest) := by
  obtain ⟨left, right⟩ := c
  obtain ⟨hoperand, hright⟩ := h
  obtain ⟨hvalue, hnone⟩ := Token.isOperand_iff.1 hoperand
  have hleft : ¬(left.kind = .operator || (Combinator.ofToken? left).isSome) = true := by
    simpa [hnone, Token.IsValue] using hvalue
  cases right with
  | none =>
    cases rest with
    | nil => exact if_neg hleft
    | cons t rest =>
      have ht := hrest t rfl
      simp only [Comparison.tokens, List.cons_append, List.nil_append, takeComparison, ht]
      exact if_neg hleft
  | some p =>
    obtain ⟨o, r⟩ := p
    have hr : r.kind ≠ .operator := hright (o, r) rfl
    simp only [Comparison.tokens, List.cons_append, List.nil_append, takeComparison,
      Operator.ofToken?_token, if_neg hr]
    exact if_neg hleft

theorem of_ofTokens {c : Condition} (h : ofTokens expression fuel all = .ok c) :
    c.tokens = all ∧ c.Fits Token.IsValue := by
  induction fuel generalizing all c with
  | zero => cases h
  | succ fuel ih =>
    rw [ofTokens] at h
    cases hfirst : takeComparison expression all with
    | error e =>
      rw [hfirst] at h
      cases h
    | ok taken =>
      obtain ⟨first, rest⟩ := taken
      rw [hfirst] at h
      obtain ⟨rfl, hfits⟩ := of_takeComparison hfirst
      cases rest with
      | nil =>
        cases h
        exact ⟨rfl, fits_single.2 hfits⟩
      | cons t rest =>
        cases hcombinator : Combinator.ofToken? t with
        | none => simp [bind, Except.bind, hcombinator] at h
        | some k =>
          obtain rfl := Combinator.ofToken?_eq_some_iff.1 hcombinator
          simp only [bind, Except.bind, hcombinator] at h
          split at h
          · cases h
          · cases hmore : ofTokens expression fuel rest with
            | error e =>
              rw [hmore] at h
              cases h
            | ok more =>
              rw [hmore] at h
              cases h
              obtain ⟨rfl, hmorefits⟩ := ih hmore
              exact ⟨tokens_join, fits_join.2 ⟨hfits, hmorefits⟩⟩

theorem tokens_ne_nil (c : Condition) : c.tokens ≠ [] := List.cons_ne_nil _ _

/-- The fuel is enough for the tokens that there are. -/
theorem ofTokens_tokens {c : Condition} (h : c.Fits Token.IsValue)
    (hfuel : c.tokens.length ≤ fuel) : ofTokens expression fuel c.tokens = .ok c := by
  induction c using join_induction generalizing fuel with
  | single first =>
    cases fuel with
    | zero => exact absurd (List.length_eq_zero_iff.1 (Nat.le_zero.1 hfuel)) (tokens_ne_nil _)
    | succ fuel =>
      have hfirst : takeComparison expression (first.tokens ++ []) = .ok (first, []) :=
        takeComparison_tokens (fits_single.1 h) (by simp)
      rw [tokens_single, ← List.append_nil first.tokens, ofTokens, hfirst]
      rfl
  | join first k c ih =>
    obtain ⟨hfirst, hc⟩ := fits_join.1 h
    rw [tokens_join, List.length_append, List.length_cons] at hfuel
    cases fuel with
    | zero => omega
    | succ fuel =>
      have htaken : takeComparison expression (first.tokens ++ k.token :: c.tokens) =
          .ok (first, k.token :: c.tokens) :=
        takeComparison_tokens hfirst (by simp [Operator.ofToken?_combinator])
      have hmore : ofTokens expression fuel c.tokens = .ok c := ih hc (by omega)
      have hnonempty : c.tokens.isEmpty = false := by
        rw [List.isEmpty_eq_false_iff]
        exact tokens_ne_nil c
      simp only [tokens_join, ofTokens, htaken, bind, Except.bind, Combinator.ofToken?_token,
        hnonempty, hmore]
      rfl

end read

/-! ### Accepted expressions -/

/-- An expression states a condition just if its tokens are those of the condition. -/
theorem parse_eq_ok_iff {expression : String} {c : Condition} :
    parse expression = .ok c ↔ tokenize expression = .ok c.tokens ∧ c.Fits Token.IsValue := by
  rw [parse]
  cases htokens : tokenize expression with
  | error e => simp [bind, Except.bind]
  | ok tokens =>
    simp only [bind, Except.bind, Except.ok.injEq]
    constructor
    · intro h
      obtain ⟨rfl, hfits⟩ := of_ofTokens h
      exact ⟨rfl, hfits⟩
    · rintro ⟨rfl, hfits⟩
      exact ofTokens_tokens hfits (Nat.le_refl _)

theorem Fits.imp {P Q : Token → Prop} (hPQ : ∀ t, P t → Q t) {c : Condition} (h : c.Fits P) :
    c.Fits Q :=
  fun next hnext => ⟨(h next hnext).1, fun p hp => hPQ p.2 ((h next hnext).2 p hp)⟩

/-- The tokens of an expression form a condition. -/
def Forms (right : Token → Prop) (expression : String) : Prop :=
  ∃ tokens, tokenize expression = .ok tokens ∧ IsCondition right tokens

theorem exists_parse_iff_forms (expression : String) :
    (∃ c, parse expression = .ok c) ↔ Forms Token.IsValue expression := by
  constructor
  · rintro ⟨c, h⟩
    obtain ⟨htokens, hfits⟩ := parse_eq_ok_iff.1 h
    exact ⟨c.tokens, htokens, isCondition_iff.2 ⟨c, rfl, hfits⟩⟩
  · rintro ⟨tokens, htokens, h⟩
    obtain ⟨c, rfl, hfits⟩ := isCondition_iff.1 h
    exact ⟨c, parse_eq_ok_iff.2 ⟨htokens, hfits⟩⟩

/-- What is documented is a part of what is accepted, and is read as it is documented. -/
theorem forms_isOperand_iff {expression : String} :
    Forms Token.IsOperand expression ↔
      ∃ c, parse expression = .ok c ∧ c.Fits Token.IsOperand := by
  constructor
  · rintro ⟨tokens, htokens, h⟩
    obtain ⟨c, rfl, hfits⟩ := isCondition_iff.1 h
    exact ⟨c, parse_eq_ok_iff.2 ⟨htokens, hfits.imp fun _ => Token.IsOperand.isValue⟩, hfits⟩
  · rintro ⟨c, h, hfits⟩
    exact ⟨c.tokens, (parse_eq_ok_iff.1 h).1, isCondition_iff.2 ⟨c, rfl, hfits⟩⟩

/-- An expression is accepted just if its tokens form a condition in which any word may stand to the
right of an operator, and is refused with an error in every other case. So what is accepted is what
is documented just as long as no operator has `and` or `or` to its right. -/
theorem exists_parse_iff (expression : String) :
    ((∃ c, parse expression = .ok c) ↔ Forms Token.IsValue expression) ∧
      ((∃ e, parse expression = .error e) ↔ ¬Forms Token.IsValue expression) ∧
      (((∃ c, parse expression = .ok c) ↔ Forms Token.IsOperand expression) ↔
        ∀ c, parse expression = .ok c →
          ∀ next ∈ c.comparisons, ∀ p ∈ next.right, p.2.IsOperand) := by
  refine ⟨exists_parse_iff_forms expression, ?_, ?_⟩
  · rw [← exists_parse_iff_forms]
    cases parse expression with
    | error e => simp
    | ok c => simp
  · rw [forms_isOperand_iff]
    constructor
    · intro h c hc next hnext
      obtain ⟨other, hother, hfits⟩ := h.1 ⟨c, hc⟩
      obtain rfl : c = other := Except.ok.inj (hc.symm.trans hother)
      exact (hfits next hnext).2
    · intro h
      constructor
      · rintro ⟨c, hc⟩
        obtain ⟨-, hfits⟩ := parse_eq_ok_iff.1 hc
        exact ⟨c, hc, fun next hnext => ⟨(hfits next hnext).1, h c hc next hnext⟩⟩
      · rintro ⟨c, hc, -⟩
        exact ⟨c, hc⟩

/-- The word `and` is taken for the right operand of an operator. -/
theorem parse_and_operand :
    ¬∀ expression, (∃ c, parse expression = .ok c) ↔ Forms Token.IsOperand expression := by
  intro h
  have hparse : parse "a == and" =
      .ok ⟨⟨⟨.word, "a"⟩, some (.equal, Combinator.and.token)⟩, []⟩ := by
    rfl
  obtain ⟨c, hc, hfits⟩ := forms_isOperand_iff.1 ((h "a == and").1 ⟨_, hparse⟩)
  obtain rfl := Except.ok.inj (hparse.symm.trans hc)
  obtain ⟨-, hnone⟩ := Token.isOperand_iff.1 ((fits_single.1 hfits).2 _ rfl)
  rw [Combinator.ofToken?_token] at hnone
  cases hnone

end Storefront.Condition
