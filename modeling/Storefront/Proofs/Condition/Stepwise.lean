import Storefront.Condition.Evaluation
import Storefront.Proofs.Condition.Grammar
import Storefront.Proofs.Condition.Lexing

/-!
Evaluation step by step, where each step that is partial can fail in a way of its own: tokens are
read by their positions, operators are looked up by their texts, the comparisons and the combinators
are gone through together from the last ones on, and operands that have no order fail to compare.
This evaluation gives what `evaluate` gives, so its only failure is that of a text which is no
condition. What rules the others out is carried from the tokens to the comparisons.
-/

namespace Storefront.Condition.Stepwise

/-- What ends an evaluation without a value. -/
inductive Trap where
  /-- The text is no condition. -/
  | refused (e : Error)
  /-- There is no token at a position. -/
  | outOfRange (position : Nat)
  /-- Comparisons or combinators are left over. -/
  | uneven
  /-- The operator is in no table. -/
  | noEntry (operator : String)
  | unordered
  | noNumeral (text : String)
  | unfinished
  deriving DecidableEq, Repr

/-! ### Tokens -/

def scan (refuse : List Char → Error) : Nat → List Char → Except Trap (List Token)
  | _, [] => .ok []
  | 0, _ => .error .unfinished
  | fuel + 1, s => match Token.first? (Text.dropBlanks s) with
    | none => .error (.refused (refuse s))
    | some (token, rest) => (scan refuse fuel rest).map (token :: ·)

def tokenize (expression : String) : Except Trap (List Token) :=
  let s := Text.trimRight expression.toList
  scan (fun rest => .unexpectedInput (s.length - rest.length) expression) s.length s

theorem scan_eq {refuse : List Char → Error} {fuel : Nat} {s : List Char}
    (hfuel : s.length ≤ fuel) :
    scan refuse fuel s = (Token.scan fuel s).mapError fun rest => .refused (refuse rest) := by
  induction fuel generalizing s with
  | zero =>
    obtain rfl := List.length_eq_zero_iff.1 (Nat.le_zero.1 hfuel)
    rfl
  | succ fuel ih =>
    cases s with
    | nil => rfl
    | cons c s =>
      rw [scan, Token.scan]
      case x_2 => exact List.cons_ne_nil c s
      case x_2 => exact List.cons_ne_nil c s
      cases hfirst : Token.first? (Text.dropBlanks (c :: s)) with
      | none => rfl
      | some taken =>
        have hlt := Token.length_lt_of_first? hfirst
        dsimp only
        rw [ih (by omega)]
        cases Token.scan fuel taken.2 <;> rfl

theorem tokenize_eq (expression : String) :
    tokenize expression = (Condition.tokenize expression).mapError .refused := by
  rw [tokenize, Condition.tokenize, scan_eq (Nat.le_refl _)]
  cases Token.scan _ (Text.trimRight expression.toList) <;> rfl

/-! ### Comparisons -/

/-- A comparison with its operator as it is written. -/
structure Comparison where
  left : Token
  right : Option (String × Token)
  deriving DecidableEq, Repr

def tokenAt (tokens : List Token) (position : Nat) : Except Trap Token :=
  match tokens[position]? with
  | some t => .ok t
  | none => .error (.outOfRange position)

def isCombinator (t : Token) : Bool := t.kind = .word && (t.text = "and" || t.text = "or")

def isOperator (t : Token) : Bool := t.kind = .operator || (t.kind = .word && t.text = "contains")

/-- The comparison from a position on, and the position behind it. -/
def comparisonAt (expression : String) (tokens : List Token) (i : Nat) :
    Except Trap (Comparison × Nat) := do
  let left ← tokenAt tokens i
  if left.kind = .operator || isCombinator left then
    .error (.refused (.notAValue left.text expression))
  else if tokens.length ≤ i + 1 then return (⟨left, none⟩, i + 1)
  else do
    let candidate ← tokenAt tokens (i + 1)
    if !isOperator candidate then return (⟨left, none⟩, i + 1)
    else if tokens.length ≤ i + 2 then .error (.refused (.missingOperand candidate.text))
    else do
      let right ← tokenAt tokens (i + 2)
      if right.kind = .operator then .error (.refused (.notAnOperand candidate.text expression))
      else return (⟨left, some (candidate.text, right)⟩, i + 3)

/-- The comparisons from a position on, and the combinators between them. -/
def chainAt (expression : String) (tokens : List Token) :
    Nat → Nat → Except Trap (List Comparison × List String)
  | 0, _ => .error .unfinished
  | fuel + 1, i => do
    let (comparison, i) ← comparisonAt expression tokens i
    if tokens.length ≤ i then return ([comparison], [])
    else do
      let t ← tokenAt tokens i
      if !isCombinator t then .error (.refused (.notACombinator t.text expression))
      else if tokens.length ≤ i + 1 then .error (.refused (.endsWith expression t.text))
      else do
        let (comparisons, combinators) ← chainAt expression tokens fuel (i + 1)
        return (comparison :: comparisons, t.text :: combinators)

def parse (expression : String) : Except Trap (List Comparison × List String) := do
  let tokens ← tokenize expression
  if tokens.isEmpty then .error (.refused .empty)
  else chainAt expression tokens tokens.length 0

/-- What the tokens of an expression are known to be. -/
structure WellFormed (t : Token) : Prop where
  operator : t.kind = .operator → ∃ o : Operator, t = o.token
  number : t.kind = .number → Token.IsNumeral t.text.toList

theorem wellFormed_of_first? {s r : List Char} {t : Token} (h : Token.first? s = some (t, r)) :
    WellFormed t := by
  obtain ⟨kind, text⟩ := t
  rw [Token.first?_eq_some_iff] at h
  constructor
  · rintro rfl
    obtain ⟨o, ho, htext, -⟩ := Token.exists_of_operator? h
    rw [String.toList_inj] at htext
    subst htext
    refine ⟨o, ?_⟩
    cases o with
    | contains => exact absurd rfl ho
    | _ => rfl
  · rintro rfl
    exact (Token.number?_eq_some_iff.1 h).2.1

theorem wellFormed_of_tokenize {expression : String} {tokens : List Token}
    (h : Condition.tokenize expression = .ok tokens) : ∀ t ∈ tokens, WellFormed t := by
  intro t ht
  obtain ⟨u, r, -, hfirst⟩ := (tokenize_eq_ok_iff.1 h).exists_of_mem ht
  exact wellFormed_of_first? hfirst

theorem isCombinator_iff {t : Token} : isCombinator t = true ↔ ∃ k : Combinator, t = k.token := by
  constructor
  · obtain ⟨kind, text⟩ := t
    intro h
    simp only [isCombinator, Bool.and_eq_true, Bool.or_eq_true, decide_eq_true_eq] at h
    obtain ⟨rfl, rfl | rfl⟩ := h
    · exact ⟨.and, rfl⟩
    · exact ⟨.or, rfl⟩
  · rintro ⟨k, rfl⟩
    cases k <;> rfl

theorem isCombinator_eq (t : Token) : isCombinator t = (Combinator.ofToken? t).isSome := by
  rw [Bool.eq_iff_iff]
  simp only [isCombinator_iff, Option.isSome_iff_exists, Combinator.ofToken?_eq_some_iff]

/-- An operator of a text is always one that there is. -/
theorem isOperator_iff {t : Token} (h : WellFormed t) :
    isOperator t = true ↔ ∃ o : Operator, t = o.token := by
  constructor
  · intro hop
    simp only [isOperator, Bool.or_eq_true, Bool.and_eq_true, decide_eq_true_eq] at hop
    rcases hop with hkind | ⟨hkind, htext⟩
    · exact h.operator hkind
    · obtain ⟨kind, text⟩ := t
      cases hkind
      cases htext
      exact ⟨.contains, rfl⟩
  · rintro ⟨o, rfl⟩
    cases o <;> rfl

section comparisons

variable {expression : String} {tokens part : List Token} {i : Nat} {t : Token}

theorem tokenAt_of_drop (h : tokens.drop i = t :: part) : tokenAt tokens i = .ok t := by
  have hget : tokens[i]? = some t := by
    rw [← List.head?_drop, h]
    rfl
  rw [tokenAt, hget]

theorem drop_succ (h : tokens.drop i = t :: part) : tokens.drop (i + 1) = part := by
  rw [← List.tail_drop, h]
  rfl

theorem length_of_drop (h : tokens.drop i = t :: part) :
    tokens.length = i + 1 + part.length := by
  have hlength := congrArg List.length h
  rw [List.length_drop, List.length_cons] at hlength
  omega

/-- The comparison with its operator as it is written. -/
def written (c : Condition.Comparison) : Comparison :=
  ⟨c.left, c.right.map fun (o, r) => (o.text, r)⟩

/-- No position is read that has no token, and the tokens read are those of the comparison. -/
theorem comparisonAt_eq (hwf : ∀ t ∈ tokens, WellFormed t) (hpart : tokens.drop i = part)
    (hne : part ≠ []) :
    comparisonAt expression tokens i = ((takeComparison expression part).map fun taken =>
      (written taken.1, i + taken.1.tokens.length)).mapError .refused := by
  obtain ⟨left, tail, rfl⟩ := List.exists_cons_of_ne_nil hne
  have hlength := length_of_drop hpart
  have htail := drop_succ hpart
  have hcheck : (left.kind = .operator || isCombinator left) =
      (left.kind = .operator || (Combinator.ofToken? left).isSome) := by
    rw [isCombinator_eq]
  rw [comparisonAt, tokenAt_of_drop hpart]
  simp only [bind, Except.bind, pure, Except.pure, takeComparison, hcheck]
  split
  · rfl
  · cases tail with
    | nil =>
      rw [if_pos (by simpa using hlength.le)]
      rfl
    | cons t tail =>
      rw [List.length_cons] at hlength
      have hwft : WellFormed t := hwf t (List.mem_of_mem_drop (htail ▸ List.mem_cons_self))
      have hmore := drop_succ htail
      rw [if_neg (by omega), tokenAt_of_drop htail]
      dsimp only
      cases hop : Operator.ofToken? t with
      | none =>
        have hno : isOperator t = false := by
          rw [Bool.eq_false_iff]
          intro hyes
          obtain ⟨o, rfl⟩ := (isOperator_iff hwft).1 hyes
          rw [Operator.ofToken?_token] at hop
          cases hop
        rw [hno]
        rfl
      | some o =>
        obtain rfl := Operator.ofToken?_eq_some_iff.1 hop
        rw [(isOperator_iff hwft).2 ⟨o, rfl⟩]
        cases tail with
        | nil =>
          rw [if_neg (by decide), if_pos (by simpa using hlength.le)]
          rfl
        | cons right tail =>
          rw [List.length_cons] at hlength
          rw [if_neg (by decide), if_neg (by omega), tokenAt_of_drop hmore]
          dsimp only
          split <;> rfl

/-- The texts of the combinators, in order. -/
def combinators (c : Condition) : List String := c.rest.map fun next => next.1.text

/-- The loop ends within the fuel, since each comparison takes a token. -/
theorem chainAt_eq {fuel : Nat} (hwf : ∀ t ∈ tokens, WellFormed t) (hpart : tokens.drop i = part)
    (hne : part ≠ []) (hfuel : part.length ≤ fuel) :
    chainAt expression tokens fuel i = ((ofTokens expression fuel part).map fun c =>
      (c.comparisons.map written, combinators c)).mapError .refused := by
  induction fuel generalizing i part with
  | zero => exact absurd (List.length_eq_zero_iff.1 (Nat.le_zero.1 hfuel)) hne
  | succ fuel ih =>
    rw [chainAt, comparisonAt_eq hwf hpart hne, ofTokens]
    cases hfirst : takeComparison expression part with
    | error e => rfl
    | ok taken =>
      obtain ⟨first, rest⟩ := taken
      obtain ⟨rfl, -⟩ := of_takeComparison hfirst
      have hrest : tokens.drop (i + first.tokens.length) = rest := by
        rw [← List.drop_drop, hpart, List.drop_left]
      have hpos : 0 < first.tokens.length := Nat.succ_pos _
      rw [List.length_append] at hfuel
      simp only [bind, Except.bind, pure, Except.pure, Except.map, Except.mapError]
      cases rest with
      | nil =>
        rw [if_pos (List.drop_eq_nil_iff.1 hrest)]
        rfl
      | cons t rest =>
        have hlength := length_of_drop hrest
        have hmore := drop_succ hrest
        rw [if_neg (by omega), tokenAt_of_drop hrest]
        dsimp only
        rw [isCombinator_eq]
        cases hk : Combinator.ofToken? t with
        | none => rfl
        | some k =>
          obtain rfl := Combinator.ofToken?_eq_some_iff.1 hk
          cases rest with
          | nil =>
            rw [if_neg (by simp), if_pos (by simpa using hlength.le)]
            rfl
          | cons u rest =>
            rw [List.length_cons] at hlength hfuel
            rw [if_neg (by simp), if_neg (by omega),
              ih hmore (List.cons_ne_nil u rest) (by omega)]
            cases ofTokens expression fuel (u :: rest) <;> rfl

theorem parse_eq (expression : String) :
    parse expression = ((Condition.parse expression).map fun c =>
      (c.comparisons.map written, combinators c)).mapError .refused := by
  rw [parse, Condition.parse, tokenize_eq]
  cases htokens : Condition.tokenize expression with
  | error e => rfl
  | ok tokens =>
    cases tokens with
    | nil => rfl
    | cons t tokens =>
      have hwf := wellFormed_of_tokenize htokens
      exact chainAt_eq hwf rfl (List.cons_ne_nil t tokens) (Nat.le_refl _)

end comparisons

/-! ### Values -/

def isDigits (s : List Char) : Bool := !s.isEmpty && s.all Text.isDigit

/-- Digits, with a sign before them and a fraction behind them as may be. -/
def isNumeral (s : List Char) : Bool :=
  match Text.splitOn '.' (Token.takeSign s).2 with
  | [whole] => isDigits whole
  | [whole, fraction] => isDigits whole && isDigits fraction
  | _ => false

/-- What an operand stands for; a number can be read from a numeral only. -/
def operand (settings : Dict Value) (t : Token) : Except Trap Operand :=
  if t.kind = .number && !isNumeral t.text.toList then .error (.noNumeral t.text)
  else .ok (t.operand settings)

def order (l r : Operand) : Except Trap Ordering :=
  match l.order? r with
  | some o => .ok o
  | none => .error .unordered

/-- The table of the operators that order their operands. -/
def orderTest? : String → Option (Ordering → Bool)
  | "<" => some (· = .lt)
  | ">" => some (· = .gt)
  | "<=" => some Ordering.isLE
  | ">=" => some Ordering.isGE
  | _ => none

/-- Whether an operator holds; a failure to compare is taken for `false`. -/
def compareBy (operator : String) (l r : Operand) : Except Trap Bool :=
  match operator with
  | "==" => .ok (l.equals r)
  | "!=" | "<>" => .ok (!l.equals r)
  | "contains" => .ok (l.contains r)
  | operator => match orderTest? operator with
    | none => .error (.noEntry operator)
    | some test => match order l r with
      | .ok o => .ok (test o)
      | .error .unordered => .ok false
      | .error trap => .error trap

def Comparison.holds (settings : Dict Value) (c : Comparison) : Except Trap Bool := do
  let left ← operand settings c.left
  match c.right with
  | none => return left.isTruthy
  | some (operator, right) => do
    let right ← operand settings right
    compareBy operator left right

/-- The outcome of comparisons and combinators, both from the last one on, after an outcome. -/
def combine (settings : Dict Value) :
    List Comparison → List String → Bool → Except Trap Bool
  | [], [], outcome => .ok outcome
  | c :: comparisons, k :: combinators, outcome => do
    let left ← c.holds settings
    combine settings comparisons combinators
      (if k = "and" then left && outcome else left || outcome)
  | _, _, _ => .error .uneven

def evaluate (settings : Dict Value) (expression : String) : Except Trap Bool := do
  let (comparisons, combinators) ← parse expression
  match comparisons.getLast? with
  | none => .error (.outOfRange 0)
  | some last => do
    let outcome ← last.holds settings
    combine settings comparisons.dropLast.reverse combinators.reverse outcome

/-- Every operator has an entry, and what cannot be compared is no failure. -/
theorem compareBy_text (o : Operator) (l r : Operand) :
    compareBy o.text l r = .ok (o.holds l r) := by
  cases o with
  | less | greater | lessOrEqual | greaterOrEqual =>
    simp only [Operator.text, compareBy, orderTest?, order, Operator.holds]
    cases l.order? r <;> simp
  | _ => rfl

theorem isDigits_iff {s : List Char} :
    isDigits s = true ↔ s ≠ [] ∧ ∀ c ∈ s, Text.isDigit c = true := by
  simp [isDigits]

theorem not_mem_of_isDigit {s : List Char} (h : ∀ c ∈ s, Text.isDigit c = true) : '.' ∉ s := by
  intro hmem
  exact absurd (h '.' hmem) (by decide)

theorem isNumeral_of_isNumeral {s : List Char} (h : Token.IsNumeral s) : isNumeral s = true := by
  cases h with
  | @whole sign digits hsign hne hdigits =>
    have hsplit := Token.takeSign_append_digits hsign hne hdigits []
    rw [List.append_nil, List.append_nil] at hsplit
    rw [isNumeral, hsplit]
    dsimp only
    rw [Text.splitOn_of_not_mem (not_mem_of_isDigit hdigits)]
    exact isDigits_iff.2 ⟨hne, hdigits⟩
  | @pointed sign digits fraction hsign hne hdigits hsome hfraction =>
    rw [isNumeral, Token.takeSign_append_digits hsign hne hdigits]
    dsimp only
    rw [Text.splitOn_append_cons (not_mem_of_isDigit hdigits),
      Text.splitOn_of_not_mem (not_mem_of_isDigit hfraction), Bool.and_eq_true]
    exact ⟨isDigits_iff.2 ⟨hne, hdigits⟩, isDigits_iff.2 ⟨hsome, hfraction⟩⟩

variable {settings : Dict Value}

theorem operand_eq {t : Token} (h : WellFormed t) :
    operand settings t = .ok (t.operand settings) := by
  refine if_neg ?_
  rintro hbad
  rw [Bool.and_eq_true, decide_eq_true_eq, Bool.not_eq_true'] at hbad
  obtain ⟨hkind, hnone⟩ := hbad
  rw [isNumeral_of_isNumeral (h.number hkind)] at hnone
  cases hnone

theorem holds_written {c : Condition.Comparison} (h : ∀ t ∈ c.tokens, WellFormed t) :
    (written c).holds settings = .ok (c.holds settings) := by
  obtain ⟨left, right⟩ := c
  have hleft : operand settings left = .ok (left.operand settings) :=
    operand_eq (h left List.mem_cons_self)
  cases right with
  | none =>
    simp only [written, Comparison.holds, Option.map_none, hleft]
    rfl
  | some p =>
    obtain ⟨o, r⟩ := p
    have hright : operand settings r = .ok (r.operand settings) :=
      operand_eq (h r (by simp [Comparison.tokens]))
    simp only [written, Comparison.holds, Option.map_some, hleft, hright, bind, Except.bind,
      compareBy_text]
    rfl

/-! ### The loop over the comparisons -/

theorem combine_append {cs ds : List Comparison} {ks ls : List String}
    (hlength : cs.length = ks.length) (outcome : Bool) :
    combine settings (cs ++ ds) (ks ++ ls) outcome =
      combine settings cs ks outcome >>= combine settings ds ls := by
  induction cs generalizing ks outcome with
  | nil =>
    cases ks with
    | nil => rfl
    | cons k ks => cases hlength
  | cons c cs ih =>
    cases ks with
    | nil => cases hlength
    | cons k ks =>
      simp only [List.cons_append, combine]
      cases c.holds settings with
      | error trap => rfl
      | ok left => exact ih (Nat.succ.inj hlength) _

theorem combine_single (first : Comparison) (k : Combinator) (outcome : Bool) {left : Bool}
    (h : first.holds settings = .ok left) :
    combine settings [first] [k.text] outcome = .ok (k.apply left outcome) := by
  simp only [combine, h, bind, Except.bind]
  cases k <;> rfl

theorem length_dropLast_comparisons (c : Condition) :
    (c.comparisons.map written).dropLast.reverse.length = (combinators c).reverse.length := by
  simp [comparisons, combinators]

/-- There is one combinator fewer than there are comparisons, and the loop from the last of them on
groups them to the right. -/
theorem combine_comparisons (settings : Dict Value) {c : Condition}
    (hwf : ∀ t ∈ c.tokens, WellFormed t) :
    ∃ last outcome, (c.comparisons.map written).getLast? = some last ∧
      last.holds settings = .ok outcome ∧
      combine settings (c.comparisons.map written).dropLast.reverse (combinators c).reverse
        outcome = .ok (c.holds settings) := by
  induction c using join_induction with
  | single first =>
    rw [tokens_single] at hwf
    exact ⟨written first, first.holds settings, rfl, holds_written hwf, rfl⟩
  | join first k c ih =>
    rw [tokens_join] at hwf
    obtain ⟨hfirst, hmore⟩ := List.forall_mem_append.1 hwf
    obtain ⟨last, outcome, hlast, houtcome, hcombine⟩ := ih (List.forall_mem_cons.1 hmore).2
    have hne : c.comparisons.map written ≠ [] := List.cons_ne_nil _ _
    have hall : (join first k c).comparisons.map written =
        written first :: c.comparisons.map written := rfl
    have hks : (combinators (join first k c)).reverse = (combinators c).reverse ++ [k.text] :=
      List.reverse_cons
    refine ⟨last, outcome, ?_, houtcome, ?_⟩
    · rw [hall, List.getLast?_cons_of_ne_nil hne]
      exact hlast
    · rw [hall, List.dropLast_cons_of_ne_nil hne, List.reverse_cons, hks,
        combine_append (length_dropLast_comparisons c), hcombine]
      exact combine_single (written first) k _ (holds_written hfirst)

/-- An evaluation fails only where there is no condition. -/
theorem evaluate_eq (settings : Dict Value) (expression : String) :
    evaluate settings expression = (Condition.evaluate settings expression).mapError .refused := by
  rw [evaluate, Condition.evaluate, parse_eq]
  cases hparse : Condition.parse expression with
  | error e => rfl
  | ok c =>
    have hwf := wellFormed_of_tokenize (parse_eq_ok_iff.1 hparse).1
    obtain ⟨last, outcome, hlast, houtcome, hcombine⟩ := combine_comparisons settings hwf
    simp only [Except.map, Except.mapError, bind, Except.bind, hlast, houtcome, hcombine]

end Storefront.Condition.Stepwise
