import Storefront.Condition.Token

/-!
Conditions: comparisons joined by `and` and `or`. A comparison is one operand, or two with an
operator between them.
-/

namespace Storefront

namespace Condition

inductive Operator where
  | equal
  | notEqual
  /-- The second spelling of `notEqual`. -/
  | unequal
  | less
  | greater
  | lessOrEqual
  | greaterOrEqual
  | contains
  deriving DecidableEq, Repr

namespace Operator

def text : Operator → String
  | .equal => "=="
  | .notEqual => "!="
  | .unequal => "<>"
  | .less => "<"
  | .greater => ">"
  | .lessOrEqual => "<="
  | .greaterOrEqual => ">="
  | .contains => "contains"

/-- The operator that a token stands for. -/
def ofToken? (t : Token) : Option Operator :=
  match t.kind, t.text with
  | .operator, "==" => some .equal
  | .operator, "!=" => some .notEqual
  | .operator, "<>" => some .unequal
  | .operator, "<" => some .less
  | .operator, ">" => some .greater
  | .operator, "<=" => some .lessOrEqual
  | .operator, ">=" => some .greaterOrEqual
  | .word, "contains" => some .contains
  | _, _ => none

end Operator

inductive Combinator where
  | and
  | or
  deriving DecidableEq, Repr

namespace Combinator

def text : Combinator → String
  | .and => "and"
  | .or => "or"

def ofToken? (t : Token) : Option Combinator :=
  match t.kind, t.text with
  | .word, "and" => some .and
  | .word, "or" => some .or
  | _, _ => none

end Combinator

/-- An operand, or two with an operator. -/
structure Comparison where
  left : Token
  right : Option (Operator × Token)
  deriving DecidableEq, Repr

end Condition

/-- A comparison and the ones joined to it, each after its combinator. -/
structure Condition where
  first : Condition.Comparison
  rest : List (Condition.Combinator × Condition.Comparison)
  deriving DecidableEq, Repr

namespace Condition

/-- The comparison at the start of the tokens and what follows it. -/
def takeComparison (expression : String) : List Token → Except Error (Comparison × List Token)
  | [] => .error .empty
  | left :: tokens =>
    if left.kind = .operator || (Combinator.ofToken? left).isSome then
      .error (.notAValue left.text expression)
    else match tokens with
      | [] => .ok (⟨left, none⟩, [])
      | t :: tokens => match Operator.ofToken? t with
        | none => .ok (⟨left, none⟩, t :: tokens)
        | some operator => match tokens with
          | [] => .error (.missingOperand t.text)
          | right :: tokens =>
            if right.kind = .operator then .error (.notAnOperand t.text expression)
            else .ok (⟨left, some (operator, right)⟩, tokens)

/-- The condition that the tokens form. Each comparison takes at least one of `fuel` tokens. -/
def ofTokens (expression : String) : Nat → List Token → Except Error Condition
  | 0, _ => .error .empty
  | fuel + 1, tokens => do
    let (comparison, tokens) ← takeComparison expression tokens
    match tokens with
    | [] => return ⟨comparison, []⟩
    | t :: tokens => match Combinator.ofToken? t with
      | none => .error (.notACombinator t.text expression)
      | some combinator =>
        if tokens.isEmpty then .error (.endsWith expression t.text)
        else do
          let condition ← ofTokens expression fuel tokens
          return ⟨comparison, (combinator, condition.first) :: condition.rest⟩

/-- The condition that an expression states. -/
def parse (expression : String) : Except Error Condition := do
  let tokens ← tokenize expression
  ofTokens expression tokens.length tokens

end Condition

end Storefront
