import Storefront.Text.Quoted

/-!
What can be wrong with a condition.
-/

namespace Storefront.Condition

inductive Error where
  | unexpectedInput (position : Nat) (expression : String)
  | empty
  | notACombinator (found expression : String)
  | endsWith (expression combinator : String)
  | notAValue (found expression : String)
  | missingOperand (operator : String)
  | notAnOperand (operator expression : String)
  deriving DecidableEq, Repr

open Text in
def Error.message : Error → String
  | .unexpectedInput position expression =>
    s!"Unexpected input at {position} in condition {quoted expression}"
  | .empty => "Condition is empty"
  | .notACombinator found expression =>
    s!"Expected 'and' or 'or' but found {quoted found} in {quoted expression}"
  | .endsWith expression combinator =>
    s!"Condition {quoted expression} ends with {quoted combinator}"
  | .notAValue found expression =>
    s!"Expected a value but found {quoted found} in {quoted expression}"
  | .missingOperand operator => s!"Operator {quoted operator} is missing its right operand"
  | .notAnOperand operator expression =>
    s!"Expected a value after {quoted operator} in {quoted expression}"

end Storefront.Condition
