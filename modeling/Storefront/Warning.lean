import Storefront.Condition.Error
import Storefront.Schema.Error

/-!
What the library warns of and carries on with.
-/

namespace Storefront

inductive Warning where
  | ignoredSchema (source : String) (fault : Schema.Fault)
  | droppedSection (id : String)
  | droppedBlock (id : String)
  | unsupportedCondition (expression : String) (error : Condition.Error)
  | missingPreset (name : String)
  | notAPlainName (sectionType : String)
  | outsideDirectory (sectionType directory : String)
  | otherTemplate (name used : String)

open Text in
def Warning.message : Warning → String
  | .ignoredSchema source fault => s!"Ignoring malformed schema in {source}: {fault.message}"
  | .droppedSection id => s!"Dropping section '{id}' without a type"
  | .droppedBlock id => s!"Dropping block '{id}' without a type"
  | .unsupportedCondition expression error =>
    s!"Treating unsupported asset condition {quoted expression} as false: {error.message}"
  | .missingPreset name => s!"Settings preset '{name}' not found; falling back to defaults"
  | .notAPlainName type => s!"Refusing section type {quoted type}: not a plain file name"
  | .outsideDirectory type directory =>
    s!"Refusing section type {quoted type}: outside {directory}"
  | .otherTemplate name used => s!"Template '{name}' not found; using '{used}'"

end Storefront
