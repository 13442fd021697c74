import Storefront.Yaml.Error

/-!
Tokens of YAML texts.
-/

namespace Storefront.Yaml

inductive ScalarStyle where
  | plain
  | quoted
  | block
  deriving DecidableEq, Repr

/-- A tag as it is written: a handle and a suffix, or in full without a handle. -/
structure TagSource where
  handle : String
  suffix : String
  deriving DecidableEq, Repr

inductive Token where
  | versionDirective (major minor : Nat)
  | tagDirective (handle target : String)
  | otherDirective
  | documentStart
  | documentEnd
  | blockSequenceStart
  | blockMappingStart
  | blockEnd
  | flowSequenceStart
  | flowSequenceEnd
  | flowMappingStart
  | flowMappingEnd
  | blockEntry
  | flowEntry
  | key
  | value
  | alias (name : String)
  | anchor (name : String)
  | tag (source : TagSource)
  | scalar (text : String) (style : ScalarStyle)
  | streamEnd
  /-- The text cannot be read any further. -/
  | fault (e : Error)
  deriving DecidableEq, Repr

end Storefront.Yaml
