/-!
What can be wrong with a YAML text.
-/

namespace Storefront.Yaml

inductive Error where
  /-- The text is no YAML, or no single document of known tags, keys and aliases. -/
  | malformed
  /-- The number of an escape lies beyond the last character. -/
  | noSuchCharacter
  /-- The number of an escape takes more than 31 bits. -/
  | escapeTooLarge
  /-- A scalar has the form of a number or a date and is none. -/
  | impossibleScalar
  /-- A key is a list that holds what cannot be a key. -/
  | unusableKey
  deriving DecidableEq, Repr

end Storefront.Yaml
