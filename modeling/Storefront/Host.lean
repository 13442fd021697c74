import Storefront.Asset.Url
import Storefront.Yaml.Document

/-!
What commands take from the system that they run on.
-/

namespace Storefront

structure Host where
  /-- The data of a YAML document. -/
  readYaml : List Char → Except Yaml.Error Yaml.Data
  /-- What fields of URL templates can ask for beyond texts. -/
  objects : Asset.Url.Objects
  /-- The text can be written in UTF-8. One with half of a surrogate pair, which an escape in JSON
  can bring, cannot; U+FFFD stands for the half here, so it is left open which texts have one. -/
  encodes : String → Bool
  /-- The console can show the text. -/
  shows : String → Bool
  encodes_of_ascii : ∀ s, (∀ c ∈ s.toList, c.toNat < 0x80) → encodes s = true
  shows_of_ascii : ∀ s, (∀ c ∈ s.toList, c.toNat < 0x80) → shows s = true

/-- Every text that there is can be written and shown, and objects are not looked into. -/
def Host.standard : Host where
  readYaml := Yaml.Data.ofText
  objects := .texts
  encodes _ := true
  shows _ := true
  encodes_of_ascii _ _ := rfl
  shows_of_ascii _ _ := rfl

end Storefront
