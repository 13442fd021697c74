import Storefront.Asset.Url.Value

/-!
URLs of assets by a template. The file name that its fields stand for is quoted by percent signs.
-/

namespace Storefront.Asset

namespace Url

def isUnreserved (b : UInt8) : Bool :=
  let c := Char.ofNat b.toNat
  c.isAlphanum || c = '_' || c = '.' || c = '-' || c = '~' || c = '/'

/-- A byte as a percent sign and two hexadecimal digits, unless it may stand in a path. -/
def quoteByte (b : UInt8) : List Char :=
  if isUnreserved b then [Char.ofNat b.toNat] else '%' :: (Text.hex 2 b.toNat).map Char.toUpper

/-- The text with all bytes quoted that may not stand in a path. -/
def quote (s : String) : List Char := s.toUTF8.toList.flatMap quoteByte

end Url

/-- The URL that a template gives a file name. -/
def urlFor (objects : Url.Objects) (template filename : String) : Except UrlError String :=
  (Url.expand objects (Url.quote filename) Url.maxDepth template.toList).map String.ofList

end Storefront.Asset
