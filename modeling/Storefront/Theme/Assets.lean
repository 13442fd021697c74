import Storefront.Asset.Catalog
import Storefront.Asset.Processing
import Storefront.Settings.Store
import Storefront.Theme

/-!
The assets of a theme: what they are processed with, and their texts one after the other.
-/

namespace Storefront.Theme

/-- The files of the assets folder, by name. -/
def assets (theme : Theme) (t : FileTree) : Except Error (List Asset) :=
  ((t.filesIn theme.assetsDirectory fun _ => true).mapError .file).map fun names =>
    names.map Asset.ofFilename

/-- What assets are processed with. -/
def assetContext (theme : Theme) (objects : Asset.Url.Objects) (t : FileTree)
    (urlTemplate : String) (keepBodies : Bool) : Outcome Error Asset.Context := do
  let data ← .ofExcept (theme.settingsData t)
  let schema ← .ofExcept (theme.settingsSchema t)
  let settings ← (Settings.visible data schema).mapError .schema
  return { settings, resolveUrl := Asset.urlFor objects urlTemplate, keepBodies }

/-- The text of an asset, processed if it holds directives. -/
def assetText (theme : Theme) (t : FileTree) (context : Asset.Context) (a : Asset) :
    Outcome Error String := do
  let text ← .ofExcept (t.readText (theme.assetsDirectory.child a.filename))
  if a.isLiquid then (Asset.process context text).mapError .url else return text

/-- The texts of stylesheets and scripts one after the other, each under its name. -/
def bundle (theme : Theme) (t : FileTree) (context : Asset.Context) (assets : List Asset) :
    Outcome Error String := do
  let chunks ← (assets.filter Asset.isText).mapM fun a => do
    return Asset.chunk a.filename (← theme.assetText t context a)
  return "\n".intercalate chunks

end Storefront.Theme
