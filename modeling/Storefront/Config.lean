import Storefront.FileTree.Path

/-!
Project configurations: where the theme lies, and how its pages and assets are rendered.
-/

namespace Storefront

structure Config where
  themeDirectory : Path
  /-- The template that is composed where none is named. -/
  template : String
  assetUrlTemplate : String
  /-- Every body of a conditional in an asset is kept whole. -/
  legacyConditionals : Bool
  reportOutput : Path

namespace Config

def defaultTemplate : String := "index"

def defaultThemeDirectory : String := "theme"

def defaultUrlTemplate : String := "/assets/\x7bfilename\x7d"

def defaultReportOutput : String := "public/report.html"

/-- The configuration of a project that has none. -/
def standard : Config where
  themeDirectory := .ofString defaultThemeDirectory
  template := defaultTemplate
  assetUrlTemplate := defaultUrlTemplate
  legacyConditionals := false
  reportOutput := .ofString defaultReportOutput

/-- The file that is read where no other is named. -/
def defaultPath : Path := .ofString "theme-pages.yaml"

end Config

end Storefront
