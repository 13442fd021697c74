import Storefront.Document.Reading
import Storefront.Error
import Storefront.Text.Lines
import Storefront.Text.Order

/-!
What the files of a tree hold: text, JSON documents, and the names in a directory.
-/

namespace Storefront

namespace FileTree

/-- The text of a file. -/
def readText (t : FileTree) (p : Path) : Except Error String :=
  match t.bytes p with
  | .error e => .error (.file e)
  | .ok bytes => match Text.ofBytes? bytes with
    | some s => .ok s
    | none => .error .notText

/-- The text of a file, none where there is no file. -/
def readText? (t : FileTree) (p : Path) : Except Error (Option String) := do
  if ← (t.isFile p).mapError .file then return some (← t.readText p) else return none

/-- The value in the JSON file of a path, none where there is no file. -/
def readJson? (t : FileTree) (p : Path) : Except Error (Option Value) := do
  match ← t.readText? p with
  | none => return none
  | some text => return some (← (Document.decode p.text text).mapError .document)

/-- The names of a directory's files that pass the test, sorted; none where there is no directory.
Of the other names it is not asked whether they are files. -/
def filesIn (t : FileTree) (directory : Path) (p : String → Bool) :
    Except FileTrouble (List String) := do
  if ← t.isDirectory directory then
    let names ← t.namesIn directory
    let files ← (names.filter p).filterM fun name => t.isFile (directory.child name)
    return Text.sorted files
  else return []

end FileTree

end Storefront
