import Storefront.FileTree.Path

/-!
Trees of files, directories and symbolic links, with a working directory. A location is the names
from the root to an entry, none of them a link on the way; a path is resolved to a location by
following its links.
-/

namespace Storefront

abbrev Location := List String

inductive Entry where
  | file (bytes : ByteArray)
  | link (target : Path)
  | directory

/-- Why a file cannot be reached, read or written. -/
inductive FileTrouble where
  | notFound
  | notADirectory
  | isADirectory
  | alreadyThere
  | tooManyLinks
  | nameTooLong
  /-- The system refuses a name before it looks at anything. -/
  | unusableName
  deriving DecidableEq, Repr

/-- The entries by location. The working directory and all above it are directories. -/
structure FileTree where
  workingDirectory : Location
  entries : List (Location × Entry)
  /-- The names that the system cannot be asked for: those with a null character, and others that
  it cannot encode. -/
  refuses : String → Bool := fun name => name.toList.contains '\x00'

namespace FileTree

def entry? (t : FileTree) (place : Location) : Option Entry :=
  if place.isPrefixOf t.workingDirectory then some .directory
  else (t.entries.find? (·.1 = place)).map (·.2)

def isDirectoryAt (t : FileTree) (place : Location) : Bool :=
  match t.entry? place with
  | some .directory => true
  | _ => false

theorem isDirectoryAt_iff {t : FileTree} {place : Location} :
    t.isDirectoryAt place = true ↔ t.entry? place = some .directory := by
  rw [isDirectoryAt]
  split <;> simp_all

/-- How names are followed that are not there. -/
inductive Mode where
  /-- All names have to exist. -/
  | existing
  /-- The last name may be new. -/
  | creating
  deriving DecidableEq

/-- Where the names of a path start that is seen from a location. -/
def startFrom (here : Location) (p : Path) : Location := if p.isAbsolute then [] else here

def startOf (t : FileTree) (p : Path) : Location := startFrom t.workingDirectory p

def maxNameLength : Nat := 255

/-- The location of names seen from a location; `follow` goes on at a link. -/
def walkWith (t : FileTree) (mode : Mode)
    (follow : Location → List String → Except FileTrouble Location) :
    Location → List String → Except FileTrouble Location
  | here, [] => .ok here
  | here, name :: names =>
    if !t.isDirectoryAt here then .error .notADirectory
    else if name = ".." then walkWith t mode follow here.dropLast names
    else if maxNameLength < name.utf8ByteSize then .error .nameTooLong
    else match t.entry? (here ++ [name]) with
      | some (.link target) => follow (startFrom here target) (target.names ++ names)
      | some _ => walkWith t mode follow (here ++ [name]) names
      | none => match mode with
        | .existing => .error .notFound
        | .creating => if names.isEmpty then .ok (here ++ [name]) else .error .notFound

/-- The location of names seen from a location, through at most `links` links. -/
def walk (t : FileTree) (mode : Mode) : Nat → Location → List String →
    Except FileTrouble Location
  | 0 => walkWith t mode fun _ _ => .error .tooManyLinks
  | links + 1 => walkWith t mode (walk t mode links)

def maxLinks : Nat := 40

/-- The system can be asked for the path. -/
def takes (t : FileTree) (p : Path) : Bool := p.names.all (!t.refuses ·)

def locate (t : FileTree) (mode : Mode) (p : Path) : Except FileTrouble Location :=
  if t.takes p then t.walk mode maxLinks (t.startOf p) p.names else .error .unusableName

theorem locate_eq_ok_iff {t : FileTree} {mode : Mode} {p : Path} {place : Location} :
    t.locate mode p = .ok place ↔
      t.takes p = true ∧ t.walk mode maxLinks (t.startOf p) p.names = .ok place := by
  rw [locate]
  split <;> simp_all

/-- The location of names seen from a location, where names that do not exist are taken as they
stand; `follow` gives the location of a link's target. -/
def resolveWith (t : FileTree) (follow : Location → List String → Option Location) :
    Location → List String → Option Location
  | here, [] => some here
  | here, name :: names =>
    if name = ".." then resolveWith t follow here.dropLast names
    else match t.entry? (here ++ [name]) with
      | some (.link target) => do
        let place ← follow (startFrom here target) target.names
        resolveWith t follow place names
      | _ => resolveWith t follow (here ++ [name]) names

/-- The same through links whose targets lead through others, at most `depth` of them within one
another. -/
def resolveIn (t : FileTree) : Nat → Location → List String → Option Location
  | 0 => resolveWith t fun _ _ => none
  | depth + 1 => resolveWith t (resolveIn t depth)

/-- The locations of the links. -/
def links (t : FileTree) : List Location :=
  t.entries.filterMap fun (place, e) => match e with
    | .link _ => some place
    | _ => none

/-- The location of a path, whether or not something is there. There is none where links lead in a
circle, as those do that lie deeper within one another than there are links. -/
def resolve (t : FileTree) (p : Path) : Option Location :=
  t.resolveIn t.links.length (t.startOf p) p.names

/-- The entry that a path leads to. -/
def find (t : FileTree) (p : Path) : Except FileTrouble Entry := do
  match t.entry? (← t.locate .existing p) with
  | some e => return e
  | none => .error .notFound

/-- Whether the entry of a path passes the test. A path that leads nowhere does not; one with a
name that is too long cannot be asked about. -/
def passes (t : FileTree) (p : Path) (test : Entry → Bool) : Except FileTrouble Bool :=
  match t.find p with
  | .ok e => .ok (test e)
  | .error .nameTooLong => .error .nameTooLong
  | .error _ => .ok false

def doesExist (t : FileTree) (p : Path) : Except FileTrouble Bool := t.passes p fun _ => true

def isFile (t : FileTree) (p : Path) : Except FileTrouble Bool :=
  t.passes p fun
    | .file _ => true
    | _ => false

def isDirectory (t : FileTree) (p : Path) : Except FileTrouble Bool :=
  t.passes p fun
    | .directory => true
    | _ => false

def bytes (t : FileTree) (p : Path) : Except FileTrouble ByteArray := do
  match ← t.find p with
  | .file bytes => return bytes
  | _ => .error .isADirectory

/-- The names of the entries of a directory. -/
def namesIn (t : FileTree) (p : Path) : Except FileTrouble (List String) := do
  let here ← t.locate .existing p
  return t.entries.filterMap fun (place, _) =>
    if here.isPrefixOf place && place.length = here.length + 1 then place.getLast? else none

/-- The tree with an entry at a location, in place of the one that was there. -/
def set (t : FileTree) (place : Location) (e : Entry) : FileTree :=
  { t with entries := t.entries.filter (·.1 ≠ place) ++ [(place, e)] }

/-- The tree without the entry at a location and all below it. -/
def erase (t : FileTree) (place : Location) : FileTree :=
  { t with entries := t.entries.filter (!place.isPrefixOf ·.1) }

/-- The location of a path whose last name is not followed and may be new. -/
def locateLast (t : FileTree) (p : Path) : Except FileTrouble Location := do
  match p.names.getLast? with
  | none | some ".." => t.locate .existing p
  | some name =>
    if !t.takes p then .error .unusableName
    else
      let here ← t.locate .existing p.parent
      if !t.isDirectoryAt here then .error .notADirectory
      else if maxNameLength < name.utf8ByteSize then .error .nameTooLong
      else return here ++ [name]

/-- The tree with a new directory; nothing may be there yet. -/
def makeDirectory (t : FileTree) (p : Path) : Except FileTrouble FileTree := do
  let place ← t.locateLast p
  match t.entry? place with
  | some _ => .error .alreadyThere
  | none => return t.set place .directory

/-- A changed tree, and the trouble if not all could be done. -/
abbrev Change := FileTree × Except FileTrouble Unit

/-- Trouble with a new directory does not count where there is a directory already. -/
def settleDirectory (t : FileTree) (p : Path) (trouble : FileTrouble) : Change :=
  (t, match t.isDirectory p with
    | .ok true => .ok ()
    | .ok false => .error trouble
    | .error e => .error e)

/-- The tree with the directory of a path, unless it is there. -/
def ensureDirectory (t : FileTree) (p : Path) : Change :=
  match t.makeDirectory p with
  | .ok t => (t, .ok ())
  | .error trouble => t.settleDirectory p trouble

/-- The tree with the directory of a path and those above it, of which at most `depth` are new. -/
def ensureDirectories : Nat → FileTree → Path → Change
  | depth, t, p => match t.makeDirectory p with
    | .ok t => (t, .ok ())
    | .error .notFound => match depth with
      | 0 => (t, .error .notFound)
      | depth + 1 => match ensureDirectories depth t p.parent with
        | (t, .ok ()) => t.ensureDirectory p
        | change => change
    | .error trouble => t.settleDirectory p trouble

/-- The tree with an empty file at a path, whose directory has to be there, and the location of the
file. -/
def openFile (t : FileTree) (p : Path) : Except FileTrouble (FileTree × Location) := do
  let place ← t.locate .creating p
  match t.entry? place with
  | some .directory => .error .isADirectory
  | _ => return (t.set place (.file .empty), place)

/-- The directories above a path are made. -/
def makeParents (t : FileTree) (p : Path) : Change := t.ensureDirectories p.names.length p.parent

/-- A path as seen from the working directory, where it leads below it. -/
def shownPath (t : FileTree) (p : Path) : String :=
  if p.slashes = 1 && t.workingDirectory.isPrefixOf p.names then
    { p with slashes := 0, names := p.names.drop t.workingDirectory.length }.text
  else p.text

end FileTree

end Storefront
