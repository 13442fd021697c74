import Std.Time.DateTime
import Storefront.Command.Arguments

/-!
The command line program: it reads the files that a command may look at, runs the command, and
writes the files that the command leaves.
-/

namespace Storefront

/-- What is known of the disk: a tree of files, and the directories read in full. -/
structure Disk where
  tree : FileTree
  read : List Location

namespace Disk

/-- A location as an entry of the root directory. -/
def entryAt (place : Location) : IO.FS.DirEntry where
  root := "/"
  fileName := "/" ++ "/".intercalate place

/-- The disk with the entry at a location, but nothing below it. Links that lead nowhere are left
out. -/
def look (d : Disk) (place : Location) : IO Disk := do
  if (d.tree.entry? place).isSome then return d
  let path := (entryAt place).path
  let found (e : Entry) : Disk := { d with tree := d.tree.set place e }
  try
    match (← path.symlinkMetadata).type with
    | .dir => return found .directory
    | .file => return found (.file (← IO.FS.readBinFile path))
    | .symlink => return found (.link (.ofString (toString (← IO.FS.realPath path))))
    | .other => return d
  catch _ => return d

mutual

/-- The disk with all that stands below a location. -/
partial def readBelow (d : Disk) (place : Location) : IO Disk := do
  if place ∈ d.read || !d.tree.isDirectoryAt place then return d
  let mut d := { d with read := place :: d.read }
  for e in ← (entryAt place).path.readDir do
    d ← d.readAlong place [e.fileName]
  return d

/-- The disk with the entries of names from a location on, and all that stands below the last. -/
partial def readAlong (d : Disk) (here : Location) : List String → IO Disk
  | [] => d.readBelow here
  | ".." :: names => d.readAlong here.dropLast names
  | name :: names => do
    let d ← d.look (here ++ [name])
    match d.tree.entry? (here ++ [name]) with
    | some (.link target) => d.readAlong [] (target.names ++ names)
    | _ => d.readAlong (here ++ [name]) names

end

def readPath (d : Disk) (p : Path) : IO Disk := d.readAlong (d.tree.startOf p) p.names

/-- The paths of the files that a command looks at beside the theme. -/
def pathsOf (options : Command.Options) : Command → List Path
  | .asset path => options.config :: path :: options.output.toList
  | _ => options.config :: options.output.toList

/-- The files that a command may look at. -/
def ofCommand (options : Command.Options) (command : Command) : IO Disk := do
  let home := (Path.ofString (toString (← IO.currentDir))).names
  let mut d : Disk := ⟨{ workingDirectory := home, entries := [] }, []⟩
  for p in pathsOf options command do
    d ← d.readPath p
  match Command.resolveConfig .standard d.tree options with
  | .ok config => (← d.readPath config.themeDirectory).readPath config.reportOutput
  | .error _ => return d

/-- Writes what a tree holds that was not there before. -/
def write (d : Disk) (t : FileTree) : IO Unit := do
  for (place, e) in t.entries do
    let path := (entryAt place).path
    match e, d.tree.entry? place with
    | .file bytes, some (.file old) =>
      if bytes.toList ≠ old.toList then IO.FS.writeBinFile path bytes
    | .file bytes, _ => IO.FS.writeBinFile path bytes
    | .directory, none => IO.FS.createDir path
    | _, _ => pure ()

end Disk

/-- The time now, to the minute. -/
def currentTime : IO String := do
  let now := Std.Time.DateTime.ofTimestampWithZone (← Std.Time.Timestamp.now) Std.Time.TimeZone.UTC
  let moment : Report.Moment := {
    year := now.year.toInt
    month := now.month.toNat
    day := now.day.toNat
    hour := now.hour.toNat
    minute := now.minute.toNat }
  return moment.text

/-- Runs a command and shows what it gives: 0 is success. -/
def runCommand (options : Command.Options) (command : Command) : IO UInt32 := do
  let disk ← Disk.ofCommand options command
  let (result, console) := Command.run .standard disk.tree options command
  disk.write console.tree
  for warning in console.warnings do
    IO.eprintln s!"WARNING: {warning.message}"
  IO.print console.printed
  match result with
  | .ok () => return 0
  | .error e => IO.eprintln e.message; return 1

end Storefront

open Storefront in
/-- Runs the command that the arguments give. Arguments that give none end in 2. -/
def main (arguments : List String) : IO UInt32 := do
  match Arguments.read (← currentTime) arguments with
  | .ok (options, command) => runCommand options command
  | .error e => IO.eprintln e.message; return 2
