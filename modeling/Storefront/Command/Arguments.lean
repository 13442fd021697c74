import Storefront.Command

/-!
The arguments of the command line: a command, its options, and for an asset its path. An option has
its value in the next argument or after an equals sign.
-/

namespace Storefront

/-- The arguments after the command. -/
structure Arguments where
  /-- Options with their values, the last one first. -/
  options : List (String × String)
  asJson : Bool
  paths : List String

/-- Why arguments are refused. -/
inductive Arguments.Error where
  | noCommand
  | unknownCommand (name : String)
  | unknownOption (name : String)
  | noValue (option : String)
  | unknownKind (kind : String)
  | noPath
  | tooManyPaths

namespace Arguments

def Error.message : Error → String
  | .noCommand => "A command is missing: compose, validate, sections, asset, bundle or report."
  | .unknownCommand name => s!"Unknown command {Text.quoted name}."
  | .unknownOption name => s!"Unknown option {Text.quoted name}."
  | .noValue option => s!"Option {Text.quoted option} has no value."
  | .unknownKind kind => s!"Unknown kind of assets {Text.quoted kind}: it is css or js."
  | .noPath => "The path of an asset is missing."
  | .tooManyPaths => "There are too many arguments."

def isOption (argument : String) : Bool := "--".toList.isPrefixOf argument.toList

/-- An option with its value after an equals sign is two arguments. -/
def separate (argument : String) : List String :=
  match isOption argument, argument.toList.span (· ≠ '=') with
  | true, (name, _ :: value) => [.ofList name, .ofList value]
  | _, _ => [argument]

/-- The arguments in order, where only `allowed` options have a place. -/
def collect (allowed : List String) : Arguments → List String → Except Error Arguments
  | a, [] => .ok a
  | a, "--json" :: rest =>
    if "--json" ∈ allowed then collect allowed { a with asJson := true } rest
    else .error (.unknownOption "--json")
  | a, argument :: rest =>
    if !isOption argument then collect allowed { a with paths := a.paths ++ [argument] } rest
    else if argument ∉ allowed then .error (.unknownOption argument)
    else match rest with
      | [] => .error (.noValue argument)
      | value :: rest => collect allowed { a with options := (argument, value) :: a.options } rest

def value? (a : Arguments) (option : String) : Option String :=
  (a.options.find? (·.1 = option)).map (·.2)

/-- What the arguments tell any command. -/
def common (a : Arguments) : Command.Options where
  config := ((a.value? "--config").map Path.ofString).getD Config.defaultPath
  themeDirectory := (a.value? "--theme-dir").map .ofString
  template := a.value? "--template"
  output := (a.value? "--output").map .ofString

/-- The options of a command, or nothing if there is no such command. -/
def optionsOf? : String → Option (List String)
  | "compose" => some ["--template", "--config", "--theme-dir", "--output"]
  | "validate" => some ["--template", "--config", "--theme-dir", "--json"]
  | "sections" => some ["--config", "--theme-dir"]
  | "asset" => some ["--config", "--theme-dir", "--output"]
  | "bundle" => some ["--kind", "--config", "--theme-dir", "--output"]
  | "report" => some ["--template", "--config", "--theme-dir", "--output"]
  | _ => none

def assetCommand (a : Arguments) : Except Error Command :=
  match a.paths with
  | [] => .error .noPath
  | [path] => .ok (.asset (.ofString path))
  | _ => .error .tooManyPaths

def bundleCommand (a : Arguments) : Except Error Command :=
  match a.value? "--kind" with
  | none | some "css" => .ok (.bundle true)
  | some "js" => .ok (.bundle false)
  | some kind => .error (.unknownKind kind)

/-- The command of a name with its arguments; a report says that it is of the time `generated`. -/
def commandOf (generated name : String) (a : Arguments) : Except Error Command :=
  if name = "asset" then a.assetCommand
  else if !a.paths.isEmpty then .error .tooManyPaths
  else match name with
    | "compose" => .ok .compose
    | "validate" => .ok (.validate a.asJson)
    | "sections" => .ok .sections
    | "bundle" => a.bundleCommand
    | "report" => .ok (.report generated)
    | _ => .error (.unknownCommand name)

/-- The command that the words of a command line give, with its options. -/
def read (generated : String) : List String → Except Error (Command.Options × Command)
  | [] => .error .noCommand
  | name :: rest => match optionsOf? name with
    | none => .error (.unknownCommand name)
    | some allowed => do
      let a ← collect allowed ⟨[], false, []⟩ (rest.flatMap separate)
      return (a.common, ← a.commandOf generated name)

end Arguments

end Storefront
