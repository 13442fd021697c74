import Storefront.Schema.Color
import Storefront.Schema.Section
import Storefront.Text.Blank
import Storefront.Value.Order

/-!
Issues of setting values against their declarations, and of the declarations of a schema
themselves.
-/

namespace Storefront

inductive Severity where
  | warning
  | error
  deriving DecidableEq, Repr

def Severity.text : Severity → String
  | .warning => "warning"
  | .error => "error"

/-- What is wrong with a value or a declaration. -/
inductive Complaint where
  | blankSectionName
  | settingWithoutId (position : Nat) (type : String)
  | duplicateSettingId (id : String)
  | duplicateBlockType (type : String)
  | blankBlockName (type : String)
  | notANumber (got : Value)
  | outsideRange (got : Number) (low high : Option Number)
  | notAnOption (got : Value)
  | notAColor (got : String)
  | tooManyItems (count : Nat) (limit : Int)
  | tooManyBlocks (count : Nat) (limit : Int)
  | tooManyOfType (type : String) (count : Nat) (limit : Int)

namespace Complaint

def severity : Complaint → Severity
  | .blankSectionName | .settingWithoutId .. | .duplicateSettingId _ | .duplicateBlockType _
  | .notANumber _ => .error
  | _ => .warning

def boundText : Option Number → String
  | some n => n.text
  | none => "None"

def message : Complaint → String
  | .blankSectionName => "Section name is required"
  | .settingWithoutId position type => s!"Setting {position} ({type}) has no id"
  | .duplicateSettingId id => s!"Duplicate setting id '{id}'"
  | .duplicateBlockType type => s!"Duplicate block type '{type}'"
  | .blankBlockName type => s!"Block type '{type}' has no name"
  | .notANumber got => s!"Value {got.literal} is not a number"
  | .outsideRange got low high =>
    s!"Value {got.text} is outside range [{boundText low}, {boundText high}]"
  | .notAnOption got => s!"Value \"{got.text}\" is not a valid option"
  | .notAColor got => s!"Invalid color format: {got}"
  | .tooManyItems count limit => s!"{count} items selected; at most {limit} allowed"
  | .tooManyBlocks count limit => s!"Section has {count} blocks; at most {limit} allowed"
  | .tooManyOfType type count limit =>
    s!"Block type '{type}' used {count} times; limit is {limit}"

end Complaint

/-- A complaint about what `subject` names: a setting, a block's setting or a part of a schema. -/
structure Issue where
  subject : String
  complaint : Complaint

namespace Setting

def isBelow (n : Number) : Option Number → Bool
  | some bound => n.order? bound = some .lt
  | none => false

def isAbove (n : Number) : Option Number → Bool
  | some bound => n.order? bound = some .gt
  | none => false

/-- What is wrong with a value of the kind. -/
def Kind.complaint? : Kind → Value → Option Complaint
  | .range low high _ _, .number n =>
    if isBelow n low || isAbove n high then some (.outsideRange n low high) else none
  | .range .., v => some (.notANumber v)
  | .choice options, v =>
    if v.isFilled && !options.isEmpty && !v.memberOf (options.map (·.value)) then
      some (.notAnOption v)
    else none
  | .color, .str s => if s ≠ "" && !Schema.isColor s then some (.notAColor s) else none
  | .resourceList (some limit), .list items =>
    if limit < items.length then some (.tooManyItems items.length limit) else none
  | _, _ => none

/-- The issue of the value that the setting has, if it has one that is not null. -/
def issue? (values : Dict Value) (s : Setting) : Option Issue :=
  match s.id? with
  | none => none
  | some id => match values.get? id with
    | none | some .null => none
    | some v => (s.kind.complaint? v).map (Issue.mk id)

/-- The issues of setting values, in the order of the declarations. -/
def issues (values : Dict Value) (settings : List Setting) : List Issue :=
  settings.filterMap (issue? values)

/-- The issues of the ids of declarations, of which the first has the number `position` and which
follow those of the ids `seen`. -/
def idIssues (scope : String) (seen : List String) (position : Nat) : List Setting → List Issue
  | [] => []
  | s :: settings =>
    if s.isDisplay then idIssues scope seen (position + 1) settings
    else match s.id? with
      | none =>
        ⟨s!"{scope}settings[{position}]", .settingWithoutId position s.type⟩ ::
          idIssues scope seen (position + 1) settings
      | some id =>
        let rest := idIssues scope (id :: seen) (position + 1) settings
        if seen.contains id then ⟨scope ++ id, .duplicateSettingId id⟩ :: rest else rest

end Setting

namespace BlockDefinition

/-- The issues of block definitions that follow those of the types `seen`. -/
def issues (seen : List String) : List BlockDefinition → List Issue
  | [] => []
  | b :: blocks =>
    (if seen.contains b.type then [⟨"blocks", .duplicateBlockType b.type⟩] else []) ++
    (if Text.trimmed b.name = "" then [⟨"blocks", .blankBlockName b.type⟩] else []) ++
    Setting.idIssues (b.type ++ ".") [] 1 b.settings ++ issues (b.type :: seen) blocks

end BlockDefinition

/-- The issues of a schema's own declarations. -/
def SectionSchema.issues (s : SectionSchema) : List Issue :=
  (if Text.trimmed s.name = "" then [⟨"name", .blankSectionName⟩] else []) ++
  Setting.idIssues "" [] 1 s.settings ++ BlockDefinition.issues [] s.blocks

end Storefront
