import Storefront.Proofs.Number.Range
import Storefront.Schema.Reading

/-!
What the reading of a schema demands of its payload, place by place in the order of reading. The
first demand that is not met decides how the reading fails.
-/

namespace Storefront

namespace Schema

/-- What is demanded of one place of a payload. -/
inductive Demand where
  /-- A shape, which the place has or has not. -/
  | shape (met : Bool)
  /-- A finite number or null at a place that holds `v`. -/
  | number (v : Value)

namespace Demand

def met : Demand → Bool
  | .shape met => met
  | .number .null => true
  | .number (.number (.int n)) => n.natAbs < Number.binary64Limit
  | .number (.number (.float x)) => x.isFinite
  | .number _ => false

/-- The integer at the place, if it is beyond all floating-point numbers. -/
def oversized? : Demand → Option Int
  | .number (.number (.int n)) => if n.natAbs < Number.binary64Limit then none else some n
  | _ => none

end Demand

def firstUnmet? (demands : List Demand) : Option Demand := demands.find? (!·.met)

theorem firstUnmet?_append (ds es : List Demand) :
    firstUnmet? (ds ++ es) = (firstUnmet? ds).or (firstUnmet? es) :=
  List.find?_append

/-- A reading that follows the demands: it succeeds if all are met, and else it fails as the first
unmet one has it. -/
def Follows {α : Type} (demands : List Demand) (r : Except Error α) : Prop :=
  match firstUnmet? demands with
  | none => ∃ a, r = .ok a
  | some d =>
    if d.oversized?.isSome then r = .error .integerTooLarge
    else ∃ fault, r = .error (.malformed fault)

namespace Follows

variable {α β : Type} {ds es : List Demand} {x : Except Error α} {f : α → Except Error β}

theorem ok (a : α) : Follows [] (.ok a) := ⟨a, rfl⟩

theorem fail (fault : Fault) : Follows [.shape false] (Schema.fail fault : Except Error α) :=
  ⟨fault, rfl⟩

/-- What is read later fails only where all demands before it are met. -/
theorem bind (hx : Follows ds x) (hf : ∀ a, x = .ok a → Follows es (f a)) :
    Follows (ds ++ es) (x >>= f) := by
  rw [Follows, firstUnmet?_append]
  rw [Follows] at hx
  cases hd : firstUnmet? ds with
  | none =>
    rw [hd] at hx
    obtain ⟨a, rfl⟩ := hx
    rw [Option.none_or]
    exact hf a rfl
  | some d =>
    rw [hd] at hx
    rw [Option.some_or]
    cases hover : d.oversized?.isSome with
    | true =>
      simp only [hover, if_true] at hx ⊢
      rw [hx]
      rfl
    | false =>
      simp only [hover, Bool.false_eq_true, if_false] at hx ⊢
      obtain ⟨fault, rfl⟩ := hx
      exact ⟨fault, rfl⟩

theorem map (hx : Follows ds x) (g : α → β) : Follows ds (do return g (← x)) := by
  have hbind : Follows (ds ++ []) (do return g (← x)) := hx.bind fun a _ => ok (g a)
  rwa [List.append_nil] at hbind

/-- Only an oversized integer as the first unmet demand fails beyond recovery. -/
theorem aborts_or (hx : Follows ds x) :
    (((firstUnmet? ds).bind Demand.oversized?).isSome = true ∧ x = .error .integerTooLarge) ∨
      ((firstUnmet? ds).bind Demand.oversized?).isSome = false ∧
        ((∃ a, x = .ok a) ∨ ∃ fault, x = .error (.malformed fault)) := by
  rw [Follows] at hx
  cases hd : firstUnmet? ds with
  | none =>
    rw [hd] at hx
    exact .inr ⟨rfl, .inl hx⟩
  | some d =>
    rw [hd] at hx
    rw [Option.bind_some]
    cases hover : d.oversized?.isSome with
    | true =>
      simp only [hover, if_true] at hx
      exact .inl ⟨rfl, hx⟩
    | false =>
      simp only [hover, Bool.false_eq_true, if_false] at hx
      exact .inr ⟨rfl, .inr hx⟩

theorem shape_true (hx : Follows ds x) : Follows (.shape true :: ds) x := hx

end Follows

/-! ### Single places -/

theorem follows_of_met {α : Type} {d : Demand} {r : Except Error α} (h : d.met = true)
    (hr : ∃ a, r = .ok a) : Follows [d] r := by
  have hfirst : firstUnmet? [d] = none := List.find?_eq_none.2 (by simp [h])
  rwa [Follows, hfirst]

theorem follows_of_unmet {α : Type} {d : Demand} {r : Except Error α} (h : d.met = false)
    (hr : if d.oversized?.isSome then r = .error .integerTooLarge
      else ∃ fault, r = .error (.malformed fault)) : Follows [d] r := by
  have hfirst : firstUnmet? [d] = some d := List.find?_cons_of_pos (by simp [h])
  rwa [Follows, hfirst]

theorem follows_number? (place : String) (v : Value) : Follows [.number v] (number? place v) := by
  cases v with
  | null => exact follows_of_met rfl ⟨none, rfl⟩
  | number n =>
    cases n with
    | int n =>
      rw [number?]
      by_cases hn : n.natAbs < Number.binary64Limit
      · rw [if_pos ((Number.fitsBinary64_iff n).2 hn)]
        exact follows_of_met (decide_eq_true hn) ⟨_, rfl⟩
      · rw [if_neg fun h => hn ((Number.fitsBinary64_iff n).1 h)]
        refine follows_of_unmet (decide_eq_false hn) ?_
        rw [Demand.oversized?, if_neg hn]
        rfl
    | float x =>
      rw [number?]
      cases hx : x.isFinite with
      | true => exact follows_of_met hx ⟨_, rfl⟩
      | false => exact follows_of_unmet hx ⟨_, rfl⟩
  | _ => exact follows_of_unmet rfl ⟨_, rfl⟩

theorem follows_integer? (place : String) (v : Value) : Follows [.number v] (integer? place v) :=
  (follows_number? place v).map _

/-- An object or null. -/
def isFields : Value → Bool
  | .null | .map _ => true
  | _ => false

theorem follows_fieldsOf (place : String) (v : Value) :
    Follows [.shape (isFields v)] (fieldsOf place v) := by
  cases v with
  | null | map fields => exact (Follows.ok _).shape_true
  | _ => exact Follows.fail _

/-- The demands of all items of a list; null counts as an empty one. -/
def listDemands (demands : Value → List Demand) : Value → List Demand
  | .null => []
  | .list items => items.flatMap demands
  | _ => [.shape false]

end Schema

open Schema Value

/-! ### Settings -/

namespace Setting

def Family.demands (fields : Dict Value) : Family → List Demand
  | .number => [.number (field fields "placeholder")]
  | .range =>
    [.number (field fields "min"), .number (field fields "max"), .number (field fields "step")]
  | .resourceList => [.number (field fields "limit")]
  | _ => []

theorem Family.follows_read (label : String) (fields : Dict Value) (family : Family) :
    Follows (family.demands fields) (family.read label fields) := by
  cases family with
  | number => exact (follows_number? _ _).map _
  | range =>
    exact (follows_number? _ _).bind fun low _ => (follows_number? _ _).bind fun high _ =>
      (follows_number? _ _).map _
  | resourceList => exact (follows_integer? _ _).map _
  | _ => exact Follows.ok _

def demands : Value → List Demand
  | .map fields => match field fields "type" with
    | .str type => if type = "" then [.shape false] else (Family.ofType type).demands fields
    | _ => [.shape false]
  | _ => [.shape false]

theorem follows_ofValue (place : String) (v : Value) : Follows (demands v) (ofValue place v) := by
  cases v with
  | map fields =>
    cases hfield : field fields "type" with
    | str type =>
      simp only [demands, ofValue, hfield]
      by_cases htype : type = ""
      · rw [if_pos htype, if_pos htype]
        exact Follows.fail _
      · rw [if_neg htype, if_neg htype]
        exact (Family.follows_read _ _ _).map _
    | _ =>
      simp only [demands, ofValue, hfield]
      exact Follows.fail _
  | _ => exact Follows.fail _

theorem follows_listOfValues (place : String) (position : Nat) (items : List Value) :
    Follows (items.flatMap demands) (listOfValues place position items) := by
  induction items generalizing position with
  | nil => exact Follows.ok _
  | cons v items ih => exact (follows_ofValue _ v).bind fun s _ => (ih (position + 1)).map _

theorem follows_listOfValue (place : String) (v : Value) :
    Follows (listDemands demands v) (listOfValue place v) := by
  cases v with
  | null => exact Follows.ok _
  | list items => exact follows_listOfValues place 0 items
  | _ => exact Follows.fail _

end Setting

/-! ### Blocks and presets -/

namespace BlockDefinition

def demands : Value → List Demand
  | .map fields =>
    if (field fields "type").isFilled then
      .number (field fields "limit") :: listDemands Setting.demands (field fields "settings")
    else [.shape false]
  | _ => [.shape false]

theorem follows_ofValue (position : Nat) (v : Value) :
    Follows (demands v) (ofValue position v) := by
  cases v with
  | map fields =>
    rw [demands, ofValue]
    by_cases htype : (field fields "type").isFilled = true
    · rw [if_pos htype, if_pos htype]
      exact (follows_integer? _ _).bind fun limit _ => (Setting.follows_listOfValue _ _).map _
    · rw [if_neg htype, if_neg htype]
      exact Follows.fail _
  | _ => exact Follows.fail _

theorem follows_listOfValues (position : Nat) (items : List Value) :
    Follows (items.flatMap demands) (listOfValues position items) := by
  induction items generalizing position with
  | nil => exact Follows.ok _
  | cons v items ih => exact (follows_ofValue _ v).bind fun b _ => (ih (position + 1)).map _

theorem follows_listOfValue (v : Value) : Follows (listDemands demands v) (listOfValue v) := by
  cases v with
  | null => exact Follows.ok _
  | list items => exact follows_listOfValues 0 items
  | _ => exact Follows.fail _

end BlockDefinition

namespace Preset

def blockDemands : Value → List Demand
  | .map fields =>
    if (field fields "type").isFilled then [.shape (isFields (field fields "settings"))] else []
  | _ => []

theorem follows_blocksOfValues (name : String) (items : List Value) :
    Follows (items.flatMap blockDemands) (blocksOfValues name items) := by
  induction items with
  | nil => exact Follows.ok _
  | cons v items ih =>
    cases v with
    | map fields =>
      rw [List.flatMap_cons, blockDemands, blocksOfValues]
      by_cases htype : (field fields "type").isFilled = true
      · rw [if_pos htype, if_pos htype]
        exact (follows_fieldsOf _ _).bind fun settings _ => ih.map _
      · rw [if_neg htype, if_neg htype]
        exact ih
    | _ => exact ih

/-- The blocks are passed over where they are not filled. -/
def blocksDemands (v : Value) : List Demand :=
  if v.isFilled then listDemands blockDemands v else []

theorem follows_blocksOfValue (name : String) (v : Value) :
    Follows (blocksDemands v) (blocksOfValue name v) := by
  unfold blocksDemands blocksOfValue
  by_cases hfilled : v.isFilled = true
  · rw [if_pos hfilled, if_pos hfilled]
    cases v with
    | null => exact Bool.noConfusion hfilled
    | list items => exact follows_blocksOfValues name items
    | _ => exact Follows.fail _
  · rw [if_neg hfilled, if_neg hfilled]
    exact Follows.ok _

def demands : Value → List Demand
  | .map fields =>
    blocksDemands (field fields "blocks") ++ [.shape (isFields (field fields "settings"))]
  | _ => []

theorem follows_ofFields (fields : Dict Value) :
    Follows (demands (.map fields)) (ofFields fields) :=
  (follows_blocksOfValue _ _).bind fun _ _ => (follows_fieldsOf _ _).map _

theorem follows_listOfValue (v : Value) : Follows (listDemands demands v) (listOfValue v) := by
  cases v with
  | null => exact Follows.ok _
  | list items =>
    rw [listDemands, listOfValue]
    induction items with
    | nil => exact Follows.ok _
    | cons v items ih =>
      cases v with
      | map fields =>
        rw [List.filterMap_cons_some (f := asMap?) rfl, List.mapM_cons]
        exact (follows_ofFields fields).bind fun preset _ => ih.map _
      | _ => exact ih
  | _ => exact Follows.fail _

end Preset

/-! ### The payload -/

theorem Restriction.follows_ofValue (name : String) (v : Value) :
    Follows [.shape (isFields v)] (ofValue name v) := by
  cases v with
  | null | map fields => exact (Follows.ok _).shape_true
  | _ => exact Follows.fail _

namespace SectionSchema

/-- All demands of a payload, in the order of reading. -/
def demands : Value → List Demand
  | .map fields =>
    listDemands Setting.demands (field fields "settings") ++
      (listDemands BlockDefinition.demands (field fields "blocks") ++
        (listDemands Preset.demands (field fields "presets") ++
          [.number (field fields "limit"), .number (field fields "max_blocks"),
            .shape (isFields (field fields "enabled_on")),
            .shape (isFields (field fields "disabled_on")),
            .shape (isFields (field fields "locales"))]))
  | _ => [.shape false]

theorem follows_ofValue (v : Value) : Follows (demands v) (ofValue v) := by
  cases v with
  | map fields =>
    refine (Setting.follows_listOfValue _ _).bind fun settings _ =>
      (BlockDefinition.follows_listOfValue _).bind fun blocks _ =>
      (Preset.follows_listOfValue _).bind fun presets _ =>
      (follows_integer? _ _).bind fun limit _ => ?_
    refine (follows_integer? _ _).bind fun maxBlocks _ =>
      (Restriction.follows_ofValue _ _).bind fun enabledOn _ =>
      (Restriction.follows_ofValue _ _).bind fun disabledOn _ => (follows_fieldsOf _ _).map _
  | _ => exact Follows.fail _

end SectionSchema

end Storefront
