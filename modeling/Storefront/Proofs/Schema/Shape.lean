import Storefront.Proofs.Number.Comparison
import Storefront.Proofs.Schema.Demand

/-!
The shape of payloads that a section schema is read from. Where all integers lie within the range of
floating-point numbers, reading succeeds exactly for these payloads, and all others are malformed.
-/

namespace Storefront

namespace Value

/-- All integers in the value lie within the range of floating-point numbers. -/
inductive IntegersFit : Value → Prop
  | null : IntegersFit .null
  | bool (b : Bool) : IntegersFit (.bool b)
  | int {n : Int} (h : Number.fitsBinary64 n = true) : IntegersFit (.int n)
  | float (x : Binary64) : IntegersFit (.number (.float x))
  | str (s : String) : IntegersFit (.str s)
  | list {items : List Value} (h : ∀ v ∈ items, IntegersFit v) : IntegersFit (.list items)
  | map {fields : Dict Value} (h : ∀ p ∈ fields, IntegersFit p.2) : IntegersFit (.map fields)

namespace IntegersFit

theorem items {items : List Value} (h : (Value.list items).IntegersFit) :
    ∀ v ∈ items, v.IntegersFit := by
  cases h with
  | list h => exact h

theorem field {fields : Dict Value} (h : (Value.map fields).IntegersFit) (key : String) :
    (Value.field fields key).IntegersFit := by
  cases h with
  | map h =>
    rw [Value.field]
    cases hv : fields.get? key with
    | none => exact .null
    | some v => exact h (key, v) (Dict.mem_of_get? hv)

end IntegersFit

end Value

open Value

namespace Schema

/-! ### Shapes -/

/-- Null, as a member that is absent, or else as `p` says. -/
def OrNull (p : Value → Prop) (v : Value) : Prop := v = .null ∨ p v

def IsObject (v : Value) : Prop := ∃ fields, v = .map fields

def IsFiniteNumber (v : Value) : Prop := ∃ n : Number, v = .number n ∧ n.isFinite = true

def IsListOf (p : Value → Prop) (v : Value) : Prop := ∃ items, v = .list items ∧ ∀ w ∈ items, p w

/-- The members of a setting that hold numbers, by the type of the setting. -/
def numberKeys (type : String) : List String :=
  if type = "number" then ["placeholder"]
  else if type = "range" then ["min", "max", "step"]
  else if type = "product_list" ∨ type = "collection_list" then ["limit"]
  else []

inductive IsSetting : Value → Prop
  | map {fields : Dict Value} {type : String} (htype : field fields "type" = .str type)
    (hne : type ≠ "")
    (hnumbers : ∀ key ∈ numberKeys type, OrNull IsFiniteNumber (field fields key)) :
    IsSetting (.map fields)

inductive IsBlock : Value → Prop
  | map {fields : Dict Value} (htype : (field fields "type").isFilled = true)
    (hlimit : OrNull IsFiniteNumber (field fields "limit"))
    (hsettings : OrNull (IsListOf IsSetting) (field fields "settings")) : IsBlock (.map fields)

/-- What is no object with a type may stand among the blocks of a preset. -/
def IsPresetBlock (v : Value) : Prop :=
  ∀ fields, v = .map fields → (field fields "type").isFilled = true →
    OrNull IsObject (field fields "settings")

/-- What is no object may stand among presets. -/
def IsPreset (v : Value) : Prop :=
  ∀ fields, v = .map fields →
    ((field fields "blocks").isFilled = false ∨ IsListOf IsPresetBlock (field fields "blocks")) ∧
      OrNull IsObject (field fields "settings")

structure IsPayload (fields : Dict Value) : Prop where
  settings : OrNull (IsListOf IsSetting) (field fields "settings")
  blocks : OrNull (IsListOf IsBlock) (field fields "blocks")
  presets : OrNull (IsListOf IsPreset) (field fields "presets")
  limit : OrNull IsFiniteNumber (field fields "limit")
  maxBlocks : OrNull IsFiniteNumber (field fields "max_blocks")
  enabledOn : OrNull IsObject (field fields "enabled_on")
  disabledOn : OrNull IsObject (field fields "disabled_on")
  locales : OrNull IsObject (field fields "locales")

/-! ### Demands that hold -/

/-- What the demand says, where no integer is too large. -/
def Demand.Holds : Demand → Prop
  | .shape met => met = true
  | .number v => OrNull IsFiniteNumber v

def AllHold (demands : List Demand) : Prop := ∀ d ∈ demands, d.Holds

/-- No place holds an integer that is too large. -/
def AllFit (demands : List Demand) : Prop := ∀ d ∈ demands, d.oversized? = none

theorem Demand.met_iff {d : Demand} (h : d.oversized? = none) : d.met = true ↔ d.Holds := by
  cases d with
  | shape met => rfl
  | number v =>
    cases v with
    | number n =>
      cases n with
      | int n =>
        rw [oversized?, ite_eq_left_iff] at h
        have hn : n.natAbs < Number.binary64Limit := by
          by_contra hn
          cases h hn
        exact ⟨fun _ => .inr ⟨.int n, rfl, rfl⟩, fun _ => decide_eq_true hn⟩
      | float x =>
        refine ⟨fun hx => .inr ⟨.float x, rfl, hx⟩, ?_⟩
        rintro (hnull | ⟨n, hn, hfinite⟩)
        · cases hnull
        · cases hn
          exact hfinite
    | null => exact ⟨fun _ => .inl rfl, fun _ => rfl⟩
    | _ =>
      refine ⟨fun hmet => Bool.noConfusion hmet, ?_⟩
      rintro (hnull | ⟨n, hn, -⟩)
      · cases hnull
      · cases hn

/-- A reading that follows demands without integers that are too large succeeds just where all of
them hold, and finds the data malformed elsewhere. -/
theorem Follows.of_allFit {α : Type} {ds : List Demand} {x : Except Error α} (hx : Follows ds x)
    (hfit : AllFit ds) : (AllHold ds ∧ ∃ a, x = .ok a) ∨
      ¬AllHold ds ∧ ∃ fault, x = .error (.malformed fault) := by
  rw [Follows] at hx
  cases hd : firstUnmet? ds with
  | none =>
    rw [hd] at hx
    refine .inl ⟨fun d hmem => ?_, hx⟩
    have hmet := List.find?_eq_none.1 hd d hmem
    rw [Bool.not_eq_true', Bool.not_eq_false] at hmet
    exact (Demand.met_iff (hfit d hmem)).1 hmet
  | some d =>
    have hmem : d ∈ ds := List.mem_of_find?_eq_some hd
    have hunmet := List.find?_some hd
    rw [hd] at hx
    simp only [hfit d hmem, Option.isSome_none, Bool.false_eq_true, if_false] at hx
    refine .inr ⟨fun hall => ?_, hx⟩
    rw [(Demand.met_iff (hfit d hmem)).2 (hall d hmem)] at hunmet
    cases hunmet

theorem allHold_append {ds es : List Demand} : AllHold (ds ++ es) ↔ AllHold ds ∧ AllHold es :=
  List.forall_mem_append

theorem allHold_cons {d : Demand} {ds : List Demand} : AllHold (d :: ds) ↔ d.Holds ∧ AllHold ds :=
  List.forall_mem_cons

theorem AllFit.append {ds es : List Demand} (hds : AllFit ds) (hes : AllFit es) :
    AllFit (ds ++ es) :=
  List.forall_mem_append.2 ⟨hds, hes⟩

/-- The demands on a value say that it has a shape. -/
structure Expresses (demands : Value → List Demand) (shape : Value → Prop) : Prop where
  allHold_iff : ∀ v, AllHold (demands v) ↔ shape v
  allFit : ∀ v, v.IntegersFit → AllFit (demands v)

theorem not_allHold_shape_false : ¬AllHold [.shape false] := by
  simp [AllHold, Demand.Holds]

theorem allHold_nil : AllHold [] := List.forall_mem_nil _

theorem allFit_nil : AllFit [] := List.forall_mem_nil _

theorem allFit_shape (met : Bool) : AllFit [.shape met] := List.forall_mem_singleton.2 rfl

theorem expresses_number : Expresses (fun v => [.number v]) (OrNull IsFiniteNumber) where
  allHold_iff _ := List.forall_mem_singleton
  allFit v hv := by
    refine List.forall_mem_singleton.2 ?_
    cases hv with
    | int h => exact if_pos ((Number.fitsBinary64_iff _).1 h)
    | _ => rfl

theorem isFields_iff {v : Value} : isFields v = true ↔ OrNull IsObject v := by
  cases v <;> simp [isFields, OrNull, IsObject]

theorem expresses_fields : Expresses (fun v => [.shape (isFields v)]) (OrNull IsObject) where
  allHold_iff _ := List.forall_mem_singleton.trans isFields_iff
  allFit _ _ := allFit_shape _

theorem Expresses.list {demands : Value → List Demand} {shape : Value → Prop}
    (h : Expresses demands shape) : Expresses (listDemands demands) (OrNull (IsListOf shape)) where
  allHold_iff v := by
    cases v with
    | null => exact ⟨fun _ => .inl rfl, fun _ => allHold_nil⟩
    | list items =>
      have hitems : AllHold (items.flatMap demands) ↔ ∀ w ∈ items, shape w :=
        List.forall_mem_flatMap.trans (forall₂_congr fun w _ => h.allHold_iff w)
      rw [listDemands, hitems]
      simp [OrNull, IsListOf]
    | _ =>
      rw [listDemands]
      · simp [not_allHold_shape_false, OrNull, IsListOf]
      all_goals simp
  allFit v hv := by
    cases v with
    | null => exact allFit_nil
    | list items =>
      exact List.forall_mem_flatMap.2 fun w hw => h.allFit w (hv.items w hw)
    | _ => exact allFit_shape false

end Schema

open Schema

/-! ### Members of payloads -/

namespace Setting

theorem Family.demands_ofType (type : String) (fields : Dict Value) :
    (Family.ofType type).demands fields =
      (numberKeys type).map fun key => .number (field fields key) := by
  by_cases hnumber : type = "number"
  · subst hnumber
    rfl
  by_cases hrange : type = "range"
  · subst hrange
    rfl
  by_cases hlist : type = "product_list" ∨ type = "collection_list"
  · obtain rfl | rfl := hlist
    · rfl
    · rfl
  · have hfamily : (Family.ofType type).demands fields = [] := by
      rw [Family.ofType, if_neg hnumber, if_neg hrange]
      split_ifs with _ _ _ _ _ _ hresources
      on_goal 7 => exact absurd (by simpa using hresources) hlist
      all_goals rfl
    rw [hfamily, numberKeys, if_neg hnumber, if_neg hrange, if_neg hlist, List.map_nil]

theorem expresses : Expresses demands IsSetting where
  allHold_iff v := by
    cases v with
    | map fields =>
      cases hfield : field fields "type" with
      | str type =>
        simp only [demands, hfield]
        by_cases hne : type = ""
        · rw [if_pos hne]
          refine ⟨fun h => absurd h not_allHold_shape_false, ?_⟩
          rintro ⟨htype, hne', -⟩
          rw [hfield] at htype
          cases htype
          exact absurd hne hne'
        · rw [if_neg hne, Family.demands_ofType, AllHold, List.forall_mem_map]
          refine ⟨fun hnumbers => .map hfield hne hnumbers, ?_⟩
          rintro ⟨htype, -, hnumbers⟩
          rw [hfield] at htype
          cases htype
          exact hnumbers
      | _ =>
        simp only [demands, hfield]
        refine ⟨fun h => absurd h not_allHold_shape_false, ?_⟩
        rintro ⟨htype, -, -⟩
        rw [hfield] at htype
        cases htype
    | _ => exact ⟨fun h => absurd h not_allHold_shape_false, fun h => by cases h⟩
  allFit v hv := by
    cases v with
    | map fields =>
      rw [demands]
      split
      · split
        · exact allFit_shape false
        · rw [Family.demands_ofType, AllFit, List.forall_mem_map]
          exact fun key _ =>
            expresses_number.allFit _ (hv.field key) _ List.mem_cons_self
      · exact allFit_shape false
    | _ => exact allFit_shape false

end Setting

namespace BlockDefinition

theorem expresses : Expresses demands IsBlock where
  allHold_iff v := by
    cases v with
    | map fields =>
      rw [demands]
      by_cases htype : (field fields "type").isFilled = true
      · rw [if_pos htype, allHold_cons, Setting.expresses.list.allHold_iff]
        refine ⟨fun h => .map htype h.1 h.2, ?_⟩
        rintro ⟨-, hlimit, hsettings⟩
        exact ⟨hlimit, hsettings⟩
      · rw [if_neg htype]
        refine ⟨fun h => absurd h not_allHold_shape_false, ?_⟩
        rintro ⟨htype', -, -⟩
        exact absurd htype' htype
    | _ => exact ⟨fun h => absurd h not_allHold_shape_false, fun h => by cases h⟩
  allFit v hv := by
    cases v with
    | map fields =>
      rw [demands]
      split
      · exact AllFit.append (expresses_number.allFit _ (hv.field "limit"))
          (Setting.expresses.list.allFit _ (hv.field "settings"))
      · exact allFit_shape false
    | _ => exact allFit_shape false

end BlockDefinition

namespace Preset

theorem expresses_block : Expresses blockDemands IsPresetBlock where
  allHold_iff v := by
    cases v with
    | map fields =>
      rw [blockDemands]
      by_cases htype : (field fields "type").isFilled = true
      · rw [if_pos htype, expresses_fields.allHold_iff]
        simp [IsPresetBlock, htype]
      · rw [if_neg htype]
        simp [IsPresetBlock, htype, allHold_nil]
    | _ => exact ⟨fun _ _ hv => (by cases hv), fun _ => allHold_nil⟩
  allFit v hv := by
    cases v with
    | map fields =>
      rw [blockDemands]
      split
      · exact allFit_shape _
      · exact allFit_nil
    | _ => exact allFit_nil

theorem expresses_blocks :
    Expresses blocksDemands fun v => v.isFilled = false ∨ IsListOf IsPresetBlock v where
  allHold_iff v := by
    rw [blocksDemands]
    cases hv : v.isFilled with
    | false => simp [allHold_nil]
    | true =>
      rw [if_pos rfl, expresses_block.list.allHold_iff]
      have hnull : v ≠ .null := by
        rintro rfl
        cases hv
      simp [OrNull, hnull]
  allFit v hv := by
    rw [blocksDemands]
    split
    · exact expresses_block.list.allFit v hv
    · exact allFit_nil

theorem expresses : Expresses demands IsPreset where
  allHold_iff v := by
    cases v with
    | map fields =>
      rw [demands, allHold_append, expresses_blocks.allHold_iff, expresses_fields.allHold_iff]
      simp [IsPreset]
    | _ => exact ⟨fun _ _ hv => (by cases hv), fun _ => allHold_nil⟩
  allFit v hv := by
    cases v with
    | map fields =>
      exact AllFit.append (expresses_blocks.allFit _ (hv.field "blocks")) (allFit_shape _)
    | _ => exact allFit_nil

end Preset

/-! ### Payloads -/

namespace SectionSchema

theorem allHold_demands {fields : Dict Value} :
    AllHold (demands (.map fields)) ↔ IsPayload fields := by
  rw [demands, allHold_append, allHold_append, allHold_append,
    Setting.expresses.list.allHold_iff, BlockDefinition.expresses.list.allHold_iff,
    Preset.expresses.list.allHold_iff]
  simp only [allHold_cons, Demand.Holds, isFields_iff]
  constructor
  · rintro ⟨settings, blocks, presets, limit, maxBlocks, enabledOn, disabledOn, locales, -⟩
    exact ⟨settings, blocks, presets, limit, maxBlocks, enabledOn, disabledOn, locales⟩
  · rintro ⟨settings, blocks, presets, limit, maxBlocks, enabledOn, disabledOn, locales⟩
    exact ⟨settings, blocks, presets, limit, maxBlocks, enabledOn, disabledOn, locales,
      allHold_nil⟩

theorem expresses : Expresses demands fun v => ∃ fields, v = .map fields ∧ IsPayload fields where
  allHold_iff v := by
    cases v with
    | map fields => simp [allHold_demands]
    | _ =>
      refine ⟨fun h => absurd h not_allHold_shape_false, ?_⟩
      rintro ⟨fields, hv, -⟩
      cases hv
  allFit v hv := by
    cases v with
    | map fields =>
      have hnumbers :
          AllFit [.number (field fields "limit"), .number (field fields "max_blocks")] :=
        (expresses_number.allFit _ (hv.field "limit")).append
          (expresses_number.allFit _ (hv.field "max_blocks"))
      have hobjects (a b c : Bool) : AllFit [.shape a, .shape b, .shape c] :=
        (allFit_shape a).append ((allFit_shape b).append (allFit_shape c))
      exact (Setting.expresses.list.allFit _ (hv.field "settings")).append <|
        (BlockDefinition.expresses.list.allFit _ (hv.field "blocks")).append <|
        (Preset.expresses.list.allFit _ (hv.field "presets")).append <|
        hnumbers.append (hobjects _ _ _)
    | _ => exact allFit_shape false

/-- A schema is read exactly from the payloads of the right shape, and every other value is
malformed, where no integer is beyond the floating-point numbers. -/
theorem exists_ofValue_eq_ok_iff {v : Value} (h : v.IntegersFit) :
    ((∃ schema, ofValue v = .ok schema) ↔ ∃ fields, v = .map fields ∧ IsPayload fields) ∧
      ((¬∃ fields, v = .map fields ∧ IsPayload fields) →
        ∃ fault, ofValue v = .error (.malformed fault)) := by
  rw [← expresses.allHold_iff]
  rcases (follows_ofValue v).of_allFit (expresses.allFit v h) with
    ⟨hall, hread⟩ | ⟨hnone, fault, hread⟩
  · exact ⟨⟨fun _ => hall, fun _ => hread⟩, fun hnone => absurd hall hnone⟩
  · refine ⟨⟨?_, fun hall => absurd hall hnone⟩, fun _ => ⟨fault, hread⟩⟩
    rintro ⟨schema, hschema⟩
    rw [hread] at hschema
    cases hschema

/-- A payload with entries that are passed over: a preset that is no object, and in another one a
block without a type. -/
def passingPayload : Dict Value :=
  [("settings", .list [.map [("type", .str "range"), ("min", .int 0), ("max", .null)]]),
    ("presets", .list [.bool true, .map [("blocks", .list [.map [("settings", .int 1)]])]]),
    ("limit", .int 2)]

theorem exists_ofValue_eq_ok_iff_passing : (Value.map passingPayload).IntegersFit ∧
    (∃ schema, ofValue (.map passingPayload) = .ok schema) ∧ IsPayload passingPayload := by
  have hrange : (Value.map [("type", .str "range"), ("min", .int 0), ("max", .null)]).IntegersFit :=
    .map (by simpa using ⟨.str _, .int rfl, .null⟩)
  have hblock : (Value.map [("settings", .int 1)]).IntegersFit :=
    .map (List.forall_mem_singleton.2 (.int rfl))
  have hpreset : (Value.map [("blocks", .list [.map [("settings", .int 1)]])]).IntegersFit :=
    .map (List.forall_mem_singleton.2 (.list (List.forall_mem_singleton.2 hblock)))
  have hfit : (Value.map passingPayload).IntegersFit := by
    refine .map ?_
    simpa [passingPayload] using ⟨.list (List.forall_mem_singleton.2 hrange),
      .list (List.forall_mem_cons.2 ⟨.bool true, List.forall_mem_singleton.2 hpreset⟩), .int rfl⟩
  have hread : ∃ schema, ofValue (.map passingPayload) = .ok schema := ⟨_, rfl⟩
  obtain ⟨fields, hfields, hpayload⟩ := (exists_ofValue_eq_ok_iff hfit).1.1 hread
  cases hfields
  exact ⟨hfit, hread, hpayload⟩

end SectionSchema

end Storefront
