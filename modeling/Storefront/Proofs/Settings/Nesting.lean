import Storefront.Proofs.Text.Boundary
import Storefront.Settings.Path

/-!
Dotted paths through nested settings. A path that continues another one is looked up below the value
at that one, and the values that paths find are those that stand in maps inside one another under
keys without dots (`lookupPath_nested`).
-/

namespace Storefront

/-! ### Values at keys -/

namespace Value

theorem descend_null (keys : List String) : null.descend keys = null := by
  cases keys <;> rfl

theorem descend_of_not_map {v : Value} (hv : ∀ fields, v ≠ map fields) {keys : List String}
    (hkeys : keys ≠ []) : v.descend keys = null := by
  cases keys with
  | nil => exact absurd rfl hkeys
  | cons key keys =>
    cases v with
    | map fields => exact absurd rfl (hv fields)
    | _ => rfl

theorem descend_map (fields : Dict Value) (key : String) (keys : List String) :
    (map fields).descend (key :: keys) = (field fields key).descend keys := by
  rw [descend]
  cases field fields key with
  | null => exact (descend_null keys).symm
  | _ => rfl

theorem descend_append (v : Value) (keys more : List String) :
    v.descend (keys ++ more) = (v.descend keys).descend more := by
  induction keys generalizing v with
  | nil => rfl
  | cons key keys ih =>
    cases v with
    | map fields => rw [List.cons_append, descend_map, descend_map, ih]
    | _ => exact (descend_null more).symm

end Value

namespace Settings

/-- The maps hold the value under the keys, one map inside the other. -/
inductive Nested : Dict Value → List String → Value → Prop
  | here {fields : Dict Value} {key : String} {v : Value} (h : fields.get? key = some v) :
    Nested fields [key] v
  | deeper {fields inner : Dict Value} {key : String} {keys : List String} {v : Value}
    (h : fields.get? key = some (.map inner)) (hv : Nested inner keys v) :
    Nested fields (key :: keys) v

variable {fields : Dict Value} {keys : List String} {v : Value}

theorem Nested.ne_nil (h : Nested fields keys v) : keys ≠ [] := by
  cases h <;> exact List.cons_ne_nil _ _

theorem Nested.descend_eq (h : Nested fields keys v) : (Value.map fields).descend keys = v := by
  induction h with
  | here h =>
    rw [Value.descend_map, Value.field, h]
    rfl
  | deeper h _ ih => rwa [Value.descend_map, Value.field_eq_map_iff.2 h]

theorem nested_of_descend (hkeys : keys ≠ []) (hv : v ≠ .null)
    (h : (Value.map fields).descend keys = v) : Nested fields keys v := by
  induction keys generalizing fields with
  | nil => exact absurd rfl hkeys
  | cons key keys ih =>
    rw [Value.descend_map] at h
    cases keys with
    | nil => exact .here ((Value.field_eq_iff hv).1 h)
    | cons next keys =>
      cases hfield : Value.field fields key with
      | map inner =>
        rw [hfield] at h
        exact .deeper (Value.field_eq_map_iff.1 hfield) (ih (List.cons_ne_nil _ _) h)
      | _ =>
        -- Only maps have anything below them.
        rw [hfield, Value.descend_of_not_map (by simp) (List.cons_ne_nil _ _)] at h
        exact absurd h.symm hv

end Settings

/-! ### Dotted keys -/

/-- The path of keys with a dot between any two of them. -/
def dotted (keys : List String) : List Char := ['.'].intercalate (keys.map String.toList)

theorem pathKeys_ne_nil (path : List Char) : pathKeys path ≠ [] :=
  fun h => Text.splitOn_ne_nil '.' path (List.map_eq_nil_iff.1 h)

theorem pathKeys_append (p q : List Char) :
    pathKeys (p ++ '.' :: q) = pathKeys p ++ pathKeys q := by
  rw [pathKeys, Text.splitOn_append, List.map_append]
  rfl

theorem pathKeys_dotted {keys : List String} (hkeys : keys ≠ [])
    (hdots : ∀ key ∈ keys, '.' ∉ key.toList) : pathKeys (dotted keys) = keys := by
  have hparts : ∀ part ∈ keys.map String.toList, '.' ∉ part := List.forall_mem_map.2 hdots
  have hne : keys.map String.toList ≠ [] := fun h => hkeys (List.map_eq_nil_iff.1 h)
  rw [pathKeys, dotted, Text.splitOn_intercalate hne hparts, List.map_map]
  simp [Function.comp_def]

theorem dotted_pathKeys (path : List Char) : dotted (pathKeys path) = path := by
  have hparts : (pathKeys path).map String.toList = Text.splitOn '.' path := by
    simp [pathKeys, Function.comp_def]
  rw [dotted, hparts, Text.intercalate_splitOn]

theorem not_mem_of_mem_pathKeys {path : List Char} {key : String} (h : key ∈ pathKeys path) :
    '.' ∉ key.toList := by
  obtain ⟨part, hpart, rfl⟩ := List.mem_map.1 h
  rw [String.toList_ofList]
  exact Text.not_mem_of_mem_splitOn hpart

/-! ### Values at paths -/

theorem lookupPath_append (settings : Dict Value) (p q : List Char) :
    lookupPath settings (p ++ '.' :: q) = (lookupPath settings p).descend (pathKeys q) := by
  rw [lookupPath, pathKeys_append, Value.descend_append]
  rfl

/-- The value at a path that continues another one is the value at the rest of it below the map that
stands at the other one, and null where no map stands there. The dotted path of keys without dots
leads to the value that the settings hold under these keys, and a path to a value is always the
dotted path of such keys. -/
theorem lookupPath_nested (settings : Dict Value) :
    (∀ p q : List Char,
      (∀ fields, lookupPath settings p = .map fields →
        lookupPath settings (p ++ '.' :: q) = lookupPath fields q) ∧
      ((∀ fields, lookupPath settings p ≠ .map fields) →
        lookupPath settings (p ++ '.' :: q) = .null)) ∧
    (∀ (keys : List String) (v : Value), Settings.Nested settings keys v →
      (∀ key ∈ keys, '.' ∉ key.toList) → lookupPath settings (dotted keys) = v) ∧
    ∀ path : List Char, lookupPath settings path ≠ .null →
      ∃ keys, dotted keys = path ∧ (∀ key ∈ keys, '.' ∉ key.toList) ∧
        Settings.Nested settings keys (lookupPath settings path) := by
  refine ⟨fun p q => ⟨fun fields hp => ?_, fun hp => ?_⟩, fun keys v h hdots => ?_,
    fun path hpath => ?_⟩
  · rw [lookupPath_append, hp]
    rfl
  · rw [lookupPath_append, Value.descend_of_not_map hp (pathKeys_ne_nil q)]
  · rw [lookupPath, pathKeys_dotted h.ne_nil hdots, h.descend_eq]
  · exact ⟨pathKeys path, dotted_pathKeys path, fun key => not_mem_of_mem_pathKeys,
      Settings.nested_of_descend (pathKeys_ne_nil path) hpath rfl⟩

/-- Below an empty key, which two dots in a row name, and below a text. -/
theorem lookupPath_nested_empty :
    let palette : Dict Value := [("accent", .str "red"), ("shade", .null)]
    let settings : Dict Value := [("width", .int 1), ("colors", .map [("", .map palette)])]
    lookupPath settings "colors.".toList = .map palette ∧
      lookupPath settings "colors..accent".toList = lookupPath palette "accent".toList ∧
      (∀ fields, lookupPath settings "colors..accent".toList ≠ .map fields) ∧
      lookupPath settings "colors..accent.".toList = .null ∧
      Settings.Nested settings ["colors", "", "accent"] (.str "red") ∧
      (∀ key ∈ ["colors", "", "accent"], '.' ∉ key.toList) ∧
      lookupPath settings (dotted ["colors", "", "accent"]) = .str "red" ∧
      lookupPath settings "colors..accent".toList ≠ .null ∧
      ∃ keys, dotted keys = "colors..accent".toList ∧ (∀ key ∈ keys, '.' ∉ key.toList) ∧
        Settings.Nested settings keys (.str "red") := by
  intro palette settings
  obtain ⟨hcompose, hnested, honly⟩ := lookupPath_nested settings
  have hmap : lookupPath settings "colors.".toList = .map palette := rfl
  have htext : ∀ fields, lookupPath settings "colors..accent".toList ≠ .map fields := by
    intro fields h
    cases h
  have hkeys : Settings.Nested settings ["colors", "", "accent"] (.str "red") :=
    .deeper rfl (.deeper rfl (.here rfl))
  have hdots : ∀ key ∈ ["colors", "", "accent"], '.' ∉ key.toList := by decide
  have hfound : lookupPath settings "colors..accent".toList ≠ .null := by
    intro h
    cases h
  exact ⟨hmap, (hcompose _ _).1 palette hmap, htext, (hcompose _ []).2 htext, hkeys, hdots,
    hnested _ _ hkeys hdots, hfound, honly _ hfound⟩

end Storefront
