import Storefront.Proofs.Schema.Category
import Storefront.Settings.Store

/-!
The settings that assets see have two layers: the defaults of the theme's settings schema, and over
them the stored values that are selected. Which values those are is said without the search for them
(`Selects`), and the search finds just these.
-/

namespace Storefront

theorem Value.asMap?_eq_some_iff {v : Value} {fields : Dict Value} :
    v.asMap? = some fields ↔ v = .map fields := by
  cases v <;> simp [asMap?]

namespace Settings

/-! ### The stored values -/

/-- The values are those of an object that stands under the name among the presets. -/
def IsPreset (data : Dict Value) (name : String) (values : Dict Value) : Prop :=
  ∃ presets : Dict Value,
    data.get? "presets" = some (.map presets) ∧ presets.get? name = some (.map values)

/-- What is current is neither an object nor the name of a preset. -/
structure Undecided (data : Dict Value) : Prop where
  noValues : ∀ values, data.get? "current" ≠ some (.map values)
  noPreset : ∀ name, data.get? "current" = some (.str name) → ∀ values, ¬IsPreset data name values

/-- The values that settings data selects. -/
inductive Selects (data : Dict Value) : Dict Value → Prop
  | current {values : Dict Value} (h : data.get? "current" = some (.map values)) :
    Selects data values
  | named {name : String} {values : Dict Value} (hname : data.get? "current" = some (.str name))
    (h : IsPreset data name values) : Selects data values
  | fallback {values : Dict Value} (hcurrent : Undecided data)
    (h : IsPreset data "Default" values) : Selects data values
  | nothing (hcurrent : Undecided data) (h : ∀ values, ¬IsPreset data "Default" values) :
    Selects data []

/-- What is current is a name that no preset has. -/
structure NamesNone (data : Dict Value) (name : String) : Prop where
  named : data.get? "current" = some (.str name)
  noPreset : ∀ values, ¬IsPreset data name values

variable {data : Dict Value}

theorem presetsOf_eq {presets : Dict Value} (h : data.get? "presets" = some (.map presets)) :
    presetsOf data = presets := by
  rw [presetsOf, Value.field_eq_map_iff.2 h]

/-- The search for a preset finds the one of the name. -/
theorem preset?_eq_some_iff {name : String} {values : Dict Value} :
    ((presetsOf data).get? name).bind Value.asMap? = some values ↔ IsPreset data name values := by
  simp only [Option.bind_eq_some_iff, Value.asMap?_eq_some_iff, exists_eq_right]
  constructor
  · intro h
    rw [presetsOf] at h
    split at h
    · next presets hpresets => exact ⟨presets, Value.field_eq_map_iff.1 hpresets, h⟩
    · cases h
  · rintro ⟨presets, hpresets, h⟩
    rw [presetsOf_eq hpresets]
    exact h

theorem preset?_eq_none_iff {name : String} :
    ((presetsOf data).get? name).bind Value.asMap? = none ↔
      ∀ values, ¬IsPreset data name values := by
  simp only [Option.eq_none_iff_forall_ne_some, ne_eq, preset?_eq_some_iff]

theorem defaultPreset_of_isPreset {values : Dict Value} (h : IsPreset data "Default" values) :
    defaultPreset (presetsOf data) = values := by
  rw [defaultPreset, preset?_eq_some_iff.2 h, Option.getD_some]

theorem defaultPreset_of_none (h : ∀ values, ¬IsPreset data "Default" values) :
    defaultPreset (presetsOf data) = [] := by
  rw [defaultPreset, preset?_eq_none_iff.2 h, Option.getD_none]

variable {ε : Type}

theorem stored_of_map {values : Dict Value} (h : data.get? "current" = some (.map values)) :
    stored (ε := ε) data = pure values := by
  simp only [stored, Value.field_eq_map_iff.2 h]

theorem stored_of_preset {name : String} {values : Dict Value}
    (hname : data.get? "current" = some (.str name)) (h : IsPreset data name values) :
    stored (ε := ε) data = pure values := by
  simp only [stored, (Value.field_eq_iff (by simp)).2 hname, preset?_eq_some_iff.2 h]

theorem stored_of_namesNone {name : String} (h : NamesNone data name) :
    stored (ε := ε) data =
      { result := .ok (defaultPreset (presetsOf data)), warnings := [.missingPreset name] } := by
  simp only [stored, (Value.field_eq_iff (by simp)).2 h.named, preset?_eq_none_iff.2 h.noPreset]
  rfl

/-- Nothing is said of current values that are neither an object nor a text. -/
theorem stored_of_other (hvalues : ∀ values, data.get? "current" ≠ some (.map values))
    (hname : ∀ name, data.get? "current" ≠ some (.str name)) :
    stored (ε := ε) data = pure (defaultPreset (presetsOf data)) := by
  rw [stored]
  split
  · next values h => exact absurd (Value.field_eq_map_iff.1 h) (hvalues values)
  · next name h => exact absurd ((Value.field_eq_iff (by simp)).1 h) (hname name)
  · rfl

/-- What is current is an object, the name of a preset, the name of none, or something else. -/
theorem current_cases (data : Dict Value) :
    (∃ values, data.get? "current" = some (.map values)) ∨
      (∃ name values, data.get? "current" = some (.str name) ∧ IsPreset data name values) ∨
      (∃ name, NamesNone data name) ∨
      (∀ values, data.get? "current" ≠ some (.map values)) ∧
        ∀ name, data.get? "current" ≠ some (.str name) := by
  cases h : data.get? "current" with
  | none => simp
  | some v =>
    cases v with
    | map values => simp
    | str name =>
      by_cases hpreset : ∃ values, IsPreset data name values
      · obtain ⟨values, hpreset⟩ := hpreset
        exact .inr (.inl ⟨name, values, rfl, hpreset⟩)
      · exact .inr (.inr (.inl ⟨name, h, not_exists.1 hpreset⟩))
    | _ => simp

theorem NamesNone.undecided {name : String} (h : NamesNone data name) : Undecided data where
  noValues values hvalues := by simp [h.named] at hvalues
  noPreset other hother := by
    have heq : name = other := by simpa [h.named] using hother
    exact heq ▸ h.noPreset

theorem undecided_of_other (hvalues : ∀ values, data.get? "current" ≠ some (.map values))
    (hname : ∀ name, data.get? "current" ≠ some (.str name)) : Undecided data where
  noValues := hvalues
  noPreset name h := absurd h (hname name)

theorem result_stored_of_undecided (h : Undecided data) :
    (stored (ε := ε) data).result = .ok (defaultPreset (presetsOf data)) := by
  rcases current_cases data with ⟨values, hvalues⟩ | ⟨name, values, hname, hpreset⟩ |
    ⟨name, hname⟩ | ⟨hvalues, hname⟩
  · exact absurd hvalues (h.noValues values)
  · exact absurd hpreset (h.noPreset name hname values)
  · rw [stored_of_namesNone hname]
  · rw [stored_of_other hvalues hname]
    rfl

theorem result_stored_of_selects {values : Dict Value} (h : Selects data values) :
    (stored (ε := ε) data).result = .ok values := by
  cases h with
  | current h =>
    rw [stored_of_map h]
    rfl
  | named hname h =>
    rw [stored_of_preset hname h]
    rfl
  | fallback hcurrent h => rw [result_stored_of_undecided hcurrent, defaultPreset_of_isPreset h]
  | nothing hcurrent h => rw [result_stored_of_undecided hcurrent, defaultPreset_of_none h]

theorem Undecided.exists_selects (h : Undecided data) : ∃ values, Selects data values := by
  by_cases hdefault : ∃ values, IsPreset data "Default" values
  · obtain ⟨values, hdefault⟩ := hdefault
    exact ⟨values, .fallback h hdefault⟩
  · exact ⟨[], .nothing h (not_exists.1 hdefault)⟩

/-- All settings data selects some values, and no others. -/
theorem existsUnique_selects (data : Dict Value) : ∃! values, Selects data values := by
  have hexists : ∃ values, Selects data values := by
    rcases current_cases data with ⟨values, hvalues⟩ | ⟨name, values, hname, hpreset⟩ |
      ⟨name, hname⟩ | ⟨hvalues, hname⟩
    · exact ⟨values, .current hvalues⟩
    · exact ⟨values, .named hname hpreset⟩
    · exact hname.undecided.exists_selects
    · exact (undecided_of_other hvalues hname).exists_selects
  obtain ⟨values, hvalues⟩ := hexists
  refine ⟨values, hvalues, fun other hother => ?_⟩
  have hresult := (result_stored_of_selects (ε := Empty) hother).symm.trans
    (result_stored_of_selects hvalues)
  exact Except.ok.inj hresult

/-- A warning is given of a name that no preset has, and of nothing else. -/
theorem warnings_stored_of_none (h : ∀ name, ¬NamesNone data name) :
    (stored (ε := ε) data).warnings = [] := by
  rcases current_cases data with ⟨values, hvalues⟩ | ⟨name, values, hname, hpreset⟩ |
    ⟨name, hname⟩ | ⟨hvalues, hname⟩
  · rw [stored_of_map hvalues]
    rfl
  · rw [stored_of_preset hname hpreset]
    rfl
  · exact absurd hname (h name)
  · rw [stored_of_other hvalues hname]
    rfl

/-! ### Both layers -/

/-- The settings that a settings schema declares, one category after the other, where all of its
categories are read. -/
inductive Declares : Value → List Setting → Prop
  | null : Declares .null []
  | list {entries : List Value} {lists : List (List Setting)}
    (h : List.Forall₂ (fun fields settings => Category.settings fields = .ok settings)
      (entries.filterMap Category.declaring?) lists) : Declares (.list entries) lists.flatten

theorem Declares.themeDefaults_eq {schema : Value} {declared : List Setting}
    (h : Declares schema declared) : themeDefaults schema = .ok (Setting.defaults declared) := by
  cases h with
  | null => rfl
  | list h =>
    rw [Category.themeDefaults_list, Category.mapM_settings_of_forall₂ h]
    rfl

theorem visible_eq {schema : Value} {base : Dict Value} (h : themeDefaults schema = .ok base)
    (data : Dict Value) : visible (.map data) schema = Dict.merge base <$> stored data := by
  rw [visible, h]
  exact bind_pure_comp (Dict.merge base) (stored data)

/-- The settings have the keys of the theme's defaults in their order and then the other stored
ones. At each key stands the stored value, null included, or else the theme's default. Stored
values are entries with distinct keys (`Dict.ofList_of_nodup`). The only warning is that of a
current name without a preset, and settings data that is null is as an empty object. -/
theorem visible_layers {schema : Value} {declared : List Setting} (h : Declares schema declared) :
    themeDefaults schema = .ok (Setting.defaults declared) ∧
    visible .null schema = visible (.map []) schema ∧
    ∀ data : Dict Value, (∃! values, Selects data values) ∧
      (∀ values, Selects data values → ∃ settings,
        (visible (.map data) schema).result = .ok settings ∧
          Setting.Overlays declared (Dict.ofList values) settings) ∧
      (∀ name, NamesNone data name →
        (visible (.map data) schema).warnings = [.missingPreset name]) ∧
      ((∀ name, ¬NamesNone data name) → (visible (.map data) schema).warnings = []) := by
  have hbase := h.themeDefaults_eq
  refine ⟨hbase, rfl, fun data => ⟨existsUnique_selects data, fun values hvalues => ?_,
    fun name hname => ?_, fun hnone => ?_⟩⟩
  · refine ⟨Dict.merge (Setting.defaults declared) values, ?_,
      Setting.overlays_merge_defaults declared values⟩
    rw [visible_eq hbase, Outcome.result_map, result_stored_of_selects hvalues]
    rfl
  · rw [visible_eq hbase, Outcome.warnings_map, stored_of_namesNone hname]
  · rw [visible_eq hbase, Outcome.warnings_map, warnings_stored_of_none hnone]

/-- An id that two categories declare, and as the current preset a name under which no object
stands: the default preset is selected, and its null wins over a default. -/
theorem visible_layers_missing :
    let schema := Value.list [
      .map [("name", .str "Colors"),
        ("settings", .list [.map [("type", .str "color"), ("id", .str "accent")],
          .map [("type", .str "number"), ("id", .str "width")]])],
      .map [("settings", .list
        [.map [("type", .str "text"), ("id", .str "accent"), ("default", .str "red")]])]]
    let values : Dict Value := [("size", .int 1), ("width", .null)]
    let data : Dict Value := [("current", .str "Bold"),
      ("presets", .map [("Bold", .list []), ("Default", .map values)])]
    Selects data values ∧ NamesNone data "Bold" ∧
      ∃ declared, Declares schema declared ∧
        (visible (.map data) schema).warnings = [.missingPreset "Bold"] ∧
        ∃ settings, (visible (.map data) schema).result = .ok settings ∧
          Setting.Overlays declared (Dict.ofList values) settings ∧
          settings = [("accent", .str "red"), ("width", .null), ("size", .int 1)] := by
  intro schema values data
  have hnone : NamesNone data "Bold" := by
    refine ⟨rfl, ?_⟩
    rintro preset ⟨presets, hpresets, hpreset⟩
    cases hpresets
    cases hpreset
  have hselects : Selects data values := .fallback hnone.undecided ⟨_, rfl, rfl⟩
  have hdeclares : Declares schema _ := .list (.cons rfl (.cons rfl .nil))
  refine ⟨hselects, hnone, _, hdeclares, ?_⟩
  obtain ⟨-, -, hlayers⟩ := visible_layers hdeclares
  obtain ⟨-, hvisible, hwarning, -⟩ := hlayers data
  obtain ⟨settings, hresult, hoverlays⟩ := hvisible values hselects
  refine ⟨hwarning "Bold" hnone, settings, hresult, hoverlays, ?_⟩
  cases hresult
  rfl

end Settings

end Storefront
