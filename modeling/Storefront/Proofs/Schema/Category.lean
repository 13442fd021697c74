import Storefront.Proofs.Page.Settings
import Storefront.Value.Order

/-!
The defaults of settings that are declared one after the other. Those of a later list are assigned
over those of an earlier one, and the settings schema of a theme, which declares its settings in
categories, has the defaults of all of them in order (`themeDefaults_flatten`).
-/

namespace Storefront

open Value

namespace Setting

/-! ### Settings one after the other -/

theorem defaults_append (xs ys : List Setting) :
    defaults (xs ++ ys) = Dict.merge (defaults xs) (defaults ys) := by
  rw [defaults, List.filterMap_append, Dict.ofList_append]
  rfl

theorem keys_defaults_append (xs ys : List Setting) :
    (defaults (xs ++ ys)).keys =
      (defaults xs).keys ++ (defaults ys).keys.filter fun k => k ∉ (defaults xs).keys := by
  have hys : (defaults ys).keys.Nodup := Dict.nodup_keys_ofList _
  rw [defaults_append, Dict.keys_merge, Dict.eraseDups_keys_of_nodup hys]

theorem get?_defaults_append (xs ys : List Setting) (key : String) :
    (defaults (xs ++ ys)).get? key = ((defaults ys).get? key).or ((defaults xs).get? key) := by
  have hys : (defaults ys).keys.Nodup := Dict.nodup_keys_ofList _
  rw [defaults_append, Dict.get?_merge, Dict.get?_reverse_of_nodup hys]

/-- The defaults of some lists, each assigned over those before it. -/
theorem ofList_flatMap_defaults (lists : List (List Setting)) :
    Dict.ofList (lists.flatMap defaults) = defaults lists.flatten := by
  induction lists with
  | nil => rfl
  | cons settings lists ih =>
    have hsettings : Dict.ofList (defaults settings) = defaults settings :=
      Dict.ofList_of_nodup (Dict.nodup_keys_ofList _)
    rw [List.flatMap_cons, List.flatten_cons, defaults_append, Dict.ofList_append, hsettings, ih]

end Setting

/-! ### Categories -/

theorem Value.equals_str_iff {v : Value} {s : String} : v.equals (.str s) = true ↔ v = .str s := by
  cases v <;> simp [equals, alike, number?]

namespace Category

/-- The fields of an entry of a settings schema that declares settings: of an object that does not
tell of the theme itself. -/
def declaring? (entry : Value) : Option (Dict Value) :=
  entry.asMap?.filter fun fields => !(field fields "name").equals (.str "theme_info")

/-- The place that messages tell of the settings of a category. -/
def place (fields : Dict Value) : String :=
  let name := field fields "name"
  let title := if name.isFilled then name.text else "category"
  s!"category '{title}'"

/-- The settings that a category declares. -/
def settings (fields : Dict Value) : Except Schema.Error (List Setting) :=
  Setting.listOfValue (place fields) (field fields "settings")

/-- An entry that declares no settings has none. -/
theorem categorySettings_eq (entry : Value) :
    categorySettings entry = (declaring? entry).elim (.ok []) settings := by
  cases entry with
  | map fields =>
    rw [categorySettings, declaring?, asMap?, Option.filter_some]
    split
    · next hname => rw [Value.equals_str_iff.2 hname]; rfl
    · next hname =>
      have hother : (field fields "name").equals (.str "theme_info") = false :=
        Bool.eq_false_iff.2 fun h => hname (Value.equals_str_iff.1 h)
      rw [hother]
      rfl
  | _ => rfl

/-- The lists that are read one after the other, put together. -/
theorem map_flatten_mapM_cons {ε α β : Type} (f : α → Except ε (List β)) (a : α) (as : List α) :
    ((a :: as).mapM f).map List.flatten =
      (f a).bind fun first => ((as.mapM f).map List.flatten).map (first ++ ·) := by
  rw [List.mapM_cons]
  cases f a with
  | error e => rfl
  | ok first => cases as.mapM f <;> rfl

/-- The entries are read as if only those were there that declare settings. -/
theorem map_flatten_mapM_categorySettings (entries : List Value) :
    (entries.mapM categorySettings).map List.flatten =
      ((entries.filterMap declaring?).mapM settings).map List.flatten := by
  induction entries with
  | nil => rfl
  | cons entry entries ih =>
    rw [map_flatten_mapM_cons, categorySettings_eq, ih]
    cases hentry : declaring? entry with
    | none =>
      rw [List.filterMap_cons_none hentry]
      cases (entries.filterMap declaring?).mapM settings <;> rfl
    | some fields => rw [List.filterMap_cons_some hentry, map_flatten_mapM_cons, Option.elim_some]

/-- The defaults of a settings schema are those of all settings of its categories in order, and it
fails where one of them does. -/
theorem themeDefaults_list (entries : List Value) :
    themeDefaults (.list entries) =
      (((entries.filterMap declaring?).mapM settings).map List.flatten).map Setting.defaults := by
  rw [themeDefaults, ← map_flatten_mapM_categorySettings]
  cases entries.mapM categorySettings with
  | error e => rfl
  | ok lists => exact congrArg Except.ok (Setting.ofList_flatMap_defaults lists)

theorem mapM_settings_of_forall₂ {categories : List (Dict Value)} {lists : List (List Setting)}
    (h : List.Forall₂ (fun fields list => settings fields = .ok list) categories lists) :
    categories.mapM settings = .ok lists := by
  induction h with
  | nil => rfl
  | cons hfields _ ih =>
    rw [List.mapM_cons, hfields, ih]
    rfl

end Category

/-- The defaults of two lists of settings one after the other are those of the first with those of
the second assigned over them, so the keys of the first keep their places and the values of the
second win. Where all categories of a settings schema are read, its defaults are those of their
settings one after the other, with the ids of the settings that hold a value as keys. -/
theorem themeDefaults_flatten :
    (∀ xs ys : List Setting,
      Setting.defaults (xs ++ ys) = Dict.merge (Setting.defaults xs) (Setting.defaults ys) ∧
        (Setting.defaults (xs ++ ys)).keys = (Setting.defaults xs).keys ++
          (Setting.defaults ys).keys.filter (fun k => k ∉ (Setting.defaults xs).keys) ∧
        ∀ key, (Setting.defaults (xs ++ ys)).get? key =
          ((Setting.defaults ys).get? key).or ((Setting.defaults xs).get? key)) ∧
      ∀ entries lists,
        List.Forall₂ (fun fields list => Category.settings fields = .ok list)
          (entries.filterMap Category.declaring?) lists →
        themeDefaults (.list entries) = .ok (Setting.defaults lists.flatten) ∧
          (Setting.defaults lists.flatten).keys =
            (lists.flatten.filterMap Setting.key?).eraseDups := by
  constructor
  · intro xs ys
    exact ⟨Setting.defaults_append xs ys, Setting.keys_defaults_append xs ys,
      Setting.get?_defaults_append xs ys⟩
  · intro entries lists hlists
    refine ⟨?_, Setting.keys_defaults lists.flatten⟩
    rw [Category.themeDefaults_list, Category.mapM_settings_of_forall₂ hlists]
    rfl

/-- An id that two categories declare keeps its first place and has the last default, null too. -/
theorem themeDefaults_flatten_repeated :
    themeDefaults (.list [
      .map [("name", .str "theme_info"),
        ("settings", .list [.map [("type", .str "text"), ("id", .str "theme_name")]])],
      .map [("name", .str "Colors"),
        ("settings", .list [.map [("type", .str "color"), ("id", .str "accent")],
          .map [("type", .str "header"), ("content", .str "Sizes")],
          .map [("type", .str "number"), ("id", .str "width")]])],
      .str "Sizes",
      .map [("settings", .list
        [.map [("type", .str "text"), ("id", .str "accent"), ("default", .null)]])]]) =
      .ok [("accent", .null), ("width", .int 0)] := by
  exact Eq.trans (And.left (themeDefaults_flatten.2 _ _ (.cons rfl (.cons rfl .nil)))) rfl

end Storefront
