import Storefront.Proofs.Config.UrlTemplate
import Storefront.Proofs.Text.Boundary

/-!
Which data is accepted as a configuration: what describes one, and whatever is empty, of any kind.
All other data is refused for what it says, but for a map with a key that is no text.
-/

namespace Storefront

namespace Config

open Yaml

/-- The map with texts for its keys. -/
def dataOf (entries : Dict Data) : Data := .map (entries.map fun p => (.text p.1, p.2))

/-- The keys of texts. -/
def textKeys : List String := ["template", "asset_url_template", "theme_dir", "report_output"]

/-- What the key holds, if anything, is null or a text with a character that is not blank. -/
def HoldsText (entries : Dict Data) (key : String) : Prop :=
  ∀ v ∈ entries.get? key, v = .null ∨ ∃ s, v = .text s ∧ ∃ c ∈ s.toList, Text.isBlank c = false

/-- The template that is given, if any, has a placeholder when it is trimmed. -/
def HasPlaceholder (entries : Dict Data) : Prop :=
  ∀ s, entries.get? "asset_url_template" = some (.text s) →
    placeholder <:+: (Text.trimmed s).toList

def HoldsBool (entries : Dict Data) (key : String) : Prop :=
  ∀ v ∈ entries.get? key, ∃ b, v = .bool b

/-- The entries describe a configuration. -/
structure Describes (entries : Dict Data) : Prop where
  known : ∀ key ∈ entries.keys, key ∈ knownKeys
  texts : ∀ key ∈ textKeys, HoldsText entries key
  hasPlaceholder : HasPlaceholder entries
  legacy : HoldsBool entries "legacy_conditionals"

/-- The data of an empty document, or a map that describes a configuration. -/
def IsConfiguration (data : Data) : Prop :=
  data = .null ∨ ∃ entries, data = dataOf entries ∧ Describes entries

def isText : Data → Bool
  | .text _ => true
  | _ => false

/-- The data is a map with a key that is no text. -/
def hasOtherKey : Data → Bool
  | .map pairs => pairs.any (!isText ·.1)
  | _ => false

/-- The error tells what is wrong with the data. It does not where the document cannot be read, and
where a key cannot be told. -/
def Error.isRefusal : Error → Bool
  | .malformed _ | .keyNotText => false
  | _ => true

/-- What is read is there where `p` holds, and is refused elsewhere. -/
def Decides {α : Type} (p : Prop) (x : Except Error α) : Prop :=
  (p ∧ ∃ a, x = .ok a) ∨ (¬p ∧ ∃ e : Error, e.isRefusal = true ∧ x = .error e)

namespace Decides

variable {α β : Type} {p q : Prop} {x : Except Error α} {f : α → Except Error β}

theorem ok (hp : p) (a : α) : Decides p (.ok a) := .inl ⟨hp, a, rfl⟩

theorem refuse (hp : ¬p) {e : Error} (he : e.isRefusal = true) :
    Decides p (.error e : Except Error α) := .inr ⟨hp, e, he, rfl⟩

theorem bind (hx : Decides p x) (hf : ∀ a, x = .ok a → Decides q (f a)) :
    Decides (p ∧ q) (x >>= f) := by
  obtain ⟨hp, a, rfl⟩ | ⟨hp, e, he, rfl⟩ := hx
  · obtain ⟨hq, hok⟩ | ⟨hq, herror⟩ := hf a rfl
    · exact .inl ⟨⟨hp, hq⟩, hok⟩
    · exact .inr ⟨fun h => hq h.2, herror⟩
  · exact .inr ⟨fun h => hp h.1, e, he, rfl⟩

theorem map (hx : Decides p x) (g : α → β) : Decides p (do return g (← x)) := by
  have hbind : Decides (p ∧ True) (do return g (← x)) := hx.bind fun a _ => ok trivial (g a)
  rwa [and_true] at hbind

theorem guard {b : Bool} (hb : b = true ↔ p) {e : Error} (he : e.isRefusal = true)
    (hx : Decides q x) : Decides (p ∧ q) (if !b then .error e else x) := by
  cases b with
  | false => exact refuse (fun h => Bool.false_ne_true (hb.2 h.1)) he
  | true =>
    have hp : p := hb.1 rfl
    rwa [eq_true hp, true_and]

theorem congr (hpq : p ↔ q) (hx : Decides p x) : Decides q x := by rwa [← hpq]

end Decides

/-! ### Entries -/

section entries

variable {entries : Dict Data}

theorem decides_textAt (entries : Dict Data) (key absent : String) :
    Decides (HoldsText entries key) (textAt entries key absent) := by
  rw [textAt, HoldsText]
  cases entries.get? key with
  | none => exact .ok (by simp) _
  | some v =>
    cases v with
    | null => exact .ok (by simp) _
    | text s =>
      have htext : Text.trimmed s ≠ "" ↔ ∃ c ∈ s.toList, Text.isBlank c = false :=
        Text.trimmed_ne_empty_iff
      by_cases hs : Text.trimmed s = ""
      · simp only [if_pos hs]
        exact .refuse (by simp [← htext, hs]) rfl
      · simp only [if_neg hs]
        exact .ok (by simpa [← htext] using hs) _
    | _ => exact .refuse (by simp) rfl

theorem decides_boolAt (entries : Dict Data) (key : String) :
    Decides (HoldsBool entries key) (boolAt entries key) := by
  rw [boolAt, HoldsBool]
  cases entries.get? key with
  | none => exact .ok (by simp) _
  | some v =>
    cases v with
    | bool b => exact .ok (by simp) b
    | _ => exact .refuse (by simp) rfl

/-- The default template has a placeholder, so only one that is given can lack it. -/
theorem placeholder_infix_iff {url : String}
    (h : textAt entries "asset_url_template" defaultUrlTemplate = .ok url) :
    placeholder <:+: url.toList ↔ HasPlaceholder entries := by
  have hdefault : placeholder <:+: defaultUrlTemplate.toList := ⟨"/assets/".toList, [], by decide⟩
  rw [textAt] at h
  rw [HasPlaceholder]
  split at h
  · next hget =>
    cases h
    simpa [hget] using hdefault
  · next hget =>
    cases h
    simpa [hget] using hdefault
  · next s hget =>
    split at h
    · cases h
    · cases h
      simp [hget]
  · cases h

theorem decides_ofPairs (base : Path) (hknown : ∀ key ∈ entries.keys, key ∈ knownKeys) :
    Decides (Describes entries) (ofPairs base entries) := by
  have hread : Decides (HoldsText entries "template" ∧ HoldsText entries "asset_url_template" ∧
      HasPlaceholder entries ∧ HoldsBool entries "legacy_conditionals" ∧
      HoldsText entries "theme_dir" ∧ HoldsText entries "report_output")
      (ofPairs base entries) := by
    refine (decides_textAt entries _ _).bind fun template _ =>
      (decides_textAt entries _ _).bind fun url hurl =>
      .guard (Text.occursIn_iff.trans (placeholder_infix_iff hurl)) rfl ?_
    exact (decides_boolAt entries _).bind fun legacy _ =>
      (decides_textAt entries _ _).bind fun directory _ => (decides_textAt entries _ _).map _
  refine hread.congr ⟨?_, ?_⟩
  · rintro ⟨template, url, hasPlaceholder, legacy, directory, output⟩
    refine ⟨hknown, ?_, hasPlaceholder, legacy⟩
    simpa [textKeys] using ⟨template, url, directory, output⟩
  · rintro ⟨-, texts, hasPlaceholder, legacy⟩
    simp only [textKeys, List.forall_mem_cons] at texts
    obtain ⟨template, url, directory, output, -⟩ := texts
    exact ⟨template, url, hasPlaceholder, legacy, directory, output⟩

end entries

/-! ### Data -/

theorem textPairs?_eq_some_iff {pairs : List (Data × Data)} {entries : Dict Data} :
    textPairs? pairs = some entries ↔ pairs = entries.map fun p => (.text p.1, p.2) := by
  constructor
  · intro h
    fun_induction textPairs? pairs generalizing entries with
    | case1 =>
      cases h
      rfl
    | case2 key v pairs ih =>
      obtain ⟨rest, hrest, rfl⟩ := Option.map_eq_some_iff.1 h
      rw [ih hrest]
      rfl
    | case3 => cases h
  · rintro rfl
    induction entries with
    | nil => rfl
    | cons p entries ih =>
      rw [List.map_cons, textPairs?, ih]
      rfl

theorem textPairs?_eq_none_iff {pairs : List (Data × Data)} :
    textPairs? pairs = none ↔ hasOtherKey (.map pairs) = true := by
  rw [hasOtherKey]
  fun_induction textPairs? pairs with
  | case1 => simp
  | case2 key v pairs ih => simpa [isText] using ih
  | case3 pairs hnil hcons =>
    cases pairs with
    | nil => exact absurd rfl hnil
    | cons pair pairs =>
      obtain ⟨key, v⟩ := pair
      cases key with
      | text key => exact absurd rfl (hcons key v pairs)
      | _ => simp [isText]

theorem dataOf_eq_map_iff {entries : Dict Data} {pairs : List (Data × Data)} :
    dataOf entries = .map pairs ↔ textPairs? pairs = some entries := by
  rw [textPairs?_eq_some_iff, dataOf, Data.map.injEq, eq_comm]

/-- An empty document describes a configuration, and so does an empty map. -/
theorem describes_nil : Describes [] where
  known := List.forall_mem_nil _
  texts _ _ := nofun
  hasPlaceholder := nofun
  legacy := nofun

theorem isConfiguration_map_iff {pairs : List (Data × Data)} {entries : Dict Data}
    (h : textPairs? pairs = some entries) : IsConfiguration (.map pairs) ↔ Describes entries := by
  constructor
  · rintro (hnull | ⟨others, hothers, hdescribes⟩)
    · cases hnull
    · rw [dataOf_eq_map_iff.1 hothers.symm] at h
      cases h
      exact hdescribes
  · exact fun hdescribes => .inr ⟨entries, (dataOf_eq_map_iff.2 h).symm, hdescribes⟩

theorem ofData_of_not_isFilled {base : Path} {data : Data} (h : data.isFilled = false) :
    ofData base data = ofPairs base [] := by
  rw [ofData.eq_def, h]
  rfl

theorem ofData_map {base : Path} {pairs : List (Data × Data)} {entries : Dict Data}
    (hfilled : (Data.map pairs).isFilled = true) (h : textPairs? pairs = some entries) :
    ofData base (.map pairs) = match entries.keys.filter (!knownKeys.contains ·) with
      | [] => ofPairs base entries
      | unknown => .error (.unknownKeys (Text.sorted unknown)) := by
  simp only [ofData, hfilled, h]
  rfl

/-- Data in which every key is a text is accepted if it is a configuration or empty, and refused
otherwise. -/
theorem decides_ofData (base : Path) {data : Data} (h : hasOtherKey data = false) :
    Decides (IsConfiguration data ∨ data.isFilled = false) (ofData base data) := by
  cases hfilled : data.isFilled with
  | false =>
    rw [ofData_of_not_isFilled hfilled]
    have hnil : Decides (Describes []) (ofPairs base []) :=
      decides_ofPairs base (List.forall_mem_nil _)
    exact hnil.congr (by simp [describes_nil])
  | true =>
    cases data with
    | map pairs =>
      cases hpairs : textPairs? pairs with
      | none =>
        rw [textPairs?_eq_none_iff.1 hpairs] at h
        cases h
      | some entries =>
        rw [isConfiguration_map_iff hpairs, ofData_map hfilled hpairs]
        have hknown : entries.keys.filter (!knownKeys.contains ·) = [] ↔
            ∀ key ∈ entries.keys, key ∈ knownKeys := by
          simp [List.filter_eq_nil_iff]
        split
        · next hnil => exact (decides_ofPairs base (hknown.1 hnil)).congr (by simp)
        · next hcons => exact .refuse (by simpa using fun h => hcons (hknown.2 h.known)) rfl
    | null => cases hfilled
    | _ =>
      rw [ofData.eq_def, hfilled]
      exact .refuse (by simp [IsConfiguration, dataOf]) rfl

theorem ofData_of_hasOtherKey (base : Path) {data : Data} (h : hasOtherKey data = true) :
    ofData base data = .error .keyNotText := by
  cases data with
  | map pairs =>
    have hpairs : textPairs? pairs = none := textPairs?_eq_none_iff.2 h
    have hfilled : (Data.map pairs).isFilled = true := by
      cases pairs with
      | nil => cases hpairs
      | cons => rfl
    simp only [ofData, hfilled, hpairs]
    rfl
  | _ => cases h

theorem hasOtherKey_eq_false {data : Data} (h : IsConfiguration data ∨ data.isFilled = false) :
    hasOtherKey data = false := by
  obtain (rfl | ⟨entries, rfl, -⟩) | hfilled := h
  · rfl
  · rw [← Bool.not_eq_true, dataOf, ← textPairs?_eq_none_iff, dataOf_eq_map_iff.1 rfl]
    exact nofun
  · cases data with
    | map pairs =>
      obtain rfl : pairs = [] := by simpa [Data.isFilled] using hfilled
      rfl
    | _ => rfl

/-- A configuration, a refusal, or the error of a key that cannot be told. -/
theorem ofData_cases (base : Path) (data : Data) :
    (hasOtherKey data = true ∧ ofData base data = .error .keyNotText) ∨
    (hasOtherKey data = false ∧
      Decides (IsConfiguration data ∨ data.isFilled = false) (ofData base data)) := by
  cases h : hasOtherKey data with
  | true => exact .inl ⟨rfl, ofData_of_hasOtherKey base h⟩
  | false => exact .inr ⟨rfl, decides_ofData base h⟩

end Config

namespace FileTree

theorem doesExist_of_readText {t : FileTree} {p : Path} {text : String}
    (h : t.readText p = .ok text) : t.doesExist p = .ok true := by
  rw [doesExist, passes]
  cases hfind : t.find p with
  | ok entry => rfl
  | error e =>
    rw [readText, bytes, hfind] at h
    cases h

end FileTree

namespace Command

open Config Yaml

variable {host : Host} {t : FileTree} {p : Path} {text : String} {data : Data}

/-- A file that holds data gives the configuration that the data describes. -/
theorem loadConfig_eq (htext : t.readText p = .ok text)
    (hdata : host.readYaml text.toList = .ok data) :
    loadConfig host t p = (ofData p.parent data).mapError Storefront.Error.config := by
  rw [loadConfig, FileTree.doesExist_of_readText htext]
  show (t.readText p >>= fun text =>
    (ofText host.readYaml p.parent text).mapError Storefront.Error.config) = _
  rw [htext]
  show (ofText host.readYaml p.parent text).mapError Storefront.Error.config = _
  rw [ofText, hdata]

/-- From a file that holds data, a configuration is loaded just where the data is one, or is empty,
of any kind. An error says what is wrong with the data, but for that of a map with a key that is no
text. -/
theorem loadConfig_of_data (htext : t.readText p = .ok text)
    (hdata : host.readYaml text.toList = .ok data) :
    ((∃ config, loadConfig host t p = .ok config) ↔ IsConfiguration data ∨ data.isFilled = false) ∧
    (loadConfig host t p = .error (.config .keyNotText) ↔ hasOtherKey data = true) ∧
    ∀ e, loadConfig host t p = .error e → e ≠ .config .keyNotText →
      ∃ reason : Config.Error, reason.isRefusal = true ∧ e = .config reason := by
  have hload := loadConfig_eq htext hdata
  -- A key that is no text comes before everything else; without one the data decides.
  obtain ⟨hkey, hread⟩ | ⟨hkey, ⟨haccept, config, hread⟩ | ⟨hrefuse, reason, hreason, hread⟩⟩ :=
    ofData_cases p.parent data
  · have herror : loadConfig host t p = .error (.config .keyNotText) := by
      rw [hload, hread]
      rfl
    have hnone : ¬(IsConfiguration data ∨ data.isFilled = false) := fun h => by
      rw [hasOtherKey_eq_false h] at hkey
      cases hkey
    simp [herror, hkey, hnone]
  · have hok : loadConfig host t p = .ok config := by
      rw [hload, hread]
      rfl
    simp [hok, hkey, haccept]
  · have herror : loadConfig host t p = .error (.config reason) := by
      rw [hload, hread]
      rfl
    have hne : reason ≠ .keyNotText := by
      rintro rfl
      cases hreason
    simp [herror, hkey, hrefuse, hne, hreason]

theorem exists_of_any {ε α : Type} {x : Except ε α} {test : α → Bool}
    (h : x.toOption.any test = true) : ∃ a, x = .ok a ∧ test a = true := by
  cases x with
  | error e => cases h
  | ok a => exact ⟨a, rfl, h⟩

theorem readText_projectOf {line : String}
    (h : ((projectOf line).readText defaultPath).toOption.any (· = line) = true) :
    (projectOf line).readText defaultPath = .ok line := by
  obtain ⟨text, htext, heq⟩ := exists_of_any h
  rw [htext, of_decide_eq_true heq]

/-- A document that names the template. -/
theorem loadConfig_of_data_template :
    ∃ data config, Host.standard.readYaml "template: page".toList = .ok data ∧ IsConfiguration data ∧
      loadConfig .standard (projectOf "template: page") defaultPath = .ok config ∧
      config.template = "page" := by
  have htext : (projectOf "template: page").readText defaultPath = .ok "template: page" :=
    readText_projectOf (by decide +kernel)
  obtain ⟨data, hdata, hfilled⟩ :
      ∃ data, Host.standard.readYaml "template: page".toList = .ok data ∧ data.isFilled = true :=
    exists_of_any (by decide +kernel)
  obtain ⟨config, hconfig, htemplate⟩ : ∃ config, loadConfig .standard (projectOf "template: page")
      defaultPath = .ok config ∧ (config.template == "page") = true :=
    exists_of_any (by decide +kernel)
  refine ⟨data, config, hdata, ?_, hconfig, eq_of_beq htemplate⟩
  obtain ⟨haccept, -⟩ := loadConfig_of_data htext hdata
  obtain hconfiguration | hempty := haccept.1 ⟨config, hconfig⟩
  · exact hconfiguration
  · rw [hfilled] at hempty
    cases hempty

/-- A key that is a number is told as no unknown one, and a document that says false is taken for an
empty one. -/
theorem exists_data_of_no_configuration :
    (∃ data, Host.standard.readYaml "1: x".toList = .ok data ∧ ¬IsConfiguration data ∧
      loadConfig .standard (projectOf "1: x") defaultPath = .error (.config .keyNotText)) ∧
    ∃ data config, Host.standard.readYaml "false".toList = .ok data ∧ ¬IsConfiguration data ∧
      loadConfig .standard (projectOf "false") defaultPath = .ok config := by
  constructor
  · obtain ⟨data, hdata, hkey⟩ :
        ∃ data, Host.standard.readYaml "1: x".toList = .ok data ∧ hasOtherKey data = true :=
      exists_of_any (by decide +kernel)
    refine ⟨data, hdata, fun hconfiguration => ?_, ?_⟩
    · rw [hasOtherKey_eq_false (.inl hconfiguration)] at hkey
      cases hkey
    · rw [loadConfig_eq (readText_projectOf (by decide +kernel)) hdata,
        ofData_of_hasOtherKey _ hkey]
      rfl
  · obtain ⟨data, hdata, htest⟩ : ∃ data, Host.standard.readYaml "false".toList = .ok data ∧
        (!data.isFilled && data.number?.isSome) = true :=
      exists_of_any (by decide +kernel)
    rw [Bool.and_eq_true, Bool.not_eq_true'] at htest
    obtain ⟨hempty, hnumber⟩ := htest
    have haccept : IsConfiguration data ∨ data.isFilled = false := .inr hempty
    obtain ⟨-, config, hread⟩ | ⟨hrefuse, -⟩ :=
      decides_ofData defaultPath.parent (hasOtherKey_eq_false haccept)
    · refine ⟨data, config, hdata, ?_, ?_⟩
      · rintro (rfl | ⟨entries, rfl, -⟩)
        · cases hnumber
        · cases hnumber
      · rw [loadConfig_eq (readText_projectOf (by decide +kernel)) hdata, hread]
        rfl
    · exact absurd haccept hrefuse

end Command

end Storefront
