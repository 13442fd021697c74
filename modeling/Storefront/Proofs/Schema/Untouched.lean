import Storefront.Proofs.Number.Comparison
import Storefront.Proofs.Page.Settings
import Storefront.Schema.Issue

/-!
The issues of settings that hold their defaults. Where none is declared, the default of a kind is
what its check allows, unless the bounds of a range leave out zero or a list of resources may not
even be empty.
-/

namespace Storefront.Setting

/-! ### Kinds -/

/-- The complaint about the default of a kind whose bounds leave it out. -/
def Kind.defaultComplaint? : Kind → Option Complaint
  | .range low high _ _ =>
    if low.any Number.isPositive || high.any Number.isNegative then
      some (.outsideRange (.int 0) low high)
    else none
  | .resourceList (some limit) => if limit < 0 then some (.tooManyItems 0 limit) else none
  | _ => none

theorem isBelow_zero (low : Option Number) : isBelow (.int 0) low = low.any Number.isPositive := by
  cases low with
  | none => rfl
  | some bound =>
    rw [Bool.eq_iff_iff, isBelow, decide_eq_true_iff, Number.order?_zero_eq_lt_iff, Option.any_some]

theorem isAbove_zero (high : Option Number) :
    isAbove (.int 0) high = high.any Number.isNegative := by
  cases high with
  | none => rfl
  | some bound =>
    rw [Bool.eq_iff_iff, isAbove, decide_eq_true_iff, Number.order?_zero_eq_gt_iff, Option.any_some]

theorem isColor_defaultColor : Schema.isColor defaultColor = true := by decide

/-- A kind complains of its own default where its bounds leave it out. -/
theorem Kind.complaint?_default (k : Kind) : k.complaint? k.default = k.defaultComplaint? := by
  cases k with
  | range low high step unit =>
    simp only [Kind.default, complaint?, defaultComplaint?, isBelow_zero, isAbove_zero]
  | color => simp [Kind.default, complaint?, defaultComplaint?, isColor_defaultColor]
  | resourceList limit => cases limit <;> rfl
  | _ => rfl

/-- Kinds that hold nothing by default have no bounds. -/
theorem Kind.defaultComplaint?_of_null {k : Kind} (h : k.default = .null) :
    k.defaultComplaint? = none := by
  cases k with
  | range low high step unit => cases h
  | resourceList limit => cases h
  | _ => rfl

theorem Kind.severity_of_defaultComplaint? {k : Kind} {c : Complaint}
    (h : k.defaultComplaint? = some c) : c.severity = .warning := by
  unfold defaultComplaint? at h
  split at h
  · split at h
    · cases h
      rfl
    · cases h
  · split at h
    · cases h
      rfl
    · cases h
  · cases h

/-! ### Settings -/

section values

variable {values : Dict Value} {s : Setting} {id : String}

theorem issue?_of_null (hid : s.id? = some id) (h : values.get? id = some .null) :
    s.issue? values = none := by
  simp only [issue?, hid, h]

theorem issue?_of_ne_null (hid : s.id? = some id) {v : Value} (h : values.get? id = some v)
    (hv : v ≠ .null) : s.issue? values = (s.kind.complaint? v).map (Issue.mk id) := by
  simp only [issue?, hid]
  split
  · next hnone => rw [hnone] at h; cases h
  · next hnull => rw [hnull] at h; cases h; exact absurd rfl hv
  · next w hw => rw [hw] at h; cases h; rfl

/-- The issue of a setting that holds the default of its kind. -/
theorem issue?_of_get?_default (hid : s.id? = some id)
    (h : values.get? id = some s.kind.default) :
    s.issue? values = s.kind.defaultComplaint?.map (Issue.mk id) := by
  by_cases hnull : s.kind.default = .null
  · rw [hnull] at h
    rw [issue?_of_null hid h, Kind.defaultComplaint?_of_null hnull, Option.map_none]
  · rw [issue?_of_ne_null hid h hnull, Kind.complaint?_default]

theorem issue?_of_complaint?_eq_none (h : ∀ v, s.kind.complaint? v = none) (values : Dict Value) :
    s.issue? values = none := by
  rw [issue?]
  cases s.id? with
  | none => rfl
  | some id =>
    dsimp only
    split
    · rfl
    · rfl
    · rw [h, Option.map_none]

/-- A heading has no issue, not even where its id is that of a value. -/
theorem issue?_of_isDisplay (h : s.isDisplay = true) (values : Dict Value) :
    s.issue? values = none := by
  unfold isDisplay at h
  split at h
  · next content hkind => exact issue?_of_complaint?_eq_none (fun v => by rw [hkind]; rfl) values
  · cases h

end values

/-- The issue of a setting that declares no default and holds that of its kind. A setting without an
id holds nothing. -/
def defaultIssue? (s : Setting) : Option Issue :=
  s.key?.bind fun id => s.kind.defaultComplaint?.map (Issue.mk id)

theorem issue?_defaults {settings : List Setting} (hdistinct : (settings.filterMap key?).Nodup)
    {s : Setting} (hs : s ∈ settings) (hdeclared : s.declared = none) :
    s.issue? (defaults settings) = s.defaultIssue? := by
  rw [defaultIssue?]
  cases hdisplay : s.isDisplay with
  | true => rw [issue?_of_isDisplay hdisplay, key?_of_isDisplay hdisplay, Option.bind_none]
  | false =>
    have hkey := key?_eq_id? hdisplay
    cases hid : s.id? with
    | none => rw [issue?, hid, hkey, hid, Option.bind_none]
    | some id =>
      have hvalue : s.defaultValue = s.kind.default := by
        rw [defaultValue, hdeclared, Option.getD_none]
      have hget := get?_defaults_of_nodup hdistinct hs (hkey.trans hid)
      rw [hvalue] at hget
      rw [issue?_of_get?_default hid hget, hkey, hid, Option.bind_some]

/-- Settings without declared defaults that hold the defaults of their kinds have, in the order of
their declarations, one warning for each range whose bounds leave out zero and for each list of
resources with a negative limit, and no other issue. -/
theorem issues_defaults {settings : List Setting} (hdistinct : (settings.filterMap key?).Nodup)
    (hundeclared : ∀ s ∈ settings, s.declared = none) :
    issues (defaults settings) settings = settings.filterMap defaultIssue? ∧
      ∀ i ∈ issues (defaults settings) settings, i.complaint.severity = .warning := by
  have hissues : issues (defaults settings) settings = settings.filterMap defaultIssue? :=
    List.filterMap_congr fun s hs => issue?_defaults hdistinct hs (hundeclared s hs)
  refine ⟨hissues, fun i hi => ?_⟩
  rw [hissues] at hi
  obtain ⟨s, -, hs⟩ := List.mem_filterMap.1 hi
  obtain ⟨id, -, hid⟩ := Option.bind_eq_some_iff.1 hs
  obtain ⟨c, hc, rfl⟩ := Option.map_eq_some_iff.1 hid
  exact Kind.severity_of_defaultComplaint? hc

/-- Of these only a range from 1 on, a list of at most -1 and a range up to -0.5 are reported. -/
theorem issues_defaults_bounds :
    let make (id : Option String) (kind : Kind) : Setting := ⟨"", id, "", none, none, kind⟩
    let half : Number := .float (.finite true (1 <<< 52) (-53))
    let settings := [make (some "size") (.range (some (.int 1)) none none none),
      make none (.display "Links"), make (some "ink") .color,
      make (some "picks") (.resourceList (some (-1))),
      make none (.range (some (.int 1)) none none none),
      make (some "shade") (.range (some half) (some half) none none),
      make (some "align") (.choice [⟨.str "left", "", none⟩]),
      make (some "links") (.resourceList (some 0)),
      make (some "x") (.range (some half) none none none)]
    (settings.filterMap key?).Nodup ∧ (∀ s ∈ settings, s.declared = none) ∧
      issues (defaults settings) settings =
        [⟨"size", .outsideRange (.int 0) (some (.int 1)) none⟩, ⟨"picks", .tooManyItems 0 (-1)⟩,
          ⟨"shade", .outsideRange (.int 0) (some half) (some half)⟩] ∧
      ∀ i ∈ issues (defaults settings) settings, i.complaint.severity = .warning := by
  intro make half settings
  have hdistinct : (settings.filterMap key?).Nodup := by decide
  have hundeclared : ∀ s ∈ settings, s.declared = none := by simp [settings, make]
  obtain ⟨hissues, hseverity⟩ := issues_defaults hdistinct hundeclared
  exact ⟨hdistinct, hundeclared, hissues.trans rfl, hseverity⟩

end Storefront.Setting
