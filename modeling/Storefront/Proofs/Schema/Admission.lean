import Storefront.Proofs.Number.Comparison
import Storefront.Schema.Issue

/-!
The values that the kinds of settings allow, and that a value has no issue exactly where it is
allowed. Numbers are compared by the rational numbers that they stand for, so those of values and
bounds have to be finite.
-/

namespace Storefront

namespace Schema

/-- A colour without blanks around it. -/
inductive IsColor : List Char → Prop
  | hex {digits : List Char} (hlength : digits.length = 3 ∨ digits.length = 6)
    (hdigits : ∀ c ∈ digits, isHexDigit c) : IsColor ('#' :: digits)
  | rgb {channels : List Char} (hne : channels ≠ []) (h : ∀ c ∈ channels, isChannelChar c) :
    IsColor ("rgb(".toList ++ (channels ++ [')']))
  | rgba {channels : List Char} (hne : channels ≠ []) (h : ∀ c ∈ channels, isChannelChar c) :
    IsColor ("rgba(".toList ++ (channels ++ [')']))

theorem isChannels_iff {s : List Char} : isChannels s ↔
    ∃ channels, s = channels ++ [')'] ∧ channels ≠ [] ∧ ∀ c ∈ channels, isChannelChar c := by
  rcases List.eq_nil_or_concat s with rfl | ⟨channels, last, rfl⟩
  · simp [isChannels]
  · rw [isChannels, List.concat_eq_append, List.reverse_concat]
    constructor
    · intro h
      split at h
      · next heq =>
        obtain ⟨rfl, rfl⟩ := List.cons.inj heq
        simp at h
        exact ⟨channels, rfl, h⟩
      · cases h
    · rintro ⟨channels', heq, hne, hall⟩
      obtain ⟨rfl, hlast⟩ := List.append_inj' heq rfl
      cases hlast
      simpa using ⟨hne, hall⟩

theorem isHexColor_iff {s : List Char} : isHexColor s ↔ ∃ digits, s = '#' :: digits ∧
    (digits.length = 3 ∨ digits.length = 6) ∧ ∀ c ∈ digits, isHexDigit c := by
  constructor
  · intro h
    unfold isHexColor at h
    split at h
    · next digits => exact ⟨digits, rfl, by simpa using h⟩
    · cases h
  · rintro ⟨digits, rfl, h⟩
    simpa [isHexColor] using h

theorem isFunctionalColor_iff {s : List Char} : isFunctionalColor s ↔
    ∃ t, isChannels t ∧ (s = "rgb(".toList ++ t ∨ s = "rgba(".toList ++ t) := by
  constructor
  · intro h
    unfold isFunctionalColor at h
    split at h
    · next t => exact ⟨t, h, .inr rfl⟩
    · next t => exact ⟨t, h, .inl rfl⟩
    · cases h
  · rintro ⟨t, h, rfl | rfl⟩
    · exact h
    · exact h

theorem isColor_iff {s : String} : isColor s ↔ IsColor (Text.trim s.toList) := by
  rw [isColor]
  generalize Text.trim s.toList = text
  rw [Bool.or_eq_true, isHexColor_iff, isFunctionalColor_iff]
  constructor
  · rintro (⟨digits, rfl, hlength, hdigits⟩ | ⟨t, ht, htext⟩)
    · exact .hex hlength hdigits
    · obtain ⟨channels, rfl, hne, hchannels⟩ := isChannels_iff.1 ht
      rcases htext with rfl | rfl
      · exact .rgb hne hchannels
      · exact .rgba hne hchannels
  · intro h
    cases h with
    | hex hlength hdigits => exact .inl ⟨_, rfl, hlength, hdigits⟩
    | rgb hne hchannels =>
      exact .inr ⟨_, isChannels_iff.2 ⟨_, rfl, hne, hchannels⟩, .inl rfl⟩
    | rgba hne hchannels =>
      exact .inr ⟨_, isChannels_iff.2 ⟨_, rfl, hne, hchannels⟩, .inr rfl⟩

end Schema

namespace Value

/-- Neither an infinite number nor nan. What lists and maps hold does not count. -/
def isFinite : Value → Bool
  | .number n => n.isFinite
  | _ => true

/-- What is not nan equals what it is alike to. -/
theorem alike_eq_equals {v : Value} (h : v.isFinite) (w : Value) : v.alike w = v.equals w := by
  unfold equals
  split
  · next a b => simp [alike, number?, alikeNumbers, Number.isNan_eq_false_of_isFinite h]
  · rfl

theorem memberOf_iff {v : Value} (h : v.isFinite) {items : List Value} :
    v.memberOf items ↔ ∃ w ∈ items, v.equals w := by
  simp only [memberOf, List.any_eq_true, alike_eq_equals h]

end Value

namespace Setting

/-- The values that a kind allows. -/
def Kind.Admits : Kind → Value → Prop
  | .range low high _ _, v => ∃ n : Number, v = .number n ∧
    (∀ bound ∈ low, bound.toRat ≤ n.toRat) ∧ ∀ bound ∈ high, n.toRat ≤ bound.toRat
  | .choice options, v =>
    v.isFilled = false ∨ options = [] ∨ ∃ o ∈ options, v.equals o.value
  | .color, v => ∀ s, v = .str s → s = "" ∨ Schema.IsColor (Text.trim s.toList)
  | .resourceList limit, v =>
    ∀ items, v = .list items → ∀ most ∈ limit, (items.length : Int) ≤ most
  | _, _ => True

/-- Bounds that are declared are finite. -/
def Kind.FiniteBounds : Kind → Prop
  | .range low high _ _ => (∀ bound ∈ low, bound.isFinite) ∧ ∀ bound ∈ high, bound.isFinite
  | _ => True

theorem isBelow_eq_false_iff {n : Number} (hn : n.isFinite) {low : Option Number}
    (hlow : ∀ bound ∈ low, bound.isFinite) :
    isBelow n low = false ↔ ∀ bound ∈ low, bound.toRat ≤ n.toRat := by
  cases low with
  | none => simp [isBelow]
  | some bound =>
    simp [isBelow, Number.order?_eq_lt_iff hn (hlow bound rfl)]

theorem isAbove_eq_false_iff {n : Number} (hn : n.isFinite) {high : Option Number}
    (hhigh : ∀ bound ∈ high, bound.isFinite) :
    isAbove n high = false ↔ ∀ bound ∈ high, n.toRat ≤ bound.toRat := by
  cases high with
  | none => simp [isAbove]
  | some bound =>
    simp [isAbove, Number.order?_eq_gt_iff hn (hhigh bound rfl)]

theorem Kind.complaint?_eq_none_iff {k : Kind} (hk : k.FiniteBounds) {v : Value}
    (hv : v.isFinite) : k.complaint? v = none ↔ k.Admits v := by
  cases k with
  | range low high step unit =>
    cases v with
    | number n =>
      simp [complaint?, Admits, isBelow_eq_false_iff hv hk.1, isAbove_eq_false_iff hv hk.2]
    | _ => simp [complaint?, Admits]
  | choice options =>
    have hmem : v.memberOf (options.map (·.value)) ↔ ∃ o ∈ options, v.equals o.value := by
      rw [Value.memberOf_iff hv]
      simp
    rw [complaint?, Admits, ← hmem]
    cases v.isFilled <;> cases v.memberOf (options.map (·.value)) <;> simp
  | color =>
    cases v with
    | str s => simp [complaint?, Admits, ← Schema.isColor_iff, or_iff_not_imp_left]
    | _ => simp [complaint?, Admits]
  | resourceList limit =>
    cases limit with
    | none => simp [complaint?, Admits]
    | some most => cases v <;> simp [complaint?, Admits]
  | _ => simp [complaint?, Admits]

/-- Each value that is not null is one that its declaration allows. -/
def Admitted (settings : List Setting) (values : Dict Value) : Prop :=
  ∀ s ∈ settings, ∀ id ∈ s.id?, ∀ v, values.get? id = some v → v ≠ .null → s.kind.Admits v

theorem issue?_eq_none_iff {s : Setting} (hs : s.kind.FiniteBounds) {values : Dict Value}
    (hvalues : ∀ p ∈ values, p.2.isFinite) : s.issue? values = none ↔
    ∀ id ∈ s.id?, ∀ v, values.get? id = some v → v ≠ .null → s.kind.Admits v := by
  rw [issue?]
  cases s.id? with
  | none => simp
  | some id =>
    cases hget : values.get? id with
    | none => simp [hget]
    | some v =>
      have hv := Kind.complaint?_eq_none_iff hs (hvalues _ (Dict.mem_of_get? hget))
      cases v with
      | null => simp [hget]
      | _ => simp [hget, hv]

theorem issues_eq_nil_iff {settings : List Setting}
    (hsettings : ∀ s ∈ settings, s.kind.FiniteBounds) {values : Dict Value}
    (hvalues : ∀ p ∈ values, p.2.isFinite) :
    issues values settings = [] ↔ Admitted settings values := by
  rw [issues, List.filterMap_eq_nil_iff]
  exact forall₂_congr fun s hs => issue?_eq_none_iff (hsettings s hs) hvalues

end Setting

end Storefront
