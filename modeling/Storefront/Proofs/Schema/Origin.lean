import Storefront.Outcome
import Storefront.Schema.Reading

/-!
Where the parts of a schema that is read come from: each setting and each block definition is read
from an entry of a list of the payload. What holds of all settings as they are read therefore holds
of all settings of a schema.
-/

namespace Storefront

open Value

namespace Setting

theorem exists_of_mem_listOfValues {place : String} {position : Nat} {items : List Value}
    {settings : List Setting} (h : listOfValues place position items = .ok settings) {s : Setting}
    (hs : s ∈ settings) : ∃ place, ∃ v ∈ items, ofValue place v = .ok s := by
  induction items generalizing position settings with
  | nil =>
    cases h
    cases hs
  | cons v items ih =>
    rw [listOfValues] at h
    obtain ⟨first, hfirst, h⟩ := except_bind_eq_ok.1 h
    obtain ⟨more, hmore, h⟩ := except_bind_eq_ok.1 h
    cases h
    rcases List.mem_cons.1 hs with rfl | hs
    · exact ⟨_, v, List.mem_cons_self, hfirst⟩
    · obtain ⟨place, w, hw, hs⟩ := ih hmore hs
      exact ⟨place, w, List.mem_cons_of_mem _ hw, hs⟩

/-- A setting of a list is read from one of its entries. -/
theorem exists_of_mem_listOfValue {place : String} {v : Value} {settings : List Setting}
    (h : listOfValue place v = .ok settings) {s : Setting} (hs : s ∈ settings) :
    ∃ items, v = .list items ∧ ∃ place, ∃ w ∈ items, ofValue place w = .ok s := by
  unfold listOfValue at h
  split at h
  · cases h
    cases hs
  · next items => exact ⟨items, rfl, exists_of_mem_listOfValues h hs⟩
  · cases h

end Setting

namespace BlockDefinition

theorem exists_of_mem_listOfValues {position : Nat} {items : List Value}
    {blocks : List BlockDefinition} (h : listOfValues position items = .ok blocks)
    {b : BlockDefinition} (hb : b ∈ blocks) :
    ∃ position, ∃ v ∈ items, ofValue position v = .ok b := by
  induction items generalizing position blocks with
  | nil =>
    cases h
    cases hb
  | cons v items ih =>
    rw [listOfValues] at h
    obtain ⟨first, hfirst, h⟩ := except_bind_eq_ok.1 h
    obtain ⟨more, hmore, h⟩ := except_bind_eq_ok.1 h
    cases h
    rcases List.mem_cons.1 hb with rfl | hb
    · exact ⟨_, v, List.mem_cons_self, hfirst⟩
    · obtain ⟨position, w, hw, hb⟩ := ih hmore hb
      exact ⟨position, w, List.mem_cons_of_mem _ hw, hb⟩

/-- A block definition of a list is read from one of its entries. -/
theorem exists_of_mem_listOfValue {v : Value} {blocks : List BlockDefinition}
    (h : listOfValue v = .ok blocks) {b : BlockDefinition} (hb : b ∈ blocks) :
    ∃ items, v = .list items ∧ ∃ position, ∃ w ∈ items, ofValue position w = .ok b := by
  unfold listOfValue at h
  split at h
  · cases h
    cases hb
  · next items => exact ⟨items, rfl, exists_of_mem_listOfValues h hb⟩
  · cases h

theorem settings_of_ofValue {position : Nat} {v : Value} {b : BlockDefinition}
    (h : ofValue position v = .ok b) : ∃ fields place, v = .map fields ∧
      Setting.listOfValue place (field fields "settings") = .ok b.settings := by
  unfold ofValue at h
  split at h
  · next fields =>
    split at h
    · obtain ⟨limit, -, h⟩ := except_bind_eq_ok.1 h
      obtain ⟨settings, hsettings, h⟩ := except_bind_eq_ok.1 h
      cases h
      exact ⟨fields, _, rfl, hsettings⟩
    · cases h
  · cases h

end BlockDefinition

namespace SectionSchema

theorem parts_of_ofValue {v : Value} {s : SectionSchema} (h : ofValue v = .ok s) :
    ∃ fields, v = .map fields ∧
      Setting.listOfValue "schema" (field fields "settings") = .ok s.settings ∧
      BlockDefinition.listOfValue (field fields "blocks") = .ok s.blocks := by
  unfold ofValue at h
  split at h
  · next fields =>
    obtain ⟨settings, hsettings, h⟩ := except_bind_eq_ok.1 h
    obtain ⟨blocks, hblocks, h⟩ := except_bind_eq_ok.1 h
    repeat obtain ⟨_, -, h⟩ := except_bind_eq_ok.1 h
    cases h
    exact ⟨fields, rfl, hsettings, hblocks⟩
  · cases h

/-- The settings of a schema and of its block types are all read one by one. -/
theorem exists_ofValue_of_mem {v : Value} {s : SectionSchema} (h : ofValue v = .ok s) :
    (∀ t ∈ s.settings, ∃ place w, Setting.ofValue place w = .ok t) ∧
      ∀ b ∈ s.blocks, ∀ t ∈ b.settings, ∃ place w, Setting.ofValue place w = .ok t := by
  obtain ⟨fields, -, hsettings, hblocks⟩ := parts_of_ofValue h
  constructor
  · intro t ht
    obtain ⟨_, -, place, w, -, hw⟩ := Setting.exists_of_mem_listOfValue hsettings ht
    exact ⟨place, w, hw⟩
  · intro b hb t ht
    obtain ⟨_, -, position, x, -, hx⟩ := BlockDefinition.exists_of_mem_listOfValue hblocks hb
    obtain ⟨_, place, -, hown⟩ := BlockDefinition.settings_of_ofValue hx
    obtain ⟨_, -, place, w, -, hw⟩ := Setting.exists_of_mem_listOfValue hown ht
    exact ⟨place, w, hw⟩

end SectionSchema

end Storefront
