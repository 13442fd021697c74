import Storefront.Outcome
import Storefront.Proofs.Json.RoundTrip

/-!
What decoding gives: data in which the keys of every map are distinct. With the floating-point
numbers that survive printing and reading this is the data that is read back from its text.
-/

namespace Storefront

namespace Value

/-- The keys of each map are distinct. -/
inductive Distinct : Value → Prop
  | null : Distinct .null
  | bool (b : Bool) : Distinct (.bool b)
  | number (n : Number) : Distinct (.number n)
  | str (s : String) : Distinct (.str s)
  | list {items : List Value} (h : ∀ v ∈ items, Distinct v) : Distinct (.list items)
  | map {fields : Dict Value} (hkeys : fields.keys.Nodup) (h : ∀ p ∈ fields, Distinct p.2) :
    Distinct (.map fields)

mutual

/-- The floating-point numbers in a value. -/
def floats : Value → List Binary64
  | .number (.float x) => [x]
  | .list items => floatsOfItems items
  | .map fields => floatsOfFields fields
  | _ => []

def floatsOfItems : List Value → List Binary64
  | [] => []
  | v :: vs => floats v ++ floatsOfItems vs

def floatsOfFields : List (String × Value) → List Binary64
  | [] => []
  | (_, v) :: fields => floats v ++ floatsOfFields fields

end

theorem floats_subset_of_item {items : List Value} {v : Value} (h : v ∈ items) :
    v.floats ⊆ floatsOfItems items := by
  induction items with
  | nil => cases h
  | cons w items ih =>
    rcases List.mem_cons.1 h with rfl | h
    · exact List.subset_append_left _ _
    · exact List.subset_append_of_subset_right _ (ih h)

theorem floats_subset_of_field {fields : List (String × Value)} {p : String × Value}
    (h : p ∈ fields) : p.2.floats ⊆ floatsOfFields fields := by
  induction fields with
  | nil => cases h
  | cons q fields ih =>
    rcases List.mem_cons.1 h with rfl | h
    · exact List.subset_append_left _ _
    · exact List.subset_append_of_subset_right _ (ih h)

namespace Distinct

theorem items {items : List Value} (h : (Value.list items).Distinct) : ∀ v ∈ items, v.Distinct := by
  cases h with
  | list h => exact h

theorem fields {fields : Dict Value} (h : (Value.map fields).Distinct) :
    ∀ p ∈ fields, p.2.Distinct := by
  cases h with
  | map _ h => exact h

theorem get? {fields : Dict Value} (h : (Value.map fields).Distinct) {key : String} {v : Value}
    (hv : fields.get? key = some v) : v.Distinct :=
  h.fields (key, v) (Dict.mem_of_get? hv)

theorem field {fields : Dict Value} (h : (Value.map fields).Distinct) (key : String) :
    (Value.field fields key).Distinct := by
  rw [Value.field]
  cases hv : fields.get? key with
  | none => exact .null
  | some v => exact h.get? hv

theorem list_map {α : Type} {l : List α} {f : α → Value} (h : ∀ a ∈ l, (f a).Distinct) :
    (Value.list (l.map f)).Distinct :=
  .list (List.forall_mem_map.2 h)

theorem map_nil : (Value.map []).Distinct := .map List.nodup_nil (List.forall_mem_nil _)

end Distinct

end Value

namespace Json

theorem Data.of_distinct {v : Value} (h : v.Distinct)
    (hfloats : ∀ x ∈ v.floats, Survives (.float x)) : Data v := by
  induction h with
  | null => exact .null
  | bool b => exact .bool b
  | number n =>
    refine .number fun x hx => ?_
    subst hx
    exact hfloats x List.mem_cons_self
  | str s => exact .str s
  | list _ ih =>
    exact .list fun v hv => ih v hv fun x hx => hfloats x (Value.floats_subset_of_item hv hx)
  | map hkeys _ ih =>
    exact .map hkeys fun p hp => ih p hp fun x hx =>
      hfloats x (Value.floats_subset_of_field hp hx)

/-! ### Values that are decoded -/

/-- What is read with the fuel is distinct. -/
structure ReadsDistinct (fuel : Nat) : Prop where
  value : ∀ {s v r}, value fuel s = .ok (v, r) → v.Distinct
  elements : ∀ {s vs r}, elements fuel s = .ok (vs, r) → ∀ v ∈ vs, v.Distinct
  members : ∀ {s fields r}, members fuel s = .ok (fields, r) → ∀ p ∈ fields, p.2.Distinct

namespace ReadsDistinct

variable {fuel : Nat}

theorem value_succ (h : ReadsDistinct fuel) {s r : List Char} {v : Value}
    (hv : Json.value (fuel + 1) s = .ok (v, r)) : v.Distinct := by
  -- The branches of the reader in turn: text, maps, lists, words and numbers.
  unfold Json.value at hv
  split at hv
  · obtain ⟨⟨t, rest⟩, -, hv⟩ := except_bind_eq_ok.1 hv
    cases hv
    exact .str t
  · split at hv
    · cases hv
      exact .map_nil
    · obtain ⟨⟨fields, rest⟩, hfields, hv⟩ := except_bind_eq_ok.1 hv
      cases hv
      exact .map (Dict.nodup_keys_ofList fields) (Dict.forall_mem_ofList (h.members hfields))
  · split at hv
    · cases hv
      exact .list (List.forall_mem_nil _)
    · obtain ⟨⟨items, rest⟩, hitems, hv⟩ := except_bind_eq_ok.1 hv
      cases hv
      exact .list (h.elements hitems)
  · cases hv
    exact .null
  · cases hv
    exact .bool true
  · cases hv
    exact .bool false
  · cases hv
    exact .number _
  · cases hv
    exact .number _
  · cases hv
    exact .number _
  · split at hv
    · cases hv
      exact .number _
    · cases hv

theorem elements_succ (h : ReadsDistinct fuel) {s r : List Char} {vs : List Value}
    (hvs : Json.elements (fuel + 1) s = .ok (vs, r)) : ∀ v ∈ vs, v.Distinct := by
  rw [Json.elements] at hvs
  obtain ⟨⟨v, t⟩, hv, hvs⟩ := except_bind_eq_ok.1 hvs
  simp only at hvs
  split at hvs
  · cases hvs
    exact List.forall_mem_singleton.2 (h.value hv)
  · obtain ⟨⟨more, rest⟩, hmore, hvs⟩ := except_bind_eq_ok.1 hvs
    cases hvs
    exact List.forall_mem_cons.2 ⟨h.value hv, h.elements hmore⟩
  · cases hvs

theorem members_succ (h : ReadsDistinct fuel) {s r : List Char} {fields : List (String × Value)}
    (hfields : Json.members (fuel + 1) s = .ok (fields, r)) : ∀ p ∈ fields, p.2.Distinct := by
  unfold Json.members at hfields
  split at hfields
  · obtain ⟨⟨k, t⟩, -, hfields⟩ := except_bind_eq_ok.1 hfields
    simp only at hfields
    split at hfields
    · obtain ⟨⟨v, u⟩, hv, hfields⟩ := except_bind_eq_ok.1 hfields
      simp only at hfields
      split at hfields
      · cases hfields
        exact List.forall_mem_singleton.2 (h.value hv)
      · obtain ⟨⟨more, rest⟩, hmore, hfields⟩ := except_bind_eq_ok.1 hfields
        cases hfields
        exact List.forall_mem_cons.2 ⟨h.value hv, h.members hmore⟩
      · cases hfields
    · cases hfields
  · cases hfields

end ReadsDistinct

theorem readsDistinct (fuel : Nat) : ReadsDistinct fuel := by
  induction fuel with
  | zero => exact ⟨nofun, nofun, nofun⟩
  | succ fuel ih => exact ⟨ih.value_succ, ih.elements_succ, ih.members_succ⟩

theorem distinct_of_decodeCommented {s : List Char} {v : Value}
    (h : decodeCommented s = .ok v) : v.Distinct := by
  rw [decodeCommented, decode] at h
  split at h
  · next w hdocument =>
    cases h
    unfold document at hdocument
    split at hdocument
    · cases hdocument
    · obtain ⟨⟨w, rest⟩, hw, hdocument⟩ := except_bind_eq_ok.1 hdocument
      simp only at hdocument
      split at hdocument
      · cases hdocument
        exact (readsDistinct _).value hw
      · cases hdocument
  · cases h

end Json

end Storefront
