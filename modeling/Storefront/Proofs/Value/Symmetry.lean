import Mathlib.Data.List.Perm.Subperm
import Storefront.Proofs.Json.Decoded
import Storefront.Value.Order

/-!
Two values in the other order: equality is symmetric, and the order of two values is turned round
(`Value.equals_comm`, `Value.order?_swap`). Maps are gone through by the keys of the first one only,
so for them this needs distinct keys.
-/

namespace Storefront

/-! ### Numbers -/

namespace Number

theorem Quantity.order?_swap (a b : Quantity) : b.order? a = (a.order? b).map Ordering.swap := by
  cases a with
  | nan => cases b <;> rfl
  | infinite negative =>
    cases b with
    | nan => rfl
    | infinite other => cases negative <;> cases other <;> rfl
    | scaled n f => cases negative <;> rfl
  | scaled m e =>
    cases b with
    | nan => rfl
    | infinite negative => cases negative <;> rfl
    | scaled n f =>
      simp only [Quantity.order?, Option.map_some, Int.min_comm f e, Int.compare_swap]

theorem order?_swap (a b : Number) : b.order? a = (a.order? b).map Ordering.swap :=
  Quantity.order?_swap a.quantity b.quantity

theorem equals_comm (a b : Number) : a.equals b = b.equals a := by
  rw [equals, equals, order?_swap a b]
  cases a.order? b with
  | none => rfl
  | some o => cases o <;> rfl

end Number

/-! ### Maps -/

namespace Dict

variable {α : Type} {d e : Dict α}

/-- Maps of the same size have the same keys where each key of the first is one of the second. -/
theorem keys_subset_of_length_eq (hd : d.keys.Nodup) (hlength : d.length = e.length)
    (hsubset : d.keys ⊆ e.keys) : e.keys ⊆ d.keys := by
  have hle : e.keys.length ≤ d.keys.length := by
    rw [keys, keys, List.length_map, List.length_map]
    omega
  exact ((List.subperm_of_subset hd hsubset).perm_of_length_le hle).symm.subset

/-- Where each entry of a map has its partner in another one of the same size, each entry of that
one has its partner in the first. -/
theorem exists_partner {R : α → α → Prop} (hd : d.keys.Nodup) (he : e.keys.Nodup)
    (hlength : d.length = e.length)
    (h : ∀ p ∈ d, ∃ b, e.get? p.1 = some b ∧ R p.2 b) :
    ∀ q ∈ e, ∃ a, d.get? q.1 = some a ∧ R a q.2 := by
  have hsubset : d.keys ⊆ e.keys := by
    intro k hk
    obtain ⟨p, hp, rfl⟩ := List.mem_map.1 hk
    obtain ⟨b, hb, -⟩ := h p hp
    exact List.mem_map.2 ⟨(p.1, b), mem_of_get? hb, rfl⟩
  rintro ⟨k, b⟩ hq
  have hk : k ∈ d.keys := keys_subset_of_length_eq hd hlength hsubset (List.mem_map_of_mem hq)
  obtain ⟨⟨k, a⟩, hp, rfl⟩ := List.mem_map.1 hk
  obtain ⟨b', hb', hR⟩ := h (k, a) hp
  obtain rfl : b' = b := Option.some.inj (hb'.symm.trans (get?_of_mem he hq))
  exact ⟨a, get?_of_mem hd hp, hR⟩

end Dict

namespace Value

theorem alikeNumbers_comm (a b : Number) : alikeNumbers a b = alikeNumbers b a := by
  rw [alikeNumbers, alikeNumbers, Number.equals_comm, Bool.and_comm]

theorem alikeItems_comm {xs ys : List Value}
    (h : ∀ v ∈ xs, ∀ w ∈ ys, v.alike w = w.alike v) : alikeItems xs ys = alikeItems ys xs := by
  induction xs generalizing ys with
  | nil => cases ys <;> rfl
  | cons v xs ih =>
    cases ys with
    | nil => rfl
    | cons w ys =>
      have hhead := h v List.mem_cons_self w List.mem_cons_self
      have htail := ih fun v hv w hw => h v (List.mem_cons_of_mem _ hv) w (List.mem_cons_of_mem _ hw)
      rw [alikeItems, alikeItems, hhead, htail]

theorem alikeFields_iff {fs gs : Dict Value} :
    alikeFields fs gs = true ↔ ∀ p ∈ fs, ∃ w, gs.get? p.1 = some w ∧ p.2.alike w = true := by
  induction fs with
  | nil => exact ⟨fun _ => List.forall_mem_nil _, fun _ => rfl⟩
  | cons p fs ih =>
    obtain ⟨k, v⟩ := p
    rw [alikeFields, Bool.and_eq_true, ih, List.forall_mem_cons]
    apply and_congr_left'
    cases gs.get? k <;> simp

theorem alikeFields_comm {fs gs : Dict Value} (hfs : fs.keys.Nodup) (hgs : gs.keys.Nodup)
    (hlength : fs.length = gs.length)
    (h : ∀ p ∈ fs, ∀ q ∈ gs, p.2.alike q.2 = q.2.alike p.2) :
    alikeFields fs gs = alikeFields gs fs := by
  rw [Bool.eq_iff_iff, alikeFields_iff, alikeFields_iff]
  constructor
  · intro hall q hq
    obtain ⟨v, hv, halike⟩ :=
      Dict.exists_partner (R := fun v w => v.alike w = true) hfs hgs hlength hall q hq
    exact ⟨v, hv, h (q.1, v) (Dict.mem_of_get? hv) q hq ▸ halike⟩
  · intro hall p hp
    obtain ⟨w, hw, halike⟩ :=
      Dict.exists_partner (R := fun w v => w.alike v = true) hgs hfs hlength.symm hall p hp
    exact ⟨w, hw, (h p hp (p.1, w) (Dict.mem_of_get? hw)).trans halike⟩

theorem alike_comm {v : Value} (hv : v.Distinct) {w : Value} (hw : w.Distinct) :
    v.alike w = w.alike v := by
  induction hv generalizing w with
  | null => cases hw <;> rfl
  | bool | number =>
    cases hw with
    | bool | number => exact alikeNumbers_comm _ _
    | _ => rfl
  | str s =>
    cases hw with
    | str t => exact decide_eq_decide.2 eq_comm
    | _ => rfl
  | list _ ih =>
    cases hw with
    | list hys => exact alikeItems_comm fun v hv w hw => ih v hv (hys w hw)
    | _ => rfl
  | @map fs hfs _ ih =>
    cases hw with
    | @map gs hgs hvalues =>
      by_cases hlength : fs.length = gs.length
      · have hfields := alikeFields_comm hfs hgs hlength fun p hp q hq => ih p hp (hvalues q hq)
        simp [alike, hlength, hfields]
      · simp [alike, hlength, Ne.symm hlength]
    | _ => rfl

/-- Equality of values is symmetric. -/
theorem equals_comm {v w : Value} (hv : v.Distinct) (hw : w.Distinct) :
    v.equals w = w.equals v := by
  have halike := alike_comm hv hw
  cases hv with
  | number a =>
    cases hw with
    | number b => exact Number.equals_comm a b
    | _ => exact halike
  | _ => cases hw <;> exact halike

theorem orderItems?_swap {xs ys : List Value}
    (halike : ∀ v ∈ xs, ∀ w ∈ ys, v.alike w = w.alike v)
    (horder : ∀ v ∈ xs, ∀ w ∈ ys, w.order? v = (v.order? w).map Ordering.swap) :
    orderItems? ys xs = (orderItems? xs ys).map Ordering.swap := by
  induction xs generalizing ys with
  | nil => cases ys <;> rfl
  | cons v xs ih =>
    cases ys with
    | nil => rfl
    | cons w ys =>
      have hhead := halike v List.mem_cons_self w List.mem_cons_self
      have htail := ih
        (fun v hv w hw => halike v (List.mem_cons_of_mem _ hv) w (List.mem_cons_of_mem _ hw))
        (fun v hv w hw => horder v (List.mem_cons_of_mem _ hv) w (List.mem_cons_of_mem _ hw))
      rw [orderItems?, orderItems?, ← hhead]
      split
      · exact htail
      · exact horder v List.mem_cons_self w List.mem_cons_self

/-- Two values that have an order have the opposite one in the other order. -/
theorem order?_swap {v : Value} (hv : v.Distinct) {w : Value} (hw : w.Distinct) :
    w.order? v = (v.order? w).map Ordering.swap := by
  induction hv generalizing w with
  | null => cases hw <;> rfl
  | bool | number =>
    cases hw with
    | bool | number => exact Number.order?_swap _ _
    | _ => rfl
  | str s =>
    cases hw with
    | str t => exact congrArg some Std.OrientedCmp.eq_swap
    | _ => rfl
  | list hxs ih =>
    cases hw with
    | list hys =>
      exact orderItems?_swap (fun v hv w hw => alike_comm (hxs v hv) (hys w hw))
        fun v hv w hw => ih v hv (hys w hw)
    | _ => rfl
  | map => cases hw <;> rfl

end Value

end Storefront
