import Mathlib.Algebra.Order.Field.Basic
import Mathlib.Algebra.Order.Ring.Rat
import Mathlib.Algebra.Order.Field.Power
import Mathlib.Data.Rat.Cast.Order
import Mathlib.Order.Compare
import Storefront.Number

/-!
The order of finite numbers is the order of the rational numbers that they stand for. Which numbers
stand above or below zero is up to their sign, also where they are infinite.
-/

namespace Storefront.Number

/-- Neither infinite nor nan. -/
def isFinite : Number → Bool
  | .int _ => true
  | .float x => x.isFinite

theorem isNan_eq_false_of_isFinite {n : Number} (h : n.isFinite) : n.isNan = false := by
  match n, h with
  | .int _, _ => rfl
  | .float (.finite ..), _ => rfl

/-- The value of a finite quantity; 0 for the others. -/
def Quantity.toRat : Quantity → ℚ
  | .scaled m e => m * 2 ^ e
  | _ => 0

def toRat (n : Number) : ℚ := n.quantity.toRat

theorem exists_quantity_eq_scaled {n : Number} (h : n.isFinite) :
    ∃ m e, n.quantity = .scaled m e := by
  match n, h with
  | .int k, _ => exact ⟨k, 0, rfl⟩
  | .float (.finite negative m e), _ => exact ⟨_, e, rfl⟩

/-- The mantissa that a quantity has at a smaller exponent. -/
theorem shifted_mul (m : ℤ) {least e : ℤ} (h : least ≤ e) :
    ((m * (1 <<< (e - least).toNat : Nat) : ℤ) : ℚ) * 2 ^ least = m * 2 ^ e := by
  have hpow : ((1 <<< (e - least).toNat : Nat) : ℚ) = 2 ^ (e - least) := by
    rw [Nat.one_shiftLeft, Nat.cast_pow, Nat.cast_ofNat, ← zpow_natCast,
      Int.toNat_of_nonneg (Int.sub_nonneg_of_le h)]
  rw [Int.cast_mul, Int.cast_natCast, hpow, mul_assoc, ← zpow_add₀ (by decide),
    Int.sub_add_cancel]

theorem order?_eq_some_compare {a b : Number} (ha : a.isFinite) (hb : b.isFinite) :
    a.order? b = some (compare a.toRat b.toRat) := by
  obtain ⟨m, e, hm⟩ := exists_quantity_eq_scaled ha
  obtain ⟨n, f, hn⟩ := exists_quantity_eq_scaled hb
  -- The mantissas are compared at the smaller exponent, and to scale them keeps their order.
  have hmono : StrictMono fun k : ℤ => (k : ℚ) * 2 ^ min e f := fun k l hkl =>
    mul_lt_mul_of_pos_right (Int.cast_lt.2 hkl) (zpow_pos (by decide) _)
  rw [order?, toRat, toRat, hm, hn]
  simp only [Quantity.order?, Quantity.toRat]
  rw [← shifted_mul m (min_le_left e f), ← shifted_mul n (min_le_right e f), ← cmp_eq_compare,
    ← cmp_eq_compare, hmono.cmp_map_eq]

theorem order?_eq_lt_iff {a b : Number} (ha : a.isFinite) (hb : b.isFinite) :
    a.order? b = some .lt ↔ a.toRat < b.toRat := by
  rw [order?_eq_some_compare ha hb, Option.some_inj, compare_lt_iff_lt]

theorem order?_eq_gt_iff {a b : Number} (ha : a.isFinite) (hb : b.isFinite) :
    a.order? b = some .gt ↔ b.toRat < a.toRat := by
  rw [order?_eq_some_compare ha hb, Option.some_inj, compare_gt_iff_gt]

/-! ### Zero -/

def Quantity.isPositive : Quantity → Bool
  | .nan => false
  | .infinite negative => !negative
  | .scaled m _ => 0 < m

def Quantity.isNegative : Quantity → Bool
  | .nan => false
  | .infinite negative => negative
  | .scaled m _ => m < 0

/-- Above zero; infinity is. -/
def isPositive (n : Number) : Bool := n.quantity.isPositive

/-- Below zero; negative infinity is, negative zero is not. -/
def isNegative (n : Number) : Bool := n.quantity.isNegative

/-- At any exponent zero compares with a mantissa as zero itself does. -/
theorem Quantity.order?_zero_scaled (m e : ℤ) :
    (Quantity.scaled 0 0).order? (.scaled m e) = some (compare 0 m) := by
  simp only [order?, Int.zero_mul]
  generalize hk : ((1 <<< (e - min 0 e).toNat : Nat) : ℤ) = k
  have hpos : 0 < k := by simp [← hk, Nat.shiftLeft_eq]
  have hmono : StrictMono fun l : ℤ => l * k := fun _ _ h => mul_lt_mul_of_pos_right h hpos
  have hcmp : cmp (0 * k) (m * k) = cmp 0 m := hmono.cmp_map_eq 0 m
  rw [Int.zero_mul] at hcmp
  rw [← cmp_eq_compare, ← cmp_eq_compare, hcmp]

theorem order?_zero_eq_lt_iff {n : Number} :
    order? (.int 0) n = some .lt ↔ n.isPositive = true := by
  show (Quantity.scaled 0 0).order? n.quantity = some .lt ↔ n.quantity.isPositive = true
  cases n.quantity with
  | nan => simp [Quantity.order?, Quantity.isPositive]
  | infinite negative => cases negative <;> simp [Quantity.order?, Quantity.isPositive]
  | scaled m e =>
    rw [Quantity.order?_zero_scaled, Option.some_inj, compare_lt_iff_lt]
    simp [Quantity.isPositive]

theorem order?_zero_eq_gt_iff {n : Number} :
    order? (.int 0) n = some .gt ↔ n.isNegative = true := by
  show (Quantity.scaled 0 0).order? n.quantity = some .gt ↔ n.quantity.isNegative = true
  cases n.quantity with
  | nan => simp [Quantity.order?, Quantity.isNegative]
  | infinite negative => cases negative <;> simp [Quantity.order?, Quantity.isNegative]
  | scaled m e =>
    rw [Quantity.order?_zero_scaled, Option.some_inj, compare_gt_iff_gt]
    simp [Quantity.isNegative]

end Storefront.Number
