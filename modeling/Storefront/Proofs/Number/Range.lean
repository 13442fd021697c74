import Mathlib.Algebra.Ring.Nat
import Storefront.Number

/-!
The integers within the range of floating-point numbers: those that round to a mantissa of 53 bits
at the greatest exponent or below.
-/

namespace Storefront

namespace Binary64

theorem exponentFor_one {num : Nat} (h : num ≠ 0) : exponentFor num 1 = num.log2 - 52 := by
  have hlow := Nat.log2_self_le h
  have hfull : ¬(scaleDown num 1 (num.log2 - 52)).1 / (scaleDown num 1 (num.log2 - 52)).2 <
      leastFull := by
    rw [Nat.not_lt, scaleDown, leastFull, Nat.shiftLeft_eq, Nat.one_mul]
    split
    · next hexp =>
      have hlog : num.log2 = 52 + ((num.log2 : Int) - 52).toNat := by omega
      rw [Nat.shiftLeft_eq, Nat.one_mul, Nat.le_div_iff_mul_le (Nat.two_pow_pos _), ← Nat.pow_add,
        ← hlog]
      exact hlow
    · next hexp =>
      have hlog : num.log2 + (-((num.log2 : Int) - 52)).toNat = 52 := by omega
      rw [Nat.shiftLeft_eq, Nat.div_one]
      calc 2 ^ 52 = 2 ^ num.log2 * 2 ^ (-((num.log2 : Int) - 52)).toNat := by
            rw [← Nat.pow_add, hlog]
        _ ≤ num * 2 ^ (-((num.log2 : Int) - 52)).toNat := Nat.mul_le_mul_right _ hlow
  have hguess : (num.log2 : Int) - (Nat.log2 1 : Int) - 52 = num.log2 - 52 := by
    rw [show Nat.log2 1 = 0 by decide]
    omega
  rw [exponentFor]
  simp only [hguess, hfull, if_false]
  omega

/-- Rounding goes up by one at most. -/
theorem roundQuotient_le (num den : Nat) : roundQuotient num den ≤ num / den + 1 := by
  rw [roundQuotient]
  split
  · exact Nat.le_succ _
  · exact Nat.le_refl _

/-- An integer whose leading bit has the weight of the greatest exponent rounds to a mantissa of 54
bits from half a step above the greatest number on. -/
theorem roundQuotient_eq_full_iff (num : Nat) {half : Nat} (hpos : 0 < half)
    (hlt : num < 2 ^ 53 * (2 * half)) :
    roundQuotient num (2 * half) = 2 * leastFull ↔ 2 ^ 54 * half - half ≤ num := by
  have hfull : 2 * leastFull = 2 ^ 53 := by decide
  have hdiv := Nat.div_add_mod num (2 * half)
  have hmod := Nat.mod_lt num (Nat.mul_pos (by decide : 0 < 2) hpos)
  have hq : num / (2 * half) < 2 ^ 53 := Nat.div_lt_of_lt_mul (by rwa [Nat.mul_comm])
  rw [hfull]
  by_cases htop : num / (2 * half) = 2 ^ 53 - 1
  · rw [htop] at hdiv
    rw [roundQuotient, htop]
    have hodd : ¬(2 ^ 53 - 1) % 2 = 0 := by decide
    split
    · next hround =>
      have hround : 2 * (num % (2 * half)) < 2 * half := by simpa [hodd] using hround
      omega
    · next hround =>
      have hround : ¬2 * (num % (2 * half)) < 2 * half := by simpa [hodd] using hround
      omega
  · have hround := roundQuotient_le num (2 * half)
    have hsucc : num / (2 * half) + 1 ≤ 2 ^ 53 - 1 := by omega
    have hnum : num < (2 ^ 53 - 1) * (2 * half) :=
      Nat.lt_of_lt_of_le (Nat.lt_mul_of_div_lt (Nat.lt_succ_self _) (by omega))
        (Nat.mul_le_mul_right _ hsucc)
    omega

/-- Half the step between the greatest floating-point numbers. -/
def halfStep : Nat := 2 ^ 970

theorem halfStep_pos : 0 < halfStep := by
  unfold halfStep
  apply Nat.pow_pos
  decide

theorem scaleDown_succ (num k : Nat) : scaleDown num 1 (k + 1) = (num, 2 * 2 ^ k) := by
  rw [scaleDown, if_pos (by omega), Nat.shiftLeft_eq, Nat.one_mul, ← Int.natCast_succ,
    Int.toNat_natCast, Nat.pow_succ, Nat.mul_comm]

/-- An integer is finite unless its mantissa is carried over the greatest exponent. -/
theorem isFinite_ofQuotient_one {num : Nat} (h : num ≠ 0) (negative : Bool) :
    (ofQuotient negative num 1).isFinite = true ↔ num.log2 < 1023 ∨
      num.log2 = 1023 ∧ roundQuotient num (2 * halfStep) ≠ 2 * leastFull := by
  rw [ofQuotient, if_neg h]
  simp only [exponentFor_one h]
  have hscale : num.log2 = 1023 →
      scaleDown num 1 ((num.log2 : Int) - 52) = (num, 2 * halfStep) := fun hlog => by
    have hexp : (num.log2 : Int) - 52 = (970 : Nat) + 1 := by omega
    rw [hexp, scaleDown_succ, halfStep]
  generalize hm : roundQuotient (scaleDown num 1 ((num.log2 : Int) - 52)).1
    (scaleDown num 1 ((num.log2 : Int) - 52)).2 = m
  have htop : num.log2 = 1023 → roundQuotient num (2 * halfStep) = m := fun hlog => by
    rw [← hm, hscale hlog]
  by_cases hfull : m = 2 * leastFull
  · simp only [hfull, if_true]
    split
    · next hexp =>
      refine ⟨fun hfinite => Bool.noConfusion hfinite, ?_⟩
      rintro (hlog | ⟨hlog, hne⟩)
      · omega
      · exact absurd ((htop hlog).trans hfull) hne
    · next hexp => exact ⟨fun _ => .inl (by omega), fun _ => rfl⟩
  · simp only [hfull, if_false]
    split
    · next hexp =>
      refine ⟨fun hfinite => Bool.noConfusion hfinite, ?_⟩
      rintro (hlog | ⟨hlog, -⟩) <;> omega
    · next hexp =>
      refine ⟨fun _ => ?_, fun _ => rfl⟩
      rcases Nat.lt_or_ge num.log2 1023 with hlog | hlog
      · exact .inl hlog
      · have hlog : num.log2 = 1023 := by omega
        exact .inr ⟨hlog, fun heq => hfull ((htop hlog).symm.trans heq)⟩

end Binary64

namespace Number

/-- Half a step above the greatest floating-point number. Integers from here on round to
infinity. -/
def binary64Limit : Nat := 2 ^ 1024 - Binary64.halfStep

theorem fitsBinary64_iff (n : Int) : fitsBinary64 n = true ↔ n.natAbs < binary64Limit := by
  rw [fitsBinary64, Binary64.ofInt, binary64Limit]
  generalize n.natAbs = num
  -- With exponents that are no numerals yet, no such power is evaluated.
  have hpow (j k : Nat) (h : j = k + 970) : 2 ^ j = 2 ^ k * Binary64.halfStep := by
    rw [h, Binary64.halfStep, pow_add]
  have hover : 2 ^ 1024 = 2 ^ 54 * Binary64.halfStep := hpow 1024 54 rfl
  have hpos := Binary64.halfStep_pos
  by_cases hzero : num = 0
  · subst hzero
    refine ⟨fun _ => ?_, fun _ => rfl⟩
    omega
  · have hlog (j k : Nat) (h : j = k + 970) :
        j ≤ num.log2 ↔ 2 ^ k * Binary64.halfStep ≤ num := by
      rw [← hpow j k h]
      exact Nat.le_log2 hzero
    have hlow : 1023 ≤ num.log2 ↔ 2 ^ 53 * Binary64.halfStep ≤ num := hlog 1023 53 rfl
    have hhigh : 1024 ≤ num.log2 ↔ 2 ^ 54 * Binary64.halfStep ≤ num := hlog 1024 54 rfl
    -- Below 2^1023 and from 2^1024 on the leading bit decides, and between them the rounding.
    rw [Binary64.isFinite_ofQuotient_one hzero, hover]
    by_cases htop : num < 2 ^ 54 * Binary64.halfStep
    · have hcarry := Binary64.roundQuotient_eq_full_iff num hpos (by omega)
      rw [ne_eq, hcarry]
      omega
    · omega

attribute [irreducible] binary64Limit

end Number

end Storefront
