import Mathlib.Data.Int.Log
import Mathlib.Data.Rat.Floor
import Mathlib.Tactic.Linarith
import Mathlib.Tactic.NormNum
import Mathlib.Tactic.Positivity
import Mathlib.Tactic.Ring

/-!
# Products of doubles

Finite doubles are rationals with a significand of 53 bits, and an operation
on them gives the double nearest to the exact result, the even one of two
that are equally near. Results stay below the overflow threshold, so there
is no infinity.
-/

set_option autoImplicit false

namespace Iotistica.DoubleRounding

def ulp (x : ℚ) : ℚ := 2^(max (Int.log 2 |x|-52) (-1074))

def roundEven (x : ℚ) : ℤ :=
  if 2*(x-⌊x⌋) < 1 then ⌊x⌋
  else if 1 < 2*(x-⌊x⌋) then ⌊x⌋+1
  else if ⌊x⌋%2 = 0 then ⌊x⌋ else ⌊x⌋+1

def nearest (x : ℚ) : ℚ := roundEven (x/ulp x)*ulp x

def mul (x y : ℚ) : ℚ := nearest (x*y)

theorem floor_le_roundEven (x : ℚ) : ⌊x⌋ ≤ roundEven x := by
  unfold roundEven
  split_ifs <;> omega

theorem roundEven_le_succ (x : ℚ) : roundEven x ≤ ⌊x⌋+1 := by
  unfold roundEven
  split_ifs <;> omega

theorem le_roundEven {x : ℚ} {n : ℤ} (h : n ≤ x) : n ≤ roundEven x :=
  (Int.le_floor.mpr h).trans (floor_le_roundEven x)

theorem roundEven_le {x : ℚ} {n : ℤ} (h : x ≤ n) : roundEven x ≤ n := by
  rcases lt_or_ge ⌊x⌋ n with hlt | hge
  · exact (roundEven_le_succ x).trans (Int.add_one_le_of_lt hlt)
  · have hx : x = n := le_antisymm h (Int.le_floor.mp hge)
    subst hx
    simp [roundEven]

theorem exists_ulp {x : ℚ} {j : ℕ} (hj : j ≤ 52) (hx : |x| < 2^(53-j)) :
    ∃ k : ℕ, ulp x = ((2:ℚ)^(j+k))⁻¹ := by
  have hlog : Int.log 2 |x| ≤ 52-j := by
    rcases eq_or_ne |x| 0 with h0 | h0
    · rw [h0, Int.log_zero_right]
      omega
    · have hpow : |x| < ((2:ℕ):ℚ)^((53-j : ℕ):ℤ) := by exact_mod_cast hx
      have hlt := (Int.lt_zpow_iff_log_lt one_lt_two (lt_of_le_of_ne (abs_nonneg x) h0.symm)).mp hpow
      omega
  refine ⟨(-max (Int.log 2 |x|-52) (-1074)-j).toNat,?_⟩
  have hneg : ((j+(-max (Int.log 2 |x|-52) (-1074)-j).toNat : ℕ) : ℤ)
      = -max (Int.log 2 |x|-52) (-1074) := by omega
  rw [← zpow_natCast, hneg, zpow_neg, inv_inv]
  rfl

theorem exists_nearest {x : ℚ} {j : ℕ} (hj : j ≤ 52) (hx : |x| < 2^(53-j)) :
    ∃ k : ℕ, nearest x = roundEven (x*2^(j+k))/2^(j+k) := by
  obtain ⟨k,hk⟩ := exists_ulp hj hx
  exact ⟨k,by rw [nearest, hk, div_inv_eq_mul, ← div_eq_mul_inv]⟩

theorem le_nearest_dyadic {x : ℚ} {n : ℤ} {j : ℕ} (hj : j ≤ 52) (hx : |x| < 2^(53-j))
    (h : n/2^j ≤ x) : n/2^j ≤ nearest x := by
  obtain ⟨k,hk⟩ := exists_nearest hj hx
  have hpos : (0:ℚ) < 2^j := by positivity
  have hscaled : ((n*2^k : ℤ) : ℚ) ≤ x*2^(j+k) := by
    push_cast
    rw [pow_add, ← mul_assoc]
    exact mul_le_mul_of_nonneg_right ((div_le_iff₀ hpos).mp h) (by positivity)
  have hround : ((n*2^k : ℤ) : ℚ) ≤ roundEven (x*2^(j+k)) := by exact_mod_cast le_roundEven hscaled
  push_cast at hround
  rw [hk, div_le_div_iff₀ hpos (by positivity), pow_add]
  calc (n:ℚ)*(2^j*2^k) = n*2^k*2^j := by ring
    _ ≤ roundEven (x*2^(j+k))*2^j := mul_le_mul_of_nonneg_right hround hpos.le
    _ = roundEven (x*(2^j*2^k))*2^j := by rw [pow_add]

theorem nearest_le_dyadic {x : ℚ} {n : ℤ} {j : ℕ} (hj : j ≤ 52) (hx : |x| < 2^(53-j))
    (h : x ≤ n/2^j) : nearest x ≤ n/2^j := by
  obtain ⟨k,hk⟩ := exists_nearest hj hx
  have hpos : (0:ℚ) < 2^j := by positivity
  have hscaled : x*2^(j+k) ≤ ((n*2^k : ℤ) : ℚ) := by
    push_cast
    rw [pow_add, ← mul_assoc]
    exact mul_le_mul_of_nonneg_right ((le_div_iff₀ hpos).mp h) (by positivity)
  have hround : (roundEven (x*2^(j+k)) : ℚ) ≤ ((n*2^k : ℤ) : ℚ) := by
    exact_mod_cast roundEven_le hscaled
  push_cast at hround
  rw [hk, div_le_div_iff₀ (by positivity) hpos, pow_add]
  calc (roundEven (x*(2^j*2^k)) : ℚ)*2^j = roundEven (x*2^(j+k))*2^j := by rw [pow_add]
    _ ≤ n*2^k*2^j := mul_le_mul_of_nonneg_right hround hpos.le
    _ = n*(2^j*2^k) := by ring

theorem le_nearest {x : ℚ} {n : ℤ} (hx : |x| < 2^53) (h : n ≤ x) : n ≤ nearest x := by
  simpa using le_nearest_dyadic (j := 0) (by omega) hx (by simpa using h)

theorem nearest_le {x : ℚ} {n : ℤ} (hx : |x| < 2^53) (h : x ≤ n) : nearest x ≤ n := by
  simpa using nearest_le_dyadic (j := 0) (by omega) hx (by simpa using h)

end Iotistica.DoubleRounding
