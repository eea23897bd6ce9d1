import Iotistica.ReadingsNormalizer
import Mathlib.Data.Rat.Cast.Order

/-!
# Qualities of status codes

The two top bits of a status code give its severity. The mask of the code is
signed, so that a bad code does not compare equal to its severity, and the two
stale codes are taken for uncertain ones before they are looked for.
-/

set_option autoImplicit false

namespace Iotistica.Readings

def severity (q : ℤ) : ℤ := q/0x40000000

/-- What the bits of a status code say. -/
def qualityOfCode (q : ℤ) : String :=
  if q = 0x40940000 ∨ q = 0x409B0000 then "stale"
  else if severity q = 0 then "good"
  else if severity q = 1 then "uncertain"
  else if severity q = 2 then "bad"
  else "unknown"

theorem and_shiftLeft (n m k : ℕ) : n&&&(m <<< k) = ((n >>> k)&&&m) <<< k := by
  apply Nat.eq_of_testBit_eq
  intro i
  by_cases hi : k ≤ i
  · simp [Nat.testBit_shiftLeft, Nat.testBit_shiftRight, hi]
  · simp [Nat.testBit_shiftLeft, hi]

theorem and_topBits (n : ℕ) : n&&&0xC0000000 = (n/0x40000000%4)*0x40000000 := by
  have hmask : (0xC0000000 : ℕ) = 3 <<< 30 := rfl
  have hthree : (n >>> 30)&&&3 = (n >>> 30)%4 := Nat.and_two_pow_sub_one_eq_mod _ 2
  rw [hmask, and_shiftLeft, hthree, Nat.shiftRight_eq_div_pow, Nat.shiftLeft_eq]

theorem statusBits_code {q : ℤ} (h0 : 0 ≤ q) (hq : q < 0x100000000) :
    statusBits q = if severity q < 2 then severity q*0x40000000
      else (severity q-4)*0x40000000 := by
  obtain ⟨n,rfl⟩ := Int.eq_ofNat_of_zero_le h0
  have hn : n < 2^32 := by omega
  have hbits : (BitVec.ofInt 32 (n : ℤ)&&&0xC0000000#32).toNat = (n/0x40000000%4)*0x40000000 := by
    rw [BitVec.toNat_and, BitVec.ofInt_natCast, BitVec.toNat_ofNat, Nat.mod_eq_of_lt hn]
    exact and_topBits n
  have hs : severity (n : ℤ) = ((n/0x40000000 : ℕ) : ℤ) := by
    simp [severity]
  have hlt : n/0x40000000 < 4 := by omega
  unfold statusBits
  rw [Rat.num_intCast, Rat.den_intCast, Int.natCast_one, Int.tdiv_one, BitVec.toInt_eq_toNat_cond,
    hbits, hs]
  split_ifs <;> omega

theorem normalizeQuality_severity {q : ℤ} (h2 : 2 ≤ q) (hq : q < 0x100000000) :
    normalizeQuality (.number q) =
      if severity q = 0 then "good" else if severity q = 1 then "uncertain" else "unknown" := by
  have h0 : ¬((q : ℚ) = 0 ∨ (q : ℚ) = 1) := by
    rintro (h | h)
    · have : q = 0 := by exact_mod_cast h
      omega
    · have : q = 1 := by exact_mod_cast h
      omega
  have hpos : 0 < (q : ℚ) := by exact_mod_cast (by omega : 0 < q)
  have hrange : 0 ≤ severity q ∧ severity q < 4 := by
    unfold severity
    omega
  have hstale : severity q ≠ 0 → severity q ≠ 1 →
      ¬((q : ℚ) = 0x40940000 ∨ (q : ℚ) = 0x409B0000) := by
    rintro hz ho (h | h)
    · have : q = 0x40940000 := by exact_mod_cast h
      exact ho (by rw [this]; rfl)
    · have : q = 0x409B0000 := by exact_mod_cast h
      exact ho (by rw [this]; rfl)
  have hbits := statusBits_code (by omega) hq
  unfold normalizeQuality
  simp only [if_neg h0, if_pos hpos]
  by_cases hz : severity q = 0
  · have h : statusBits q = 0 := by
      rw [hbits, hz]
      rfl
    rw [if_pos h, if_pos hz]
  have hn : statusBits q ≠ 0 ∧ statusBits q ≠ 0x80000000 := by
    rw [hbits]
    split_ifs <;> omega
  rw [if_neg hn.1, if_neg hz]
  by_cases ho : severity q = 1
  · have h : statusBits q = 0x40000000 := by
      rw [hbits, ho]
      rfl
    rw [if_pos h, if_pos ho]
  · have h : statusBits q ≠ 0x40000000 := by
      rw [hbits]
      split_ifs <;> omega
    rw [if_neg h, if_neg hn.2, if_neg (hstale hz ho), if_neg ho]

theorem normalizeQuality_code (q : ℤ) (h2 : 2 ≤ q) (hq : q < 0x100000000) :
    normalizeQuality (.number q) = qualityOfCode q ↔
      severity q ≠ 2 ∧ q ≠ 0x40940000 ∧ q ≠ 0x409B0000 := by
  rw [normalizeQuality_severity h2 hq]
  unfold qualityOfCode
  by_cases hs : q = 0x40940000 ∨ q = 0x409B0000
  · have ho : severity q = 1 := by
      rcases hs with h | h
      · rw [h]
        rfl
      · rw [h]
        rfl
    rw [if_pos hs, ho]
    simp only [one_ne_zero, if_false, if_true]
    constructor
    · intro h
      exact absurd h (by decide)
    · rintro ⟨-,h1,h2⟩
      rcases hs with h | h
      · exact absurd h h1
      · exact absurd h h2
  rw [if_neg hs]
  obtain ⟨h1,h2⟩ := not_or.mp hs
  split_ifs with hz ho hb
  · exact iff_of_true rfl ⟨by omega,h1,h2⟩
  · exact iff_of_true rfl ⟨by omega,h1,h2⟩
  · exact iff_of_false (by decide) (fun h => h.1 hb)
  · exact iff_of_true rfl ⟨hb,h1,h2⟩

theorem normalizeQuality_code_good :
    normalizeQuality (.number (0x00A20000 : ℤ)) = qualityOfCode 0x00A20000 ↔
      severity 0x00A20000 ≠ 2 ∧ (0x00A20000 : ℤ) ≠ 0x40940000 ∧ (0x00A20000 : ℤ) ≠ 0x409B0000 :=
  normalizeQuality_code 0x00A20000 (by decide) (by decide)

/-- A bad code, and a stale one. -/
theorem normalizeQuality_code_misses :
    normalizeQuality (.number (0x80000000 : ℤ)) = "unknown" ∧ qualityOfCode 0x80000000 = "bad" ∧
    normalizeQuality (.number (0x40940000 : ℤ)) = "uncertain" ∧
    qualityOfCode 0x40940000 = "stale" ∧
    ¬∀ q : ℤ, 2 ≤ q → q < 0x100000000 → normalizeQuality (.number q) = qualityOfCode q := by
  have hbad : normalizeQuality (.number (0x80000000 : ℤ)) = "unknown" :=
    (normalizeQuality_severity (by decide) (by decide)).trans (by decide)
  refine ⟨hbad,by decide,(normalizeQuality_severity (by decide) (by decide)).trans (by decide),
    by decide,fun h => ?_⟩
  have := h 0x80000000 (by decide) (by decide)
  rw [hbad] at this
  exact absurd this (by decide)

end Iotistica.Readings
