import Mathlib.Data.Nat.Bitwise
import Mathlib.Tactic.Ring

/-! Masks and alignment of 64-bit words, stated over the natural number a word
denotes so that the arithmetic of callers stays linear. -/

namespace Word

theorem testBit_two_pow_sub (k n i : Nat) (h : k ≤ n) :
    (2 ^ n - 2 ^ k).testBit i = (decide (k ≤ i) && decide (i < n)) := by
  have he : 2 ^ n - 2 ^ k = (2 ^ (n - k) - 1) <<< k := by
    rw [Nat.shiftLeft_eq, Nat.sub_mul, ← Nat.pow_add, Nat.sub_add_cancel h, Nat.one_mul]
  rw [he, Nat.testBit_shiftLeft, Nat.testBit_two_pow_sub_one]
  by_cases hi : k ≤ i <;> simp [hi]
  omega

theorem and_high_mask {x k : Nat} (hx : x < 2 ^ 64) (hk : k ≤ 64) :
    x &&& (2 ^ 64 - 2 ^ k) = x / 2 ^ k * 2 ^ k := by
  apply Nat.eq_of_testBit_eq
  intro i
  rw [Nat.testBit_and, testBit_two_pow_sub k 64 i hk, ← Nat.shiftRight_eq_div_pow,
    ← Nat.shiftLeft_eq, Nat.testBit_shiftLeft, Nat.testBit_shiftRight]
  by_cases hi : k ≤ i
  · by_cases h64 : i < 64
    · simp [hi, h64]
    · have hz : x.testBit i = false :=
        Nat.testBit_lt_two_pow (hx.trans_le (Nat.pow_le_pow_right (by decide) (by omega)))
      simp [hi, h64, hz]
  · simp [hi]

variable {x a : UInt64} {k : Nat}

theorem exponent_lt (ha : a.toNat = 2 ^ k) : k < 64 := by
  have h := a.toNat_lt
  rw [ha] at h
  exact (Nat.pow_lt_pow_iff_right (by decide)).mp h

theorem toNat_pred (ha : a.toNat = 2 ^ k) : (a - 1).toNat = 2 ^ k - 1 := by
  have h1 : 1 ≤ 2 ^ k := Nat.one_le_two_pow
  rw [UInt64.toNat_sub_of_le _ _ (by rw [UInt64.le_iff_toNat_le, ha]; simpa using h1), ha]
  rfl

theorem toNat_and_not (ha : a.toNat = 2 ^ k) :
    (x &&& ~~~(a - 1)).toNat = x.toNat / 2 ^ k * 2 ^ k := by
  have h1 : 1 ≤ 2 ^ k := Nat.one_le_two_pow
  have hn : (~~~(a - 1)).toNat = 2 ^ 64 - 2 ^ k := by
    rw [UInt64.toNat_not, toNat_pred ha]
    simp only [UInt64.size]
    omega
  rw [UInt64.toNat_and, hn, and_high_mask x.toNat_lt (exponent_lt ha).le]

theorem toNat_and_pred (ha : a.toNat = 2 ^ k) :
    (x &&& (a - 1)).toNat = x.toNat % 2 ^ k := by
  rw [UInt64.toNat_and, toNat_pred ha, Nat.and_two_pow_sub_one_eq_mod]

theorem toNat_or_low {a c : UInt64} {k : Nat} (ha : a.toNat % 2 ^ k = 0) (hc : c.toNat < 2 ^ k) :
    (a ||| c).toNat = a.toNat + c.toNat := by
  have he : a.toNat = (a.toNat / 2 ^ k) <<< k := by
    rw [Nat.shiftLeft_eq]
    exact (Nat.div_mul_cancel (Nat.dvd_of_mod_eq_zero ha)).symm
  rw [UInt64.toNat_or, he, ← Nat.shiftLeft_add_eq_or_of_lt hc]

theorem toNat_or_div {a c : UInt64} {k : Nat} (hc : c.toNat < 2 ^ k) :
    (a ||| c).toNat / 2 ^ k = a.toNat / 2 ^ k := by
  rw [UInt64.toNat_or, ← Nat.shiftRight_eq_div_pow, ← Nat.shiftRight_eq_div_pow,
    Nat.shiftRight_or_distrib, Nat.shiftRight_eq_div_pow c.toNat, Nat.div_eq_of_lt hc, Nat.or_zero]

/-! ## Single bits -/

def bit (k : Nat) : UInt64 := 1 <<< UInt64.ofNat k

theorem toNat_bit {k : Nat} (hk : k < 64) : (bit k).toNat = 2 ^ k := by
  have hk' : (UInt64.ofNat k).toNat % 64 = k := by
    rw [UInt64.toNat_ofNat']
    omega
  rw [bit, UInt64.toNat_shiftLeft, hk', UInt64.toNat_one, Nat.one_shiftLeft]
  exact Nat.mod_eq_of_lt (Nat.pow_lt_pow_right (by decide) hk)

theorem and_bit_eq_zero {w : UInt64} {k : Nat} (hk : k < 64) :
    w &&& bit k = 0 ↔ w.toNat.testBit k = false := by
  rw [← UInt64.toNat_inj, UInt64.toNat_and, toNat_bit hk, Nat.and_two_pow]
  cases w.toNat.testBit k <;> simp

theorem bne_and_bit {w : UInt64} {k : Nat} (hk : k < 64) : (w &&& bit k != 0) = w.toNat.testBit k := by
  have h := and_bit_eq_zero (w := w) hk
  cases hb : w.toNat.testBit k with
  | false => simp [h.mpr hb]
  | true =>
    have hne : w &&& bit k ≠ 0 := fun h0 => by
      rw [h.mp h0] at hb
      cases hb
    simp [hne]

theorem testBit_or_aligned {a c : UInt64} {n i : Nat} (ha : a.toNat % 2 ^ n = 0) (hi : i < n) :
    (a ||| c).toNat.testBit i = c.toNat.testBit i := by
  have h0 : a.toNat.testBit i = false := by
    have hm := Nat.testBit_mod_two_pow a.toNat n i
    rw [ha, Nat.zero_testBit, decide_eq_true hi, Bool.true_and] at hm
    exact hm.symm
  rw [UInt64.toNat_or, Nat.testBit_or, h0, Bool.false_or]

theorem testBit_or_bit {w : UInt64} {k : Nat} (hk : k < 64) (i : Nat) :
    (w ||| bit k).toNat.testBit i = (w.toNat.testBit i || decide (k = i)) := by
  rw [UInt64.toNat_or, toNat_bit hk, Nat.testBit_or, Nat.testBit_two_pow]

theorem testBit_and_not_bit {w : UInt64} {k i : Nat} (hk : k < 64) (hi : i < 64) :
    (w &&& ~~~bit k).toNat.testBit i = (w.toNat.testBit i && !decide (k = i)) := by
  have hlt : 2 ^ k < 2 ^ 64 := Nat.pow_lt_pow_right (by decide) hk
  have hnot : (~~~bit k).toNat = 2 ^ 64 - (2 ^ k + 1) := by
    rw [UInt64.toNat_not, toNat_bit hk]
    simp only [UInt64.size]
    omega
  rw [UInt64.toNat_and, Nat.testBit_and, hnot, Nat.testBit_two_pow_sub_succ hlt,
    Nat.testBit_two_pow, decide_eq_true hi, Bool.true_and]

end Word
