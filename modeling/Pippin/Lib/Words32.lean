import Pippin.Lib.Checked
import Mathlib.Tactic.SplitIfs

/-! Words of 32 bits with overflow checks: an operation faults where its exact result is
no word, and is the wrapping operation elsewhere. -/

namespace Word32

def add (a b : UInt32) : Checked UInt32 :=
  if a.toNat + b.toNat < 2 ^ 32 then .ok (a + b) else .error .overflow

def sub (a b : UInt32) : Checked UInt32 :=
  if b.toNat ≤ a.toNat then .ok (a - b) else .error .overflow

def mul (a b : UInt32) : Checked UInt32 :=
  if a.toNat * b.toNat < 2 ^ 32 then .ok (a * b) else .error .overflow

variable {a b c : UInt32}

theorem add_eq (h : a.toNat + b.toNat < 2 ^ 32) : add a b = .ok (a + b) := if_pos h

theorem add_fault (h : 2 ^ 32 ≤ a.toNat + b.toNat) : add a b = .error .overflow := if_neg (Nat.not_lt.mpr h)

theorem sub_eq (h : b.toNat ≤ a.toNat) : sub a b = .ok (a - b) := if_pos h

theorem mul_eq (h : a.toNat * b.toNat < 2 ^ 32) : mul a b = .ok (a * b) := if_pos h

theorem toNat_add (h : a.toNat + b.toNat < 2 ^ 32) : (a + b).toNat = a.toNat + b.toNat :=
  (UInt32.toNat_add a b).trans (Nat.mod_eq_of_lt h)

theorem toNat_mul (h : a.toNat * b.toNat < 2 ^ 32) : (a * b).toNat = a.toNat * b.toNat :=
  (UInt32.toNat_mul a b).trans (Nat.mod_eq_of_lt h)

theorem toNat_sub (h : b.toNat ≤ a.toNat) : (a - b).toNat = a.toNat - b.toNat :=
  UInt32.toNat_sub_of_le _ _ (UInt32.le_iff_toNat_le.mpr h)

end Word32
