import Mathlib.Tactic.Ring

/-! Dividing a span into pieces of one width with a gap between neighbours. -/

namespace Spread

variable {first span gap : Int} {m j k : Nat}

def width (span gap : Int) (m : Nat) : Int := (span - gap * (m - 1 : Nat)) / m

def left (first span gap : Int) (m k : Nat) : Int := first + k * (width span gap m + gap)

/-- The span has room for the gaps and one unit for each piece. -/
def Room (span gap : Int) (m : Nat) : Prop := m + gap * (m - 1 : Nat) ≤ span

theorem width_pos (hm : 0 < m) (h : Room span gap m) : 1 ≤ width span gap m := by
  refine Int.le_ediv_of_mul_le (by omega) ?_
  unfold Room at h
  omega

theorem need_eq (gap : Int) (hm : 0 < m) : (m : Int) + gap * (m - 1 : Nat) = (m - 1 : Nat) * (1 + gap) + 1 := by
  obtain ⟨n, rfl⟩ := Nat.exists_eq_succ_of_ne_zero (Nat.ne_of_gt hm)
  rw [Nat.succ_sub_one]
  push_cast
  ring

theorem width_max (span gap : Int) (hm : 0 < m) :
    max ((span - gap * (m - 1 : Nat)) / m) 1 = width (max span (m + gap * (m - 1 : Nat))) gap m := by
  unfold width
  rcases lt_or_ge span (m + gap * (m - 1 : Nat)) with hlt | hge
  · have hnone : (span - gap * (m - 1 : Nat)) / (m : Int) < 1 := Int.ediv_lt_of_lt_mul (by omega) (by omega)
    rw [Int.max_eq_right (Int.le_of_lt hnone), Int.max_eq_right (Int.le_of_lt hlt), Int.add_sub_cancel,
      Int.ediv_self (by omega)]
  · have hone : 1 ≤ (span - gap * (m - 1 : Nat)) / (m : Int) := Int.le_ediv_of_mul_le (by omega) (by omega)
    rw [Int.max_eq_left hone, Int.max_eq_left hge]

theorem width_fits (span gap : Int) (hm : 0 < m) : m * width span gap m + gap * (m - 1 : Nat) ≤ span := by
  have hmul : (span - gap * (m - 1 : Nat)) / m * m ≤ span - gap * (m - 1 : Nat) := Int.ediv_mul_le _ (by omega)
  unfold width
  rw [Int.mul_comm]
  omega

theorem left_zero : left first span gap m 0 = first := by
  unfold left
  rw [Int.natCast_zero, Int.zero_mul, Int.add_zero]

theorem left_mono (first : Int) (hg : 0 ≤ gap) (hw : 0 ≤ width span gap m) (h : j ≤ k) :
    left first span gap m j ≤ left first span gap m k := by
  unfold left
  have hmul : (j : Int) * (width span gap m + gap) ≤ k * (width span gap m + gap) :=
    Int.mul_le_mul_of_nonneg_right (by omega) (by omega)
  omega

theorem apart {width : Int} (first : Int) (hg : 0 ≤ gap) (hw : 0 ≤ width) (h : j < k) :
    first + j * (width + gap) + width ≤ first + k * (width + gap) := by
  have hmul : ((j + 1 : Nat) : Int) * (width + gap) ≤ k * (width + gap) :=
    Int.mul_le_mul_of_nonneg_right (by omega) (by omega)
  push_cast at hmul
  rw [Int.add_mul] at hmul
  omega

theorem right_le (first : Int) (hg : 0 ≤ gap) (hm : 0 < m) (hw : 0 ≤ width span gap m) (hk : k < m) :
    left first span gap m k + width span gap m ≤ first + span := by
  have hlast : left first span gap m k ≤ left first span gap m (m - 1) := left_mono first hg hw (by omega)
  have hfits := width_fits span gap hm
  have hsplit : left first span gap m (m - 1) + width span gap m =
      first + (m * width span gap m + gap * (m - 1 : Nat)) := by
    unfold left
    obtain ⟨d, rfl⟩ := Nat.exists_eq_add_of_lt hm
    push_cast
    simp only [Nat.zero_add]
    ring
  omega

end Spread
