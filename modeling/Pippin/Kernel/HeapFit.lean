import Pippin.Lib.Words
import Pippin.Kernel.Heap

/-! The address arithmetic of one first-fit test. Wrapping never makes a block
look large enough, and a block that is large enough holds its header, the back
pointer and the aligned payload without overlap. -/

namespace Pippin.Heap

theorem toNat_alignUp {v a : UInt64} {k : Nat} (ha : a.toNat = 2 ^ k) :
    (alignUp v a).toNat = (v.toNat + 2 ^ k - 1) % 2 ^ 64 / 2 ^ k * 2 ^ k := by
  have h1 : 1 ≤ 2 ^ k := Nat.one_le_two_pow
  have hv := v.toNat_lt
  rw [alignUp, Word.toNat_and_not ha, UInt64.toNat_sub, UInt64.toNat_add, ha]
  have hone : (1 : UInt64).toNat = 1 := rfl
  rw [hone]
  congr 2
  omega

theorem roundDown_spec (x a : Nat) (ha : 0 < a) :
    a ∣ x / a * a ∧ x / a * a ≤ x ∧ x < x / a * a + a :=
  ⟨Dvd.intro_left _ rfl, Nat.div_mul_le_self x a, Nat.lt_div_mul_add ha⟩

theorem toNat_max (a b : UInt64) : (max a b).toNat = max a.toNat b.toNat := by
  have hmax : max a b = if a ≤ b then b else a := rfl
  rw [hmax]
  split_ifs with h
  · exact (max_eq_right (UInt64.le_iff_toNat_le.mp h)).symm
  · exact (max_eq_left (Nat.le_of_not_le (mt UInt64.le_iff_toNat_le.mpr h))).symm

theorem alignOf_spec (layout : Layout) :
    ∃ k, (alignOf layout).toNat = 2 ^ k ∧ 16 ∣ 2 ^ k ∧ layout.align.toNat ∣ 2 ^ k ∧
      (2 ^ k = 16 ∨ 2 ^ k = layout.align.toNat) := by
  obtain ⟨k, hk⟩ := layout.align_pow
  have h16 : (align : UInt64).toNat = 2 ^ 4 := rfl
  rw [alignOf, toNat_max, hk, h16]
  rcases le_total k 4 with h | h
  · have hle : 2 ^ k ≤ 2 ^ 4 := Nat.pow_le_pow_right (by decide) h
    exact ⟨4, max_eq_right hle, dvd_rfl, Nat.pow_dvd_pow 2 h, Or.inl rfl⟩
  · have hle : 2 ^ 4 ≤ 2 ^ k := Nat.pow_le_pow_right (by decide) h
    exact ⟨k, max_eq_left hle, Nat.pow_dvd_pow 2 h, dvd_rfl, Or.inr rfl⟩

theorem wantOf_spec (layout : Layout) :
    16 ∣ (wantOf layout).toNat ∧ layout.size.toNat ≤ (wantOf layout).toNat ∧
      16 ≤ (wantOf layout).toNat ∧ (wantOf layout).toNat ≤ max 16 (layout.size.toNat + 15) := by
  have hs := layout.size_le
  have h16 : (align : UInt64).toNat = 2 ^ 4 := rfl
  rw [wantOf, toNat_max, toNat_alignUp h16, h16]
  omega

/-- What the first-fit test establishes about a block it accepts. -/
structure Fits (cur pa want used : UInt64) (layout : Layout) : Prop where
  used_eq : cur.toNat + used.toNat = pa.toNat + want.toNat
  want_dvd : 16 ∣ want.toNat
  used_dvd : 16 ∣ used.toNat
  pa_dvd : 16 ∣ pa.toNat
  pa_align : layout.align.toNat ∣ pa.toNat
  header : cur.toNat + 32 ≤ pa.toNat
  room : pa.toNat + layout.size.toNat ≤ cur.toNat + used.toNat

theorem span_eq {cur stop : Nat} (h : cur ≤ stop) (hlt : stop < cur + 2 ^ 64) (hcur : cur ≤ 2 ^ 64) :
    cur + (2 ^ 64 - cur + stop % 2 ^ 64) % 2 ^ 64 = stop := by
  omega

theorem span_wraps {cur stop size : Nat} (h : stop < cur) (hend : cur + size < 2 ^ 64) :
    ¬(2 ^ 64 - cur + stop % 2 ^ 64) % 2 ^ 64 ≤ size := by
  omega

theorem fits_of_used_le {cur size : UInt64} (layout : Layout) (hcur : 16 ∣ cur.toNat)
    (hsize : 16 ≤ size.toNat) (hend : cur.toNat + size.toNat + 16 ≤ 2 ^ 64)
    (h : alignUp (payload cur + wordBytes) (alignOf layout) + wantOf layout - cur ≤ size) :
    Fits cur (alignUp (payload cur + wordBytes) (alignOf layout)) (wantOf layout)
      (alignUp (payload cur + wordBytes) (alignOf layout) + wantOf layout - cur) layout := by
  obtain ⟨k, hk, h16, hlay, hcase⟩ := alignOf_spec layout
  obtain ⟨hwd, hws, hw16, hwle⟩ := wantOf_spec layout
  have hsle := layout.size_le
  have hk64 := Word.exponent_lt hk
  have hkpos : 0 < 2 ^ k := Nat.two_pow_pos k
  have hv : (payload cur + wordBytes).toNat = cur.toNat + 24 := by
    simp only [payload, blockBytes, wordBytes, UInt64.toNat_add, UInt64.reduceToNat]
    omega
  have hpa := toNat_alignUp (v := payload cur + wordBytes) hk
  rw [hv] at hpa
  obtain ⟨hdvd, hlow, hhigh⟩ := roundDown_spec ((cur.toNat + 24 + 2 ^ k - 1) % 2 ^ 64) (2 ^ k) hkpos
  rw [← hpa] at hdvd hlow hhigh
  generalize alignUp (payload cur + wordBytes) (alignOf layout) = pa at h hdvd hlow hhigh ⊢
  generalize wantOf layout = want at h hwd hws hw16 hwle ⊢
  have hused : (pa + want - cur).toNat = (2 ^ 64 - cur.toNat + (pa.toNat + want.toNat) % 2 ^ 64) % 2 ^ 64 := by
    rw [UInt64.toNat_sub, UInt64.toNat_add]
  have hle := UInt64.le_iff_toNat_le.mp h
  rw [hused] at hle
  have hp16 : 16 ∣ pa.toNat := h16.trans hdvd
  have hpl : layout.align.toNat ∣ pa.toNat := hlay.trans hdvd
  -- `pa` is 0 when rounding up wraps past the top of the address space
  have hwrap : 2 ^ 64 ≤ cur.toNat + 24 + 2 ^ k - 1 → pa.toNat = 0 := by
    intro hw
    have hlt : pa.toNat < 2 ^ k := by omega
    exact Nat.eq_zero_of_dvd_of_lt hdvd hlt
  generalize hA : 2 ^ k = a at *
  have ha63 : a ≤ 2 ^ 63 := by
    rcases hcase with rfl | rfl <;> omega
  have hfit : cur.toNat + (pa + want - cur).toNat = pa.toNat + want.toNat ∧ cur.toNat + 24 ≤ pa.toNat := by
    rw [hused]
    -- a wrapped `pa` would leave more in use than the block holds
    by_cases hw : 2 ^ 64 ≤ cur.toNat + 24 + a - 1
    · rw [hwrap hw, Nat.zero_add] at hle
      have hwant : want.toNat < cur.toNat := by omega
      exact absurd hle (span_wraps hwant (by omega))
    · rw [Nat.mod_eq_of_lt (Nat.not_le.mp hw)] at hlow hhigh
      have hp : cur.toNat + 24 ≤ pa.toNat := by omega
      exact ⟨span_eq (by omega) (by omega) (by omega), hp⟩
  obtain ⟨he, hp⟩ := hfit
  refine ⟨he, hwd, ?_, hp16, hpl, by omega, by omega⟩
  omega

end Pippin.Heap
