import Mathlib.Data.Set.Card
import Pippin.Kernel.FrameInvariant

/-! Which frames are free after boot, read off the memory map: a usable region frees the
frames it covers whole, and the fixed reservations take back every frame they touch. -/

namespace Pippin.Mem

/-- All of frame `f` lies in the region, whose end saturates at the last address. -/
def Region.Covers (r : Region) (f : Nat) : Prop :=
  r.base.toNat ≤ f * frameSize ∧ (f + 1) * frameSize ≤ min (r.base.toNat + r.len.toNat) (2 ^ 64 - 1)

/-- Frame `f` shares a byte with the addresses from `base` up to `stop`. -/
def Touches (base stop f : Nat) : Prop :=
  base < (f + 1) * frameSize ∧ f * frameSize < stop

instance (r : Region) (f : Nat) : Decidable (r.Covers f) := inferInstanceAs (Decidable (_ ∧ _))

instance (base stop f : Nat) : Decidable (Touches base stop f) := inferInstanceAs (Decidable (_ ∧ _))

def Region.Holds (r : Region) (a : Nat) : Prop :=
  r.base.toNat ≤ a ∧ a < r.base.toNat + r.len.toNat

def Region.Overlaps (r : Region) (f : Nat) : Prop :=
  ∃ a, f * frameSize ≤ a ∧ a < (f + 1) * frameSize ∧ r.Holds a

/-- The end of the image as `linker.ld` places it, in the higher half and no lower than
the load address. -/
structure KernelImage where
  bssEnd : UInt64
  above : higherHalfBase.toNat + kernelLoadBase.toNat ≤ bssEnd.toNat

def KernelImage.stop (image : KernelImage) : Nat := image.bssEnd.toNat - higherHalfBase.toNat

/-- The low memory `init` reserves: real mode tables, boot info, VGA and option ROMs, and
the two MiB behind the load address. -/
def lowReservations : List (Nat × Nat) :=
  [(0x0, 0x1000), (0x9000, 0x13000), (0xA0000, 0x1A0000), (0x100000, 0x300000)]

/-- Frame `f` meets no fixed reservation of `init` and no part of the kernel image. -/
def Unreserved (image : KernelImage) (f : Nat) : Prop :=
  (∀ r ∈ lowReservations, ¬ Touches r.1 r.2 f) ∧ ¬ Touches kernelLoadBase.toNat image.stop f

namespace Frames

variable {s : Frames} {f : Nat}

theorem bitIsUsed_paint_free (s : Frames) (r : Region) (f : Nat) :
    (s.paintRange r.base r.len false).bitIsUsed f =
      if (1 ≤ f ∧ f < maxFrames) ∧ r.Covers f then false else s.bitIsUsed f := by
  rw [paintRange, bitIsUsed_bitSetRange]
  congr 1
  apply propext
  simp only [Region.Covers, frameSize, Bool.false_eq_true, if_false]
  omega

theorem bitIsUsed_paint_used (s : Frames) (base len : UInt64) (f : Nat) :
    (s.paintRange base len true).bitIsUsed f =
      if (1 ≤ f ∧ f < maxFrames) ∧ Touches base.toNat (min (base.toNat + len.toNat) (2 ^ 64 - 1)) f
      then true else s.bitIsUsed f := by
  rw [paintRange, bitIsUsed_bitSetRange]
  congr 1
  apply propext
  simp only [Touches, frameSize, if_true]
  omega

theorem paintRange_free (hf : 1 ≤ f) (hm : f < maxFrames) (r : Region) :
    (s.paintRange r.base r.len false).bitIsUsed f = false ↔ r.Covers f ∨ s.bitIsUsed f = false := by
  rw [bitIsUsed_paint_free]
  by_cases h : r.Covers f <;> simp [h, hf, hm]

theorem paintRange_used (hf : 1 ≤ f) (hm : f < maxFrames) (base len : UInt64) :
    (s.paintRange base len true).bitIsUsed f = false ↔
      ¬ Touches base.toNat (min (base.toNat + len.toNat) (2 ^ 64 - 1)) f ∧ s.bitIsUsed f = false := by
  rw [bitIsUsed_paint_used]
  by_cases h : Touches base.toNat (min (base.toNat + len.toNat) (2 ^ 64 - 1)) f
  · rw [if_pos ⟨⟨hf, hm⟩, h⟩]
    exact ⟨fun h' => (nomatch h'), fun h' => absurd h h'.1⟩
  · rw [if_neg fun h' => h h'.2]
    exact (and_iff_right h).symm

theorem paintRange_zero (s : Frames) (base len : UInt64) (used : Bool) :
    (s.paintRange base len used).bitIsUsed 0 = s.bitIsUsed 0 := by
  cases used
  · rw [bitIsUsed_paint_free s ⟨base, len, 0⟩, if_neg (by omega)]
  · rw [bitIsUsed_paint_used, if_neg (by omega)]

theorem paintUsable_free {usable : Region → Bool} (hf : 1 ≤ f) (hm : f < maxFrames)
    (regions : List Region) (s : Frames) :
    (s.paintUsable usable regions).bitIsUsed f = false ↔
      (∃ r ∈ regions, usable r = true ∧ r.Covers f) ∨ s.bitIsUsed f = false := by
  induction regions generalizing s with
  | nil => simp [paintUsable]
  | cons r regions ih =>
    rw [paintUsable, List.foldl_cons]
    refine (ih _).trans ?_
    by_cases hr : usable r = true
    · rw [if_pos hr, paintRange_free hf hm]
      simp [hr, or_assoc, or_left_comm]
    · rw [if_neg hr]
      simp [hr]

theorem paintUsable_zero (usable : Region → Bool) (regions : List Region) (s : Frames) :
    (s.paintUsable usable regions).bitIsUsed 0 = s.bitIsUsed 0 := by
  induction regions generalizing s with
  | nil => rfl
  | cons r regions ih =>
    rw [paintUsable, List.foldl_cons]
    refine (ih _).trans ?_
    split_ifs
    · exact paintRange_zero s _ _ _
    · rfl

theorem reserved_bits (f : Nat) : reserved.bitIsUsed f = true := by
  have hf : f % 64 < 64 := Nat.mod_lt _ (by decide)
  have hones : (0xFFFFFFFFFFFFFFFF : UInt64).toNat = 2 ^ 64 - 1 := rfl
  rw [bitIsUsed_eq, reserved, hones, Nat.testBit_two_pow_sub_one]
  exact decide_eq_true hf

theorem reserveBoot_zero (s : Frames) (bssEnd : UInt64) :
    (s.reserveBoot bssEnd).bitIsUsed 0 = s.bitIsUsed 0 := by
  simp only [reserveBoot, paintRange_zero]

theorem reserveBoot_free (hf : 1 ≤ f) (hm : f < maxFrames) (s : Frames) (image : KernelImage) :
    (s.reserveBoot image.bssEnd).bitIsUsed f = false ↔
      Unreserved image f ∧ s.bitIsUsed f = false := by
  have hend : min (kernelLoadBase.toNat +
      (image.bssEnd - higherHalfBase - kernelLoadBase).toNat) (2 ^ 64 - 1) = image.stop := by
    have habove := image.above
    have hlt := image.bssEnd.toNat_lt
    have hsub : (image.bssEnd - higherHalfBase).toNat = image.stop :=
      UInt64.toNat_sub_of_le _ _ (UInt64.le_iff_toNat_le.mpr (by omega))
    have hle : kernelLoadBase.toNat ≤ image.stop := Nat.le_sub_of_add_le' habove
    have hsub' : (image.bssEnd - higherHalfBase - kernelLoadBase).toNat =
        image.stop - kernelLoadBase.toNat := by
      rw [UInt64.toNat_sub_of_le _ _ (UInt64.le_iff_toNat_le.mpr (hsub ▸ hle)), hsub]
    have hstop : image.stop ≤ 2 ^ 64 - 1 := by
      rw [KernelImage.stop]
      omega
    rw [hsub', Nat.add_sub_cancel' hle, min_eq_left hstop]
  have h1 : min ((0x0 : UInt64).toNat + (0x1000 : UInt64).toNat) (2 ^ 64 - 1) = 0x1000 := rfl
  have h2 : min ((0x9000 : UInt64).toNat + (0xA000 : UInt64).toNat) (2 ^ 64 - 1) = 0x13000 := rfl
  have h3 : min ((0xA0000 : UInt64).toNat + (0x100000 : UInt64).toNat) (2 ^ 64 - 1) = 0x1A0000 := rfl
  have h4 : min ((0x100000 : UInt64).toNat + (0x200000 : UInt64).toNat) (2 ^ 64 - 1) = 0x300000 := rfl
  rw [reserveBoot, paintRange_used hf hm, paintRange_used hf hm, paintRange_used hf hm,
    paintRange_used hf hm, paintRange_used hf hm, hend, h1, h2, h3, h4, Unreserved]
  have hlow : (∀ r ∈ lowReservations, ¬ Touches r.1 r.2 f) ↔ ¬ Touches 0x0 0x1000 f ∧
      ¬ Touches 0x9000 0x13000 f ∧ ¬ Touches 0xA0000 0x1A0000 f ∧ ¬ Touches 0x100000 0x300000 f := by
    simp only [lowReservations, List.mem_cons, List.not_mem_nil, or_false, forall_eq_or_imp, forall_eq]
  rw [hlow]
  constructor
  · rintro ⟨t5, t4, t3, t2, t1, hs⟩
    exact ⟨⟨⟨t1, t2, t3, t4⟩, t5⟩, hs⟩
  · rintro ⟨⟨⟨t1, t2, t3, t4⟩, t5⟩, hs⟩
    exact ⟨t5, t4, t3, t2, t1, hs⟩

/-- The clear bits of the whole bitmap, as a set of frames. -/
def freeFramesOf (s : Frames) : Set Nat := {f | f < maxFrames ∧ s.bitIsUsed f = false}

theorem countFree_ncard (s : Frames) (h0 : s.bitIsUsed 0 = true) :
    s.countFree = s.freeFramesOf.ncard := by
  have hset : s.freeFramesOf = (s.freeSet : Set Nat) := by
    ext f
    rw [Finset.mem_coe, mem_freeSet]
    constructor
    · rintro ⟨hm, hf⟩
      refine ⟨⟨Nat.pos_of_ne_zero ?_, hm⟩, hf⟩
      rintro rfl
      rw [h0] at hf
      cases hf
    · rintro ⟨⟨-, hm⟩, hf⟩
      exact ⟨hm, hf⟩
  rw [countFree_eq, hset, Set.ncard_coe_finset]

theorem freeFramesOf_eq {P : Nat → Prop} (h0 : s.bitIsUsed 0 = true)
    (h : ∀ f, 1 ≤ f → f < maxFrames → (s.bitIsUsed f = false ↔ P f)) :
    s.freeFramesOf = {f | 1 ≤ f ∧ f < maxFrames ∧ P f} := by
  ext f
  constructor
  · rintro ⟨hm, hf⟩
    have h1 : 1 ≤ f := by
      refine Nat.pos_of_ne_zero ?_
      rintro rfl
      rw [h0] at hf
      cases hf
    exact ⟨h1, hm, (h f h1 hm).mp hf⟩
  · rintro ⟨h1, hm, hp⟩
    exact ⟨hm, (h f h1 hm).mpr hp⟩

theorem init_freeFrames (m : Memory) (mbInfo : UInt32) (image : KernelImage) {map : MemoryMap}
    (h : MemoryMap.fromMultiboot m mbInfo = some map) :
    (init m mbInfo image.bssEnd).1.freeFramesOf =
        {f | 1 ≤ f ∧ f < maxFrames ∧ (∃ r ∈ map.regions m, r.kind = 1 ∧ r.Covers f) ∧ Unreserved image f} ∧
      (init m mbInfo image.bssEnd).2.freeFrames = (init m mbInfo image.bssEnd).1.freeFramesOf.ncard := by
  have hinit : (init m mbInfo image.bssEnd).1 =
      ((reserved.paintUsable (fun r => r.kind = 1) (map.regions m)).reserveBoot image.bssEnd).counted := by
    simp only [init, h]
  have hcount : (init m mbInfo image.bssEnd).2.freeFrames =
      ((reserved.paintUsable (fun r => r.kind = 1) (map.regions m)).reserveBoot image.bssEnd).countFree := by
    simp only [init, h]
  rw [hinit, hcount]
  generalize hs : (reserved.paintUsable (fun r => r.kind = 1) (map.regions m)).reserveBoot image.bssEnd = s
  have hsame : s.counted.freeFramesOf = s.freeFramesOf := rfl
  have h0 : s.bitIsUsed 0 = true := by
    rw [← hs, reserveBoot_zero, paintUsable_zero, reserved_bits]
  refine ⟨?_, countFree_ncard s h0⟩
  rw [hsame, freeFramesOf_eq h0 fun f h1 hm => ?_]
  rw [← hs, reserveBoot_free h1 hm, paintUsable_free h1 hm, reserved_bits]
  simp only [decide_eq_true_eq, Bool.true_eq_false, or_false]
  exact and_comm

theorem initLimine_freeFrames (regions : List Region) :
    (initLimine regions).1.freeFramesOf =
        {f | 1 ≤ f ∧ f < maxFrames ∧ ∃ r ∈ regions, r.kind = 0 ∧ r.Covers f} := by
  have h0 : (initLimine regions).1.bitIsUsed 0 = true := by
    rw [← reserved_bits 0, ← paintUsable_zero (fun r => r.kind = 0) regions reserved]
    rfl
  apply freeFramesOf_eq h0
  intro f h1 hm
  have hbit : (initLimine regions).1.bitIsUsed f =
      (reserved.paintUsable (fun r => r.kind = 0) regions).bitIsUsed f := rfl
  rw [hbit, paintUsable_free h1 hm, reserved_bits]
  simp only [decide_eq_true_eq, Bool.true_eq_false, or_false]

end Frames

open Frames

/-- Boot memory map: after `init` a frame is free iff one usable region of the map covers
it whole and no fixed reservation and no part of the image touches it. Both counts that
`init` leaves are the number of these frames. -/
theorem boot_memory_map (m : Memory) (mbInfo : UInt32) (image : KernelImage) {map : MemoryMap}
    (h : MemoryMap.fromMultiboot m mbInfo = some map) :
    let free := {f | 1 ≤ f ∧ f < maxFrames ∧ (∃ r ∈ map.regions m, r.kind = 1 ∧ r.Covers f) ∧
      Unreserved image f}
    (∀ f, (f < maxFrames ∧ (init m mbInfo image.bssEnd).1.bitIsUsed f = false) ↔ f ∈ free) ∧
    (init m mbInfo image.bssEnd).2.freeFrames = free.ncard ∧
    (init m mbInfo image.bssEnd).1.free = free.ncard := by
  obtain ⟨hset, hcount⟩ := init_freeFrames m mbInfo image h
  intro free
  have hfree : (init m mbInfo image.bssEnd).1.freeFramesOf = free := hset
  refine ⟨fun f => Set.ext_iff.mp hfree f, by rw [hcount, hfree], ?_⟩
  have hsame : (init m mbInfo image.bssEnd).1.free = (init m mbInfo image.bssEnd).2.freeFrames := rfl
  rw [hsame, hcount, hfree]

/-- A map of one usable and one reserved region, as a boot loader leaves it at 0x9000. -/
def sampleMemory : Memory :=
  let blank : Memory := fun _ => 0
  let flags := blank.write 0x9000 [0x40, 0, 0, 0]
  let info := flags.write (0x9000 + 44) [48, 0, 0, 0, 0, 0x91, 0, 0]
  info.write 0x9100 ([20, 0, 0, 0] ++ [0, 0, 0x40, 0, 0, 0, 0, 0] ++ [0, 0, 0x10, 0, 0, 0, 0, 0] ++
    [1, 0, 0, 0] ++ [20, 0, 0, 0] ++ [0, 0, 0x48, 0, 0, 0, 0, 0] ++ [0, 0x10, 0, 0, 0, 0, 0, 0] ++ [2, 0, 0, 0])

def sampleImage : KernelImage := ⟨0xFFFF800000250000, by decide⟩

theorem sample_map : MemoryMap.fromMultiboot sampleMemory 0x9000 = some ⟨0x9100, 48⟩ := rfl

theorem sample_regions : (MemoryMap.mk 0x9100 48).regions sampleMemory =
    [⟨0x400000, 0x100000, 1⟩, ⟨0x480000, 0x1000, 2⟩] := by
  decide +kernel

instance (image : KernelImage) (f : Nat) : Decidable (Unreserved image f) :=
  inferInstanceAs (Decidable (_ ∧ _))

theorem boot_memory_map_sample :
    (init sampleMemory 0x9000 sampleImage.bssEnd).1.bitIsUsed 0x400 = false := by
  have h := (boot_memory_map sampleMemory 0x9000 sampleImage sample_map).1 0x400
  refine (h.mpr ⟨by decide, by decide, ⟨⟨0x400000, 0x100000, 1⟩, ?_, rfl, by decide⟩, by decide⟩).2
  rw [sample_regions]
  exact List.mem_cons_self

/-! ## Regions of other kinds -/

theorem Region.Covers.holds {r : Region} {f a : Nat} (h : r.Covers f) (hlo : f * frameSize ≤ a)
    (hhi : a < (f + 1) * frameSize) : r.Holds a := by
  obtain ⟨h1, h2⟩ := h
  exact ⟨h1.trans hlo, by omega⟩

/-- No address lies in a usable region and in a region of another kind. -/
def KindsDisjoint (usable : UInt64) (regions : List Region) : Prop :=
  ∀ u ∈ regions, u.kind = usable → ∀ r ∈ regions, r.kind ≠ usable → ∀ a, ¬ (u.Holds a ∧ r.Holds a)

theorem KindsDisjoint.not_covered {usable : UInt64} {regions : List Region} {f : Nat} {r : Region}
    (h : KindsDisjoint usable regions) (hr : r ∈ regions) (hk : r.kind ≠ usable) (ho : r.Overlaps f) :
    ¬ ∃ u ∈ regions, u.kind = usable ∧ u.Covers f := by
  rintro ⟨u, hu, huk, hc⟩
  obtain ⟨a, hlo, hhi, ha⟩ := ho
  exact h u hu huk r hr hk a ⟨hc.holds hlo hhi, ha⟩

/-- Reserved regions win where kinds do not overlap. A frame that meets a region of another
kind is free only if one usable region of the same map covers it whole, since neither boot
path reserves anything on account of the map. -/
theorem reserved_regions :
    (∀ (m : Memory) (mbInfo : UInt32) (image : KernelImage) (map : MemoryMap),
      MemoryMap.fromMultiboot m mbInfo = some map →
      ∀ r ∈ map.regions m, r.kind ≠ 1 → ∀ f, r.Overlaps f →
        (f ∈ (init m mbInfo image.bssEnd).1.freeFramesOf ↔ (1 ≤ f ∧ f < maxFrames) ∧
          (∃ u ∈ map.regions m, u.kind = 1 ∧ u.Covers f) ∧ Unreserved image f) ∧
        (KindsDisjoint 1 (map.regions m) → f ∉ (init m mbInfo image.bssEnd).1.freeFramesOf)) ∧
    ∀ regions : List Region, ∀ r ∈ regions, r.kind ≠ 0 → ∀ f, r.Overlaps f →
      (f ∈ (initLimine regions).1.freeFramesOf ↔ (1 ≤ f ∧ f < maxFrames) ∧
        ∃ u ∈ regions, u.kind = 0 ∧ u.Covers f) ∧
      (KindsDisjoint 0 regions → f ∉ (initLimine regions).1.freeFramesOf) := by
  constructor
  · intro m mbInfo image map h r hr hk f ho
    rw [(init_freeFrames m mbInfo image h).1, Set.mem_ofPred_eq, ← and_assoc]
    exact ⟨Iff.rfl, fun hd hf => hd.not_covered hr hk ho hf.2.1⟩
  · intro regions r hr hk f ho
    rw [initLimine_freeFrames, Set.mem_ofPred_eq, ← and_assoc]
    exact ⟨Iff.rfl, fun hd hf => hd.not_covered hr hk ho hf.2⟩

theorem reserved_regions_apart :
    4 ∉ (initLimine [⟨0x1000, 0x3000, 0⟩, ⟨0x4800, 0x100, 1⟩]).1.freeFramesOf := by
  refine (reserved_regions.2 _ ⟨0x4800, 0x100, 1⟩ (by simp) (by decide) 4
    ⟨0x4800, by decide, by decide, by decide, by decide⟩).2 ?_
  intro u hu huk r hr hrk a hboth
  simp only [List.mem_cons, List.not_mem_nil, or_false] at hu hr
  rcases hu with rfl | rfl
  · rcases hr with rfl | rfl
    · exact hrk rfl
    · simp only [Region.Holds, UInt64.reduceToNat] at hboth
      omega
  · exact absurd huk (by decide)

/-- The reserved page inside the usable region of the sample map is handed out. -/
theorem reserved_regions_overlap :
    ¬ ∀ (m : Memory) (mbInfo : UInt32) (image : KernelImage) (map : MemoryMap),
      MemoryMap.fromMultiboot m mbInfo = some map →
      ∀ f ∈ (init m mbInfo image.bssEnd).1.freeFramesOf,
        ∀ r ∈ map.regions m, r.kind ≠ 1 → ¬ r.Overlaps f := by
  intro hall
  have hfree : 0x480 ∈ (init sampleMemory 0x9000 sampleImage.bssEnd).1.freeFramesOf := by
    rw [(init_freeFrames sampleMemory 0x9000 sampleImage sample_map).1, sample_regions]
    exact ⟨by decide, by decide, ⟨_, List.mem_cons_self, rfl, by decide⟩, by decide⟩
  refine hall sampleMemory 0x9000 sampleImage _ sample_map 0x480 hfree ⟨0x480000, 0x1000, 2⟩ ?_
    (by decide) ⟨0x480000, by decide, by decide, by decide, by decide⟩
  rw [sample_regions]
  exact List.mem_cons_of_mem _ List.mem_cons_self

end Pippin.Mem
