import Mathlib.Order.Interval.Finset.Nat
import Pippin.Lib.Spans
import Pippin.Kernel.Frames

/-! The frame allocator over whole runs. Each operation is described once by the
bits it changes; the counter and the disjointness of live ranges follow from that. -/

namespace Pippin.Mem

theorem usizeSub_of_le {a b : Nat} (hb : b ≤ a) (ha : a < maxFrames) : usizeSub a b = a - b := by
  simp only [maxFrames, bootMappedEnd, frameSize] at ha
  rw [usizeSub]
  omega

theorem usizeAdd_of_lt {a b : Nat} (h : a + b < maxFrames) : usizeAdd a b = a + b := by
  simp only [maxFrames, bootMappedEnd, frameSize] at h
  rw [usizeAdd]
  omega

namespace Frames

variable {s : Frames} {first last count : Nat}

theorem bitIsUsed_eq (s : Frames) (f : Nat) :
    s.bitIsUsed f = (s.bitmap (f / 64)).toNat.testBit (f % 64) :=
  Word.bne_and_bit (Nat.mod_lt _ (by decide))

theorem bitIsUsed_congr {s' : Frames} (h : s.bitmap = s'.bitmap) (f : Nat) :
    s.bitIsUsed f = s'.bitIsUsed f := by
  rw [bitIsUsed, bitIsUsed, h]

theorem bitIsUsed_bitSet (s : Frames) (f g : Nat) (used : Bool) :
    (s.bitSet f used).bitIsUsed g = if g = f then used else s.bitIsUsed g := by
  have hf : f % 64 < 64 := Nat.mod_lt _ (by decide)
  have hg : g % 64 < 64 := Nat.mod_lt _ (by decide)
  rw [bitIsUsed_eq, bitIsUsed_eq]
  simp only [bitSet]
  by_cases hw : g / 64 = f / 64
  · have hbit : f % 64 = g % 64 ↔ g = f := by omega
    rw [hw, Function.update_self]
    cases used
    · rw [if_neg Bool.false_ne_true, Word.testBit_and_not_bit hf hg]
      by_cases he : g = f <;> simp [hbit, he]
    · rw [if_pos rfl, Word.testBit_or_bit hf]
      by_cases he : g = f <;> simp [hbit, he]
  · have hne : g ≠ f := by
      rintro rfl
      exact hw rfl
    rw [Function.update_of_ne hw, if_neg hne]

theorem bitIsUsed_foldl (used : Bool) (fs : List Nat) (s : Frames) (g : Nat) :
    (fs.foldl (fun s f => s.bitSet f used) s).bitIsUsed g =
      if g ∈ fs then used else s.bitIsUsed g := by
  induction fs generalizing s with
  | nil => simp
  | cons f fs ih =>
    rw [List.foldl_cons, ih, bitIsUsed_bitSet]
    by_cases hg : g ∈ fs
    · simp [hg]
    · by_cases he : g = f <;> simp [hg, he]

@[simp] theorem bitIsUsed_bitSetRange (s : Frames) (first last : Nat) (used : Bool) (g : Nat) :
    (s.bitSetRange first last used).bitIsUsed g =
      if first ≤ g ∧ g < last then used else s.bitIsUsed g := by
  rw [bitSetRange, bitIsUsed_foldl]
  congr 1
  rw [List.mem_range'_1]
  apply propext
  omega

def freeSet (s : Frames) : Finset Nat := {f ∈ Finset.Ico 1 maxFrames | s.bitIsUsed f = false}

theorem mem_freeSet {f : Nat} :
    f ∈ s.freeSet ↔ (1 ≤ f ∧ f < maxFrames) ∧ s.bitIsUsed f = false := by
  rw [freeSet, Finset.mem_filter, Finset.mem_Ico]

theorem card_freeSet_lt (s : Frames) : s.freeSet.card < maxFrames := by
  have h := Finset.card_filter_le (Finset.Ico 1 maxFrames) fun f => s.bitIsUsed f = false
  rw [Nat.card_Ico] at h
  have hpos : 0 < maxFrames := by decide
  exact h.trans_lt (by omega)

theorem countFree_eq (s : Frames) : s.countFree = s.freeSet.card := by
  have hn : ((List.range' 1 (maxFrames - 1)).filter fun f => !s.bitIsUsed f).Nodup :=
    List.Nodup.filter _ List.nodup_range'
  rw [countFree, List.countP_eq_length_filter, ← List.toFinset_card_of_nodup hn]
  congr 1
  ext f
  rw [List.mem_toFinset, List.mem_filter, List.mem_range'_1, mem_freeSet, Bool.not_eq_true']
  have hpos : 1 + (maxFrames - 1) = maxFrames := rfl
  rw [hpos]

theorem freeSet_congr {s' : Frames} (h : s.bitmap = s'.bitmap) : s.freeSet = s'.freeSet := by
  ext f
  rw [mem_freeSet, mem_freeSet, bitIsUsed_congr h]

theorem counted_free (s : Frames) : s.counted.free = s.counted.freeSet.card := by
  have hfree : s.counted.free = s.countFree := rfl
  have hset : s.counted.freeSet = s.freeSet := freeSet_congr (by rfl)
  rw [hfree, hset, countFree_eq]

theorem scan_spec {p : Nat} : ∀ n frame run start, 1 ≤ frame →
    (run = 0 ∨ (1 ≤ start ∧ start + run = frame ∧ ∀ f, start ≤ f → f < frame → s.bitIsUsed f = false)) →
    s.scan count n frame run start = some p →
    1 ≤ p ∧ 0 < count ∧ p + count ≤ maxFrames ∧ ∀ f, p ≤ f → f < p + count → s.bitIsUsed f = false := by
  intro n
  induction n with
  | zero => intro frame run start _ _ h; cases h
  | succ n ih =>
    intro frame run start hframe hrun h
    -- after the wrap test the search stands on a frame of the bitmap
    obtain ⟨frame', run', hpair, hlt, hge, hrun'⟩ : ∃ frame' run',
        (if maxFrames ≤ frame then (1, 0) else (frame, run)) = (frame', run') ∧
        frame' < maxFrames ∧ 1 ≤ frame' ∧ (run' = 0 ∨ (1 ≤ start ∧ start + run' = frame' ∧
          ∀ f, start ≤ f → f < frame' → s.bitIsUsed f = false)) := by
      by_cases hw : maxFrames ≤ frame
      · exact ⟨1, 0, if_pos hw, by decide, le_rfl, Or.inl rfl⟩
      · exact ⟨frame, run, if_neg hw, by omega, hframe, hrun⟩
    rw [scan, hpair] at h
    dsimp only at h
    cases hbit : s.bitIsUsed frame' with
    | true =>
      rw [hbit, if_pos rfl] at h
      exact ih _ _ _ (by omega) (Or.inl rfl) h
    | false =>
      rw [hbit, if_neg Bool.false_ne_true] at h
      have hnew : 1 ≤ (if run' = 0 then frame' else start) ∧
          (if run' = 0 then frame' else start) + (run' + 1) = frame' + 1 ∧
          ∀ f, (if run' = 0 then frame' else start) ≤ f → f < frame' + 1 → s.bitIsUsed f = false := by
        -- a run starts here or grows by this frame
        by_cases h0 : run' = 0
        · simp only [if_pos h0]
          refine ⟨hge, by omega, fun f h1 h2 => ?_⟩
          rwa [show f = frame' by omega]
        · obtain ⟨h1, h2, h3⟩ := hrun'.resolve_left h0
          simp only [if_neg h0]
          refine ⟨h1, by omega, fun f hf1 hf2 => ?_⟩
          by_cases he : f = frame'
          · rwa [he]
          · exact h3 f hf1 (by omega)
      generalize (if run' = 0 then frame' else start) = start' at h hnew
      obtain ⟨h1, h2, h3⟩ := hnew
      split_ifs at h with hdone
      · rw [Option.some.injEq] at h
        rw [← h, ← hdone]
        exact ⟨h1, by omega, by omega, fun f hf1 hf2 => h3 f hf1 (by omega)⟩
      · exact ih _ _ _ (by omega) (Or.inr ⟨h1, h2, h3⟩) h

theorem scan_one_of_free {f : Nat} (h1 : 1 ≤ f) (hm : f < maxFrames) (hf : s.bitIsUsed f = false) :
    ∀ n frame start, (frame ≤ f → f < frame + n) → (f < frame → maxFrames + f ≤ min frame maxFrames + n) →
      ∃ p, s.scan 1 n frame 0 start = some p := by
  intro n
  induction n with
  | zero =>
    intro frame start hlow hhigh
    omega
  | succ n ih =>
    intro frame start hlow hhigh
    obtain ⟨frame', hpair, hlt, hlow', hhigh'⟩ : ∃ frame',
        (if maxFrames ≤ frame then (1, 0) else (frame, 0)) = (frame', 0) ∧ frame' < maxFrames ∧
        (frame' ≤ f → f < frame' + (n + 1)) ∧ (f < frame' → maxFrames + f ≤ min frame' maxFrames + (n + 1)) := by
      by_cases hw : maxFrames ≤ frame
      · exact ⟨1, if_pos hw, by decide, by omega, by omega⟩
      · exact ⟨frame, if_neg hw, by omega, hlow, hhigh⟩
    rw [scan, hpair]
    dsimp only
    cases hbit : s.bitIsUsed frame' with
    | true =>
      have hne : frame' ≠ f := by
        rintro rfl
        rw [hf] at hbit
        cases hbit
      rw [if_pos rfl]
      exact ih _ _ (by omega) (by omega)
    | false =>
      rw [if_neg Bool.false_ne_true, if_pos rfl]
      exact ⟨_, rfl⟩

theorem allocFrames_one_of_free {f : Nat} (h1 : 1 ≤ f) (hm : f < maxFrames) (hf : s.bitIsUsed f = false) :
    ∃ phys s', s.allocFrames 1 = some (phys, s') := by
  have hn : usizeAdd maxFrames 1 = maxFrames + 1 := by decide
  obtain ⟨p, hp⟩ := scan_one_of_free h1 hm hf (maxFrames + 1) (max s.hint 1) 1 (by omega) (by omega)
  unfold allocFrames
  rw [hn, hp]
  exact ⟨_, _, rfl⟩

theorem allocFrames_spec {phys : UInt64} {s' : Frames} (h : s.allocFrames count = some (phys, s')) :
    ∃ p, phys.toNat = p * frameSize ∧ 1 ≤ p ∧ 0 < count ∧ p + count ≤ maxFrames ∧
      (∀ f, p ≤ f → f < p + count → s.bitIsUsed f = false) ∧
      (∀ f, s'.bitIsUsed f = if p ≤ f ∧ f < p + count then true else s.bitIsUsed f) ∧
      s'.free = usizeSub s.free count := by
  unfold allocFrames at h
  split at h
  · cases h
  · next p hp =>
    obtain ⟨h1, h2, h3, h4⟩ := scan_spec _ _ _ _ (le_max_right _ _) (Or.inl rfl) hp
    rw [Option.some.injEq, Prod.mk.injEq] at h
    obtain ⟨rfl, rfl⟩ := h
    refine ⟨p, ?_, h1, h2, h3, h4, fun f => ?_, rfl⟩
    · rw [UInt64.toNat_ofNat']
      simp only [maxFrames, bootMappedEnd, frameSize] at h3 ⊢
      omega
    · rw [← bitIsUsed_bitSetRange s p (p + count) true f]
      exact bitIsUsed_congr (by rfl) f

theorem freeFrames_bits (s : Frames) (phys : UInt64) (count f : Nat) :
    (s.freeFrames phys count).bitIsUsed f =
      if phys.toNat / frameSize ≤ f ∧ f < phys.toNat / frameSize + count then false
      else s.bitIsUsed f := by
  rw [← bitIsUsed_bitSetRange s _ _ false f]
  exact bitIsUsed_congr (by rfl) f

theorem freeSet_of_alloc {s' : Frames} {p : Nat}
    (h : ∀ f, s'.bitIsUsed f = if p ≤ f ∧ f < p + count then true else s.bitIsUsed f) :
    s'.freeSet = s.freeSet \ Finset.Ico p (p + count) := by
  ext f
  rw [Finset.mem_sdiff, mem_freeSet, mem_freeSet, Finset.mem_Ico, h]
  by_cases hf : p ≤ f ∧ f < p + count <;> simp [hf]

theorem freeSet_of_free {s' : Frames} {p : Nat} (h1 : 1 ≤ p) (h2 : p + count ≤ maxFrames)
    (h : ∀ f, s'.bitIsUsed f = if p ≤ f ∧ f < p + count then false else s.bitIsUsed f) :
    s'.freeSet = s.freeSet ∪ Finset.Ico p (p + count) := by
  ext f
  rw [Finset.mem_union, mem_freeSet, mem_freeSet, Finset.mem_Ico, h]
  by_cases hf : p ≤ f ∧ f < p + count
  · simp [hf]
    omega
  · simp [hf]

def Counted (s : Frames) : Prop := s.free = s.freeSet.card

theorem Counted.alloc {phys : UInt64} {s' : Frames} (hs : s.Counted)
    (h : s.allocFrames count = some (phys, s')) : s'.Counted := by
  obtain ⟨p, -, h1, -, hmax, hclear, hbits, hfree⟩ := allocFrames_spec h
  have hsub : Finset.Ico p (p + count) ⊆ s.freeSet := by
    intro f hf
    rw [Finset.mem_Ico] at hf
    exact mem_freeSet.mpr ⟨by omega, hclear f hf.1 hf.2⟩
  have hle : count ≤ s.freeSet.card := by
    have := Finset.card_le_card hsub
    rwa [Nat.card_Ico, Nat.add_sub_cancel_left] at this
  unfold Counted at hs ⊢
  rw [hfree, hs, usizeSub_of_le hle s.card_freeSet_lt, freeSet_of_alloc hbits,
    Finset.card_sdiff_of_subset hsub, Nat.card_Ico, Nat.add_sub_cancel_left]

theorem Counted.free {phys : UInt64} (hs : s.Counted) (h1 : 1 ≤ phys.toNat / frameSize)
    (h2 : phys.toNat / frameSize + count ≤ maxFrames)
    (hused : ∀ f, phys.toNat / frameSize ≤ f → f < phys.toNat / frameSize + count → s.bitIsUsed f = true) :
    (s.freeFrames phys count).Counted := by
  have hset := freeSet_of_free h1 h2 (freeFrames_bits s phys count)
  have hdisj : Disjoint s.freeSet (Finset.Ico (phys.toNat / frameSize) (phys.toNat / frameSize + count)) := by
    refine Finset.disjoint_left.mpr fun f hf hf' => ?_
    have hbit := (mem_freeSet.mp hf).2
    rw [Finset.mem_Ico] at hf'
    rw [hused f hf'.1 hf'.2] at hbit
    cases hbit
  have hcard : (s.freeFrames phys count).freeSet.card = s.freeSet.card + count := by
    rw [hset, Finset.card_union_of_disjoint hdisj, Nat.card_Ico, Nat.add_sub_cancel_left]
  have hlt := (s.freeFrames phys count).card_freeSet_lt
  unfold Counted at hs ⊢
  rw [hcard] at hlt ⊢
  rw [← usizeAdd_of_lt hlt, ← hs]
  rfl

end Frames

/-! ## Runs -/

inductive Boot where
  | multiboot (m : Memory) (mbInfo : UInt32) (bssEnd : UInt64)
  | limine (regions : List Region)

def Boot.frames : Boot → Frames
  | .multiboot m mbInfo bssEnd => (Frames.init m mbInfo bssEnd).1
  | .limine regions => (Frames.initLimine regions).1

/-- A range handed out by `alloc_frames` and not yet freed. -/
structure FrameRange where
  phys : UInt64
  count : Nat

def FrameRange.frames (r : FrameRange) : Span := ⟨r.phys.toNat / frameSize, r.count⟩

inductive FrameReach (boot : Boot) : Frames → List FrameRange → Prop
  | init : FrameReach boot boot.frames []
  | alloc {s s' live count phys} (h : FrameReach boot s live)
      (ha : s.allocFrames count = some (phys, s')) : FrameReach boot s' (⟨phys, count⟩ :: live)
  | fail {s live count} (h : FrameReach boot s live) (ha : s.allocFrames count = none) :
      FrameReach boot s live
  | free {s r live₁ live₂} (h : FrameReach boot s (live₁ ++ r :: live₂)) :
      FrameReach boot (s.freeFrames r.phys r.count) (live₁ ++ live₂)

/-- One live range: whole frames inside the direct map that `init` reported free and
that are marked used for as long as the range is live. -/
structure RangeOk (boot : Boot) (s : Frames) (r : FrameRange) : Prop where
  nonempty : 0 < r.count
  aligned : r.phys.toNat % frameSize = 0
  nonzero : 0 < r.phys.toNat
  below : r.phys.toNat + r.count * frameSize ≤ bootMappedEnd
  reported : ∀ f, r.frames.Holds f → boot.frames.bitIsUsed f = false
  used : ∀ f, r.frames.Holds f → s.bitIsUsed f = true

structure FrameInv (boot : Boot) (s : Frames) (live : List FrameRange) : Prop where
  counted : s.Counted
  reported : ∀ f, s.bitIsUsed f = false → boot.frames.bitIsUsed f = false
  ranges : ∀ r ∈ live, RangeOk boot s r
  disjoint : live.Pairwise fun r r' => r.frames.Disjoint r'.frames

theorem boot_counted (boot : Boot) : boot.frames.free = boot.frames.freeSet.card := by
  cases boot with
  | multiboot m mbInfo bssEnd =>
    simp only [Boot.frames, Frames.init]
    exact Frames.counted_free _
  | limine regions =>
    simp only [Boot.frames, Frames.initLimine]
    exact Frames.counted_free _

variable {boot : Boot} {s : Frames} {live : List FrameRange}

theorem frameInv_init (boot : Boot) : FrameInv boot boot.frames [] :=
  ⟨boot_counted boot, fun _ h => h, by simp, List.Pairwise.nil⟩

theorem FrameInv.alloc {count : Nat} {phys : UInt64} {s' : Frames} (h : FrameInv boot s live)
    (ha : s.allocFrames count = some (phys, s')) : FrameInv boot s' (⟨phys, count⟩ :: live) := by
  obtain ⟨p, hphys, h1, hcount, hmax, hclear, hbits, -⟩ := Frames.allocFrames_spec ha
  have hframe : (⟨phys, count⟩ : FrameRange).frames = ⟨p, count⟩ := by
    rw [FrameRange.frames, hphys, Nat.mul_div_cancel _ (by decide)]
  refine ⟨h.counted.alloc ha, ?_, ?_, ?_⟩
  · intro f hf
    rw [hbits] at hf
    split_ifs at hf
    exact h.reported f hf
  · intro r hr
    rcases List.mem_cons.mp hr with rfl | hr
    · simp only [maxFrames] at hmax
      refine ⟨hcount, ?_, ?_, ?_, ?_, ?_⟩
      · rw [hphys, Nat.mul_mod_left]
      · rw [hphys]
        exact Nat.mul_pos h1 (by decide)
      · simp only [hphys, bootMappedEnd, frameSize] at hmax ⊢
        omega
      · intro f hf
        rw [hframe] at hf
        exact h.reported f (hclear f hf.1 hf.2)
      · intro f hf
        rw [hframe] at hf
        rw [hbits]
        exact if_pos hf
    · obtain ⟨ha0, ha1, ha2, ha3, ha4, ha5⟩ := h.ranges r hr
      refine ⟨ha0, ha1, ha2, ha3, ha4, fun f hf => ?_⟩
      rw [hbits, ha5 f hf, ite_self]
  · refine List.pairwise_cons.mpr ⟨fun r hr => ?_, h.disjoint⟩
    rw [hframe]
    by_contra hd
    -- a common frame would be both clear, as found, and marked used, as live
    have hmeet : (⟨p, count⟩ : Span).Holds (max p r.frames.start) ∧
        r.frames.Holds (max p r.frames.start) := by
      have hr0 : 0 < r.frames.size := (h.ranges r hr).nonempty
      simp only [Span.Disjoint, Span.Holds, Span.stop] at hd ⊢
      omega
    have hused := (h.ranges r hr).used _ hmeet.2
    rw [hclear _ hmeet.1.1 hmeet.1.2] at hused
    cases hused

theorem FrameInv.free {r : FrameRange} {live₁ live₂ : List FrameRange}
    (h : FrameInv boot s (live₁ ++ r :: live₂)) :
    FrameInv boot (s.freeFrames r.phys r.count) (live₁ ++ live₂) := by
  obtain ⟨hcount, halign, hpos, hbelow, hrep, hused⟩ := h.ranges r (by simp)
  have hbits : ∀ f, (s.freeFrames r.phys r.count).bitIsUsed f =
      if r.frames.start ≤ f ∧ f < r.frames.start + r.count then false else s.bitIsUsed f :=
    Frames.freeFrames_bits s r.phys r.count
  have hstart : 1 ≤ r.frames.start ∧ r.frames.start + r.count ≤ maxFrames := by
    simp only [FrameRange.frames, maxFrames, bootMappedEnd, frameSize] at *
    omega
  have hsplit := List.pairwise_append.mp h.disjoint
  have hrest := List.pairwise_cons.mp hsplit.2.1
  have hoff : ∀ r' ∈ live₁ ++ live₂, r'.frames.Disjoint r.frames := by
    intro r' hr'
    rcases List.mem_append.mp hr' with hr' | hr'
    · exact hsplit.2.2 r' hr' r (by simp)
    · exact (hrest.1 r' hr').symm
  refine ⟨h.counted.free hstart.1 hstart.2 fun f h1 h2 => hused f ⟨h1, h2⟩, ?_, ?_, ?_⟩
  · intro f hf
    rw [hbits] at hf
    split_ifs at hf with hin
    · exact hrep f hin
    · exact h.reported f hf
  · intro r' hr'
    have hr'' : r' ∈ live₁ ++ r :: live₂ := by
      rcases List.mem_append.mp hr' with h1 | h2
      · exact List.mem_append_left _ h1
      · exact List.mem_append_right _ (List.mem_cons_of_mem _ h2)
    obtain ⟨ha0, ha1, ha2, ha3, ha4, ha5⟩ := h.ranges r' hr''
    refine ⟨ha0, ha1, ha2, ha3, ha4, fun f hf => ?_⟩
    have hd := hoff r' hr'
    have hn : ¬ (r.frames.start ≤ f ∧ f < r.frames.start + r.count) := by
      simp only [FrameRange.frames, Span.Disjoint, Span.Holds, Span.stop] at hd hf ⊢
      omega
    rw [hbits, if_neg hn, ha5 f hf]
  · exact List.pairwise_append.mpr ⟨hsplit.1, hrest.2,
      fun r₁ h₁ r₂ h₂ => hsplit.2.2 r₁ h₁ r₂ (List.mem_cons_of_mem _ h₂)⟩

theorem frameReach_inv (h : FrameReach boot s live) : FrameInv boot s live := by
  induction h with
  | init => exact frameInv_init boot
  | alloc _ ha ih => exact ih.alloc ha
  | fail _ _ ih => exact ih
  | free _ ih => exact ih.free

/-- Frame allocator invariant: over every run the counter is the number of clear bits,
live ranges are disjoint whole frames of the direct map that `init` reported free, and
a further allocation never meets a live one. -/
theorem frame_allocator_invariant (boot : Boot) {s : Frames} {live : List FrameRange}
    (h : FrameReach boot s live) :
    s.free = s.freeSet.card ∧
    (live.Pairwise fun r r' => r.frames.Disjoint r'.frames) ∧
    (∀ r ∈ live, r.phys.toNat % frameSize = 0 ∧ 0 < r.phys.toNat ∧
      r.phys.toNat + r.count * frameSize ≤ bootMappedEnd ∧
      ∀ f, r.frames.Holds f → boot.frames.bitIsUsed f = false) ∧
    ∀ count phys s', s.allocFrames count = some (phys, s') →
      ∀ r ∈ live, ∀ f, r.frames.Holds f → ¬ (⟨phys, count⟩ : FrameRange).frames.Holds f := by
  have hinv := frameReach_inv h
  refine ⟨hinv.counted, hinv.disjoint, fun r hr => ?_, fun count phys s' ha r hr f hf hf' => ?_⟩
  · obtain ⟨-, h1, h2, h3, h4, -⟩ := hinv.ranges r hr
    exact ⟨h1, h2, h3, h4⟩
  · have hd := (List.pairwise_cons.mp (hinv.alloc ha).disjoint).1 r hr
    simp only [Span.Disjoint, Span.Holds, Span.stop] at hd hf hf'
    omega

theorem frame_allocator_two_frames :
    ∃ s, FrameReach (.limine [⟨0x1000, 0x4000, 0⟩]) s [⟨0x1000, 2⟩] ∧ s.free = s.freeSet.card := by
  have hphys : ((Boot.limine [⟨0x1000, 0x4000, 0⟩]).frames.allocFrames 2).map Prod.fst =
      some 0x1000 := by decide +kernel
  obtain ⟨⟨phys, s⟩, ha, rfl⟩ := Option.map_eq_some_iff.mp hphys
  have hr := FrameReach.alloc FrameReach.init ha
  exact ⟨s, hr, (frame_allocator_invariant _ hr).1⟩

end Pippin.Mem
