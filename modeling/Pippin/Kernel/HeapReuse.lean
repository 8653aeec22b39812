import Pippin.Kernel.HeapPartition

/-! What the allocator can serve once everything has been returned. `dealloc` pushes a
block back as it was carved and nothing merges neighbours, so the zone stays cut
wherever an allocation has split it. -/

namespace Pippin.Heap

def Succeeds (s : State) (layout : Layout) : Prop :=
  ∃ ptr s', alloc s layout = some (ptr, s') ∧ ptr ≠ 0

/-- The block has room for its header, the back pointer below an aligned payload
address, and the payload. -/
def CanHold (b : Span) (layout : Layout) : Prop :=
  ∃ p, b.start + 24 ≤ p ∧ max layout.align.toNat 16 ∣ p ∧ p + max layout.size.toNat 1 ≤ b.stop

/-- The call that returned `ptr` left a part of the block it was carved from free. -/
def splitBy (s s' : State) (ptr : UInt64) : Prop :=
  (blockSize s'.mem (s'.mem.read64 (ptr - wordBytes).toNat)).toNat <
    (blockSize s.mem (s'.mem.read64 (ptr - wordBytes).toNat)).toNat

instance (s s' : State) (ptr : UInt64) : Decidable (splitBy s s' ptr) :=
  inferInstanceAs (Decidable (_ < _))

/-- The runs of `Reach`, with the number of allocations that have split a block. -/
inductive Run (arr : HeapArray) : Nat → State → List Live → Prop
  | init (m : Memory) : Run arr 0 (init arr m) []
  | alloc {n s s' live layout ptr} (h : Run arr n s live)
      (ha : alloc s layout = some (ptr, s')) (hp : ptr ≠ 0) :
      Run arr (n + if splitBy s s' ptr then 1 else 0) s' (⟨ptr, layout, blockOf s'.mem ptr⟩ :: live)
  | fail {n s s' live layout} (h : Run arr n s live) (ha : alloc s layout = some (0, s')) :
      Run arr n s' live
  | dealloc {n s l live₁ live₂} (h : Run arr n s (live₁ ++ l :: live₂)) :
      Run arr n (dealloc s l.ptr) (live₁ ++ live₂)
  | store {n s live l a bs} (h : Run arr n s live) (hl : l ∈ live)
      (hlo : l.payload.start ≤ a) (hhi : a + bs.length ≤ l.payload.stop) :
      Run arr n { s with mem := s.mem.write a bs } live

variable {arr : HeapArray} {n : Nat} {s : State} {free : List Span} {live : List Live}

section Fit

variable {b : Span} {cur : UInt64} {layout : Layout}

theorem alignOf_eq (layout : Layout) :
    ∃ k, (alignOf layout).toNat = 2 ^ k ∧ 2 ^ k = max layout.align.toNat 16 := by
  obtain ⟨k, hk, h16, hdvd, hcase⟩ := alignOf_spec layout
  have h1 : layout.align.toNat ≤ 2 ^ k := Nat.le_of_dvd (Nat.two_pow_pos k) hdvd
  have h2 : 16 ≤ 2 ^ k := Nat.le_of_dvd (Nat.two_pow_pos k) h16
  refine ⟨k, hk, ?_⟩
  rcases hcase with h | h
  · rw [max_eq_right (h ▸ h1), h]
  · rw [max_eq_left (h ▸ h2), h]

theorem Fits.canHold {pa used : UInt64} (hf : Fits cur pa (wantOf layout) used layout)
    (hstart : cur.toNat = b.start) (hle : used.toNat ≤ b.size) : CanHold b layout := by
  obtain ⟨he, -, -, h16, hal, hh, hr⟩ := hf
  obtain ⟨-, hws, hw16, -⟩ := wantOf_spec layout
  refine ⟨pa.toNat, by omega, ?_, ?_⟩
  · rcases max_choice layout.align.toNat 16 with h | h
    · rwa [h]
    · rwa [h]
  · simp only [Span.stop]
    omega

theorem alignUp_le {v a : UInt64} {k p : Nat} (ha : a.toNat = 2 ^ k) (hp : 2 ^ k ∣ p)
    (hlt : p < 2 ^ 64) (hv : v.toNat ≤ p) : (alignUp v a).toNat ≤ p ∧ v.toNat ≤ (alignUp v a).toNat := by
  have hk := Word.exponent_lt ha
  have hpos := Nat.two_pow_pos k
  obtain ⟨q, rfl⟩ := hp
  have h64 : 2 ^ k ∣ 2 ^ 64 := Nat.pow_dvd_pow 2 (Nat.le_of_lt hk)
  obtain ⟨r, hr⟩ := h64
  have hqr : q + 1 ≤ r := by
    rw [hr] at hlt
    exact Nat.lt_of_mul_lt_mul_left hlt
  have htop : 2 ^ k * q + 2 ^ k ≤ 2 ^ 64 := by
    rw [hr, ← Nat.mul_succ]
    exact Nat.mul_le_mul_left _ hqr
  rw [toNat_alignUp ha, Nat.mod_eq_of_lt (by omega)]
  obtain ⟨-, hlow, hhigh⟩ := roundDown_spec (v.toNat + 2 ^ k - 1) (2 ^ k) hpos
  refine ⟨?_, by omega⟩
  rw [Nat.mul_comm]
  apply Nat.mul_le_mul_left
  apply Nat.le_of_lt_succ
  rw [Nat.div_lt_iff_lt_mul hpos, Nat.succ_mul, Nat.mul_comm q]
  omega

theorem used_le_of_canHold (hc : CanHold b layout) (hstart : cur.toNat = b.start)
    {size : UInt64} (hsize : size.toNat = b.size) (h16 : 16 ∣ b.start) (h16' : 16 ∣ b.size)
    (hend : b.stop + 16 ≤ 2 ^ 64) :
    alignUp (payload cur + wordBytes) (alignOf layout) + wantOf layout - cur ≤ size := by
  obtain ⟨p, hlo, hdvd, hhi⟩ := hc
  obtain ⟨k, hk, hmax⟩ := alignOf_eq layout
  obtain ⟨hwd, hws, hw16, hwle⟩ := wantOf_spec layout
  simp only [Span.stop] at hhi hend
  have hv : (payload cur + wordBytes).toNat = b.start + 24 := by
    simp only [payload, blockBytes, wordBytes, UInt64.toNat_add, UInt64.reduceToNat]
    omega
  have hp16 : 16 ∣ p := by
    refine Dvd.dvd.trans ?_ hdvd
    rw [← hmax]
    obtain ⟨k', hk', h16k, -⟩ := alignOf_spec layout
    rwa [← hk, hk']
  rw [← hmax] at hdvd
  obtain ⟨hple, hge⟩ := alignUp_le (v := payload cur + wordBytes) hk hdvd (by omega) (by omega)
  rw [hv] at hge
  generalize alignUp (payload cur + wordBytes) (alignOf layout) = pa at hple hge ⊢
  generalize wantOf layout = want at hwd hws hw16 hwle ⊢
  have hroom : p + want.toNat ≤ b.start + b.size := by omega
  have hadd : (pa + want).toNat = pa.toNat + want.toNat := by
    rw [UInt64.toNat_add, Nat.mod_eq_of_lt (by omega)]
  have hle : cur ≤ pa + want := by
    rw [UInt64.le_iff_toNat_le, hadd]
    omega
  rw [UInt64.le_iff_toNat_le, UInt64.toNat_sub_of_le _ _ hle, hadd]
  omega

end Fit

theorem scan_fails (want al : UInt64) (rest : List Span) :
    ∀ (fuel : Nat) (prev cur : UInt64), rest.length < fuel → FreeSeg s.mem cur rest 0 →
      (∀ b ∈ rest, 0 < b.start) →
      (∀ b ∈ rest, ∀ c : UInt64, c.toNat = b.start → (blockSize s.mem c).toNat = b.size →
        alignUp (payload c + wordBytes) al + want - c ≤ blockSize s.mem c →
          alignUp (payload c + wordBytes) al ≠ 0) →
      allocLoop want al fuel s prev cur = some (0, s) →
      ∀ b ∈ rest, ∃ c : UInt64, c.toNat = b.start ∧ (blockSize s.mem c).toNat = b.size ∧
        ¬ alignUp (payload c + wordBytes) al + want - c ≤ blockSize s.mem c := by
  induction rest with
  | nil => simp
  | cons b rest ih =>
    intro fuel prev cur hf hrest hpos hne hres
    obtain ⟨fuel, rfl⟩ := Nat.exists_eq_add_one_of_ne_zero (Nat.ne_zero_of_lt hf)
    obtain ⟨h1, h2, h3⟩ := hrest
    have hcur : cur ≠ 0 := by
      rintro rfl
      exact absurd (h1 ▸ hpos b List.mem_cons_self) (by decide)
    simp only [allocLoop, if_neg hcur] at hres
    split_ifs at hres with hfit
    · -- the test passed here, so the result is a payload address and not null
      rw [Option.some.injEq, Prod.mk.injEq] at hres
      exact absurd hres.1 (hne b List.mem_cons_self cur h1 h2 hfit)
    · intro c hc
      rcases List.mem_cons.mp hc with rfl | hc
      · exact ⟨cur, h1, h2, hfit⟩
      · exact ih fuel cur _ (by simpa using hf) h3 (fun b' hb' => hpos b' (List.mem_cons_of_mem _ hb'))
          (fun b' hb' => hne b' (List.mem_cons_of_mem _ hb')) hres c hc

theorem Partition.succeeds_iff (h : Partition arr s free live) (layout : Layout) :
    Succeeds s layout ↔ ∃ b ∈ free, CanHold b layout := by
  rcases h.alloc_cases layout with
    hnone | ⟨pre, b, post, prev, cur, pa, used, rfl, hstart, hsize, hf, hle, hres, -⟩
  · constructor
    · rintro ⟨ptr, s', ha, hp⟩
      rw [hnone, Option.some.injEq, Prod.mk.injEq] at ha
      exact absurd ha.1.symm hp
    · rintro ⟨b, hb, hc⟩
      have hb' : b ∈ free ++ live.map Live.block := List.mem_append_left _ hb
      obtain ⟨h16, h16', -⟩ := h.grain b hb'
      have hin := (h.tiles.within b hb').2
      have hfits := arr.fits
      have harr := arr.aligned
      obtain ⟨hfuel, hpos⟩ := h.scan_bounds
      rw [Heap.alloc, if_pos h.ready] at hnone
      obtain ⟨c, hstart, hsize, hno⟩ := scan_fails (wantOf layout) (alignOf layout) free scanFuel 0
        s.freeHead hfuel h.list hpos
        (fun b' hb' c' h1 h2 hle => (h.fits hb' h1 h2 hle).ne_null) hnone b hb
      have hend : b.stop + 16 ≤ 2 ^ 64 := by
        simp only [Span.stop, heapSize] at hin hfits ⊢
        omega
      exact absurd (used_le_of_canHold hc hstart hsize h16 h16' hend) hno
  · exact ⟨fun _ => ⟨b, by simp, hf.canHold hstart hle⟩, fun _ => ⟨_, _, hres, hf.ne_null⟩⟩

theorem Run.partition (h : Run arr n s live) :
    ∃ free, Partition arr s free live ∧ free.length + live.length = n + 1 := by
  -- on the run: the pieces of the heap are counted by the splits
  induction h with
  | init m => exact ⟨_, partition_init arr m, rfl⟩
  | @alloc n s s' live layout ptr _ ha hp ih =>
    obtain ⟨free, hpart, hlen⟩ := ih
    rcases hpart.alloc_cases layout with
      h0 | ⟨pre, b, post, prev, cur, pa, used, rfl, hstart, hsize, hf, hle, hres, hpart'⟩
    · rw [h0, Option.some.injEq, Prod.mk.injEq] at ha
      exact absurd ha.1.symm hp
    · rw [hres, Option.some.injEq, Prod.mk.injEq] at ha
      obtain ⟨rfl, rfl⟩ := ha
      have howns := hpart'.owns _ List.mem_cons_self
      have hblock := howns.blockOf
      refine ⟨_, by rw [hblock]; exact hpart', ?_⟩
      have hb16 := (hpart.grain b (by simp)).2.1
      have hu16 := hf.used_dvd
      have hsplit : splitBy s (Heap.carve s prev cur pa (wantOf layout) used (blockSize s.mem cur)) pa ↔
          used.toNat < b.size := by
        have hback := congrArg Span.start hblock
        have hnew := congrArg Span.size hblock
        simp only [Heap.blockOf] at hback hnew
        rw [splitBy, UInt64.toNat_inj.mp hback, ← hsize]
        rw [UInt64.toNat_inj.mp hback] at hnew
        rw [blockSize] at hnew ⊢
        rw [hnew]
      simp only [List.length_append, List.length_cons, remainder, hsize] at hlen ⊢
      -- a split leaves the remainder as one more free piece
      by_cases hlt : used.toNat < b.size
      · rw [if_pos (hsplit.mpr hlt), if_pos (by omega), List.length_singleton]
        omega
      · rw [if_neg (mt hsplit.mp hlt), if_neg (by omega), List.length_nil]
        omega
  | @fail n s s' live layout _ ha ih =>
    obtain ⟨free, hpart, hlen⟩ := ih
    rcases hpart.alloc layout with h0 | ⟨ptr', s'', free', ha', hp', -⟩
    · rw [h0, Option.some.injEq, Prod.mk.injEq] at ha
      exact ⟨free, ha.2 ▸ hpart, hlen⟩
    · rw [ha', Option.some.injEq, Prod.mk.injEq] at ha
      exact absurd ha.1 hp'
  | dealloc _ ih =>
    obtain ⟨free, hpart, hlen⟩ := ih
    refine ⟨_, hpart.dealloc, ?_⟩
    simp only [List.length_append, List.length_cons] at hlen ⊢
    omega
  | store _ hl hlo hhi ih =>
    obtain ⟨free, hpart, hlen⟩ := ih
    exact ⟨free, hpart.store hl hlo hhi, hlen⟩

def largest : Layout := ⟨UInt64.ofNat (heapSize - 32), 16, ⟨4, rfl⟩, by decide⟩

theorem canHold_largest {b : Span} (h16 : 16 ∣ b.start) : CanHold b largest ↔ heapSize ≤ b.size := by
  have hal : max largest.align.toNat 16 = 16 := rfl
  have hsz : max largest.size.toNat 1 = heapSize - 32 := rfl
  rw [CanHold, hal, hsz]
  simp only [Span.stop, heapSize]
  constructor
  · rintro ⟨p, hlo, hdvd, hhi⟩
    omega
  · intro h
    exact ⟨b.start + 32, by omega, by omega, by omega⟩

/-- With nothing live, the free blocks tile the zone, a request succeeds iff one of
them alone can hold it, and all that the fresh heap serves is served iff no allocation
has split a block. -/
theorem heap_reuse (arr : HeapArray) {n : Nat} {s : State} (h : Run arr n s []) :
    ∃ free, FreeSeg s.mem s.freeHead free 0 ∧
      Span.Tiles arr.base.toNat (arr.base.toNat + heapSize) free ∧
      (∀ layout, Succeeds s layout ↔ ∃ b ∈ free, CanHold b layout) ∧
      ((∀ m layout, Succeeds (init arr m) layout → Succeeds s layout) ↔ n = 0) := by
  obtain ⟨free, hpart, hlen⟩ := h.partition
  have htiles := hpart.tiles
  rw [List.map_nil, List.append_nil] at htiles
  refine ⟨free, hpart.list, htiles, hpart.succeeds_iff, ?_⟩
  have hfresh : ∀ m layout, Succeeds (Heap.init arr m) layout ↔
      CanHold ⟨arr.base.toNat, heapSize⟩ layout := by
    intro m layout
    rw [(partition_init arr m).succeeds_iff]
    simp
  rw [List.length_nil, Nat.add_zero] at hlen
  have hzone : arr.base.toNat + heapSize - arr.base.toNat = heapSize := Nat.add_sub_cancel_left ..
  constructor
  · intro hall
    obtain ⟨b, hb, hc⟩ := (hpart.succeeds_iff largest).mp (hall (fun _ => 0) largest
      ((hfresh _ _).mpr ((canHold_largest (Nat.dvd_of_mod_eq_zero arr.aligned)).mpr le_rfl)))
    rw [canHold_largest (hpart.grain b (by simp [hb])).1] at hc
    have hpos : ∀ c ∈ free, 0 < c.size := fun c hmem =>
      Nat.lt_of_lt_of_le (by decide) (hpart.size_ge (List.mem_append_left _ hmem))
    rw [htiles.eq_singleton hpos hb (hzone.trans_le hc), List.length_singleton] at hlen
    omega
  · rintro rfl m layout hf
    obtain ⟨b, rfl⟩ := List.length_eq_one_iff.mp hlen
    rw [hpart.succeeds_iff]
    refine ⟨b, List.mem_singleton_self b, ?_⟩
    rw [htiles.eq_whole, hzone]
    exact (hfresh m layout).mp hf

theorem heap_reuse_once :
    ∃ arr s, Run arr 1 s [] ∧ ¬ ∀ m layout, Succeeds (init arr m) layout → Succeeds s layout := by
  let arr : HeapArray := ⟨0x100000, by decide, by decide, by decide⟩
  let layout : Layout := ⟨24, 64, ⟨6, rfl⟩, by decide⟩
  have hptr : (alloc (init arr fun _ => 0) layout).map
      (fun r => (r.1, decide (splitBy (init arr fun _ => 0) r.2 r.1))) = some (0x100040, true) := by
    decide +kernel
  obtain ⟨⟨ptr, s⟩, ha, heq⟩ := Option.map_eq_some_iff.mp hptr
  obtain ⟨rfl, hsplit⟩ := Prod.mk.inj heq
  have hinit : Run arr 0 (init arr fun _ => 0) [] := Run.init _
  have hr := hinit.alloc ha (by decide)
  rw [if_pos (of_decide_eq_true hsplit)] at hr
  have hd := @Run.dealloc arr _ _ _ [] [] hr
  obtain ⟨free, -, -, -, hiff⟩ := heap_reuse arr hd
  exact ⟨arr, _, hd, fun hall => absurd (hiff.mp hall) (by decide)⟩

def screen : Layout := ⟨3 * 1024 * 1024, 4, ⟨2, rfl⟩, by decide⟩

/-- After one block of 1.5 MiB has come and gone, the screen no longer fits. -/
theorem heap_reuse_screen :
    ¬ ∀ (arr : HeapArray) (s : State), Reach arr s [] → ∀ m layout,
      Succeeds (init arr m) layout → Succeeds s layout := by
  intro hall
  let arr : HeapArray := ⟨0x100000, by decide, by decide, by decide⟩
  let layout : Layout := ⟨1536 * 1024, 1, ⟨0, rfl⟩, by decide⟩
  have hrun : (alloc (init arr fun _ => 0) layout).map
      (fun r => (r.1, (alloc (dealloc r.2 r.1) screen).map Prod.fst)) = some (0x100020, some 0) := by
    decide +kernel
  have hfresh : (alloc (init arr fun _ => 0) screen).map Prod.fst = some 0x100020 := by
    decide +kernel
  obtain ⟨⟨ptr, s⟩, ha, heq⟩ := Option.map_eq_some_iff.mp hrun
  obtain ⟨rfl, hfail⟩ := Prod.mk.inj heq
  have hinit : Reach arr (init arr fun _ => 0) [] := Reach.init _
  have hr := hinit.alloc ha (by decide)
  have hd := @Reach.dealloc arr _ _ [] [] hr
  obtain ⟨⟨p, s₁⟩, ha₁, hp⟩ := Option.map_eq_some_iff.mp hfresh
  obtain ⟨p₂, s₂, ha₂, hne⟩ := hall arr _ hd (fun _ => 0) screen
    ⟨p, s₁, ha₁, by rw [show p = 0x100020 from hp]; decide⟩
  rw [ha₂, Option.map_some, Option.some.injEq] at hfail
  exact hne hfail

end Pippin.Heap
