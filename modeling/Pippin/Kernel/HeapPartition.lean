import Pippin.Kernel.HeapList

/-! Every run of the allocator keeps the array partitioned into the blocks of the
free list and the blocks of the live allocations, whatever clients store in the
memory they were given. -/

namespace Pippin.Heap

/-- A pointer handed out and not yet returned, with the block it was carved from. -/
structure Live where
  ptr : UInt64
  layout : Layout
  block : Span

def Live.payload (l : Live) : Span := ⟨l.ptr.toNat, l.layout.size.toNat⟩

def Live.backWord (l : Live) : Span := ⟨l.ptr.toNat - 8, 8⟩

def header (b : Span) : Span := ⟨b.start, 16⟩

/-- The block `dealloc` would put back on the free list for this pointer. -/
def blockOf (m : Memory) (ptr : UInt64) : Span :=
  let h := m.read64 (ptr - wordBytes).toNat
  ⟨h.toNat, (blockSize m h).toNat⟩

/-- States reached from `init` by allocations, deallocations of live pointers and
arbitrary client stores inside live payloads. -/
inductive Reach (arr : HeapArray) : State → List Live → Prop
  | init (m : Memory) : Reach arr (init arr m) []
  | alloc {s s' live layout ptr} (h : Reach arr s live)
      (ha : alloc s layout = some (ptr, s')) (hp : ptr ≠ 0) :
      Reach arr s' (⟨ptr, layout, blockOf s'.mem ptr⟩ :: live)
  | fail {s s' live layout} (h : Reach arr s live) (ha : alloc s layout = some (0, s')) :
      Reach arr s' live
  | dealloc {s l live₁ live₂} (h : Reach arr s (live₁ ++ l :: live₂)) :
      Reach arr (dealloc s l.ptr) (live₁ ++ live₂)
  | store {s live l a bs} (h : Reach arr s live) (hl : l ∈ live)
      (hlo : l.payload.start ≤ a) (hhi : a + bs.length ≤ l.payload.stop) :
      Reach arr { s with mem := s.mem.write a bs } live

/-- What memory and the layout record about one live allocation. -/
structure Owns (m : Memory) (l : Live) : Prop where
  back : (m.read64 (l.ptr.toNat - 8)).toNat = l.block.start
  size : (m.read64 l.block.start).toNat = l.block.size
  above : l.block.start + 32 ≤ l.ptr.toNat
  room : l.payload.stop ≤ l.block.stop
  aligned : l.layout.align.toNat ∣ l.ptr.toNat

structure Partition (arr : HeapArray) (s : State) (free : List Span) (live : List Live) : Prop where
  ready : s.ready = true
  list : FreeSeg s.mem s.freeHead free 0
  tiles : Span.Tiles arr.base.toNat (arr.base.toNat + heapSize) (free ++ live.map Live.block)
  grain : ∀ b ∈ free ++ live.map Live.block, 16 ∣ b.start ∧ 16 ∣ b.size ∧ 0 < b.size
  owns : ∀ l ∈ live, Owns s.mem l

theorem Owns.congr {m m' : Memory} {l : Live} (h : Owns m l)
    (hm : ∀ x, l.block.start ≤ x → x < l.block.start + 8 → m x = m' x)
    (hb : ∀ x, l.ptr.toNat - 8 ≤ x → x < l.ptr.toNat → m x = m' x) : Owns m' l := by
  have ha := h.above
  refine ⟨?_, ?_, h.above, h.room, h.aligned⟩
  · rw [← h.back, Memory.read64_congr fun i _ => hb _ (by omega) (by omega)]
  · rw [← h.size, Memory.read64_congr fun i _ => hm _ (by omega) (by omega)]

theorem Owns.of_agree {m m' : Memory} {l : Live} (h : Owns m l)
    (hm : ∀ x, l.block.Holds x → m x = m' x) : Owns m' l := by
  have ha := h.above
  have hr := h.room
  simp only [Live.payload, Span.stop] at hr
  exact h.congr (fun x h1 h2 => hm x ⟨h1, by simp only [Span.stop]; omega⟩)
    (fun x h1 h2 => hm x ⟨by omega, by simp only [Span.stop]; omega⟩)

theorem partition_init (arr : HeapArray) (m : Memory) :
    Partition arr (init arr m) [⟨arr.base.toNat, heapSize⟩] [] where
  ready := rfl
  list := by
    refine ⟨rfl, ?_, ?_⟩
    · simp only [init, blockSize, writeBlock]
      rw [Memory.read64_write64_disjoint (by omega), Memory.read64_write64_self]
      rfl
    · simp only [init, blockNext, writeBlock, Memory.read64_write64_self]
      rfl
  tiles := by
    refine ⟨?_, by simp, ?_, by simp⟩
    · simp [Span.stop]
    · intro x hlo hhi
      exact ⟨⟨arr.base.toNat, heapSize⟩, by simp, hlo, hhi⟩
  grain := by
    have ha := arr.aligned
    simp only [List.map_nil, List.append_nil, List.mem_singleton, forall_eq, heapSize]
    omega
  owns := by simp

theorem toNat_sub_word {p : UInt64} (h : 8 ≤ p.toNat) : (p - wordBytes).toNat = p.toNat - 8 :=
  UInt64.toNat_sub_of_le _ _ (UInt64.le_iff_toNat_le.mpr h)

section Carve

variable {s : State} {prev cur pa want used size : UInt64} {layout : Layout}

theorem carve_outside (hf : Fits cur pa want used layout) (hle : used.toNat ≤ size.toNat)
    (hend : cur.toNat + size.toNat < 2 ^ 64) {x : Nat} (hx : x < cur.toNat ∨ cur.toNat + size.toNat ≤ x) :
    (carve s prev cur pa want used size).mem x = (unlink s prev cur).mem x := by
  obtain ⟨he, -, -, -, -, hh, hr⟩ := hf
  have hpw : (pa + want).toNat = pa.toNat + want.toNat := by rw [UInt64.toNat_add]; omega
  have hsub : (size - used).toNat = size.toNat - used.toNat :=
    UInt64.toNat_sub_of_le _ _ (UInt64.le_iff_toNat_le.mpr hle)
  have hpa8 := toNat_sub_word (p := pa) (by omega)
  simp only [carve]
  rw [Memory.write64_outside (by omega), Memory.write64_outside (by omega), splitTail]
  split_ifs with hrem
  · rw [UInt64.le_iff_toNat_le, hsub] at hrem
    simp only [blockBytes, UInt64.reduceToNat] at hrem
    simp only [writeBlock]
    rw [Memory.write64_outside (by omega), Memory.write64_outside (by omega)]
  · rfl

theorem splitTail_ready (tail : UInt64) : (splitTail s tail size used).ready = s.ready := by
  unfold splitTail
  split_ifs <;> rfl

theorem unlink_ready : (unlink s prev cur).ready = s.ready := by
  unfold unlink
  split_ifs <;> rfl

theorem carve_ready : (carve s prev cur pa want used size).ready = s.ready := by
  simp only [carve, splitTail_ready, unlink_ready]

theorem carve_owns (hf : Fits cur pa want used layout) :
    Owns (carve s prev cur pa want used size).mem ⟨pa, layout, ⟨cur.toNat, used.toNat⟩⟩ := by
  obtain ⟨he, -, -, -, hal, hh, hr⟩ := hf
  have hpa8 := toNat_sub_word (p := pa) (by omega)
  refine ⟨?_, ?_, hh, hr, hal⟩
  · simp only [carve, hpa8, Memory.read64_write64_self]
  · simp only [carve, hpa8]
    rw [Memory.read64_write64_disjoint (by omega), Memory.read64_write64_self]

@[irreducible] def remainder (cur used size : UInt64) : List Span :=
  if used.toNat + 16 ≤ size.toNat then
    [⟨cur.toNat + used.toNat, size.toNat - used.toNat⟩]
  else []

theorem tiles_carve {lo hi : Nat} {rest : List Span} (hle : used.toNat ≤ size.toNat)
    (hu : 16 ∣ used.toNat) (hs : 16 ∣ size.toNat)
    (h : Span.Tiles lo hi (⟨cur.toNat, size.toNat⟩ :: rest)) :
    Span.Tiles lo hi (⟨cur.toNat, used.toNat⟩ :: (remainder cur used size ++ rest)) := by
  by_cases hrem : used.toNat + 16 ≤ size.toNat
  · rw [remainder, if_pos hrem, List.singleton_append]
    apply Span.Tiles.split
    rwa [Nat.add_sub_cancel' hle]
  · have he : used.toNat = size.toNat := by omega
    rwa [remainder, if_neg hrem, he]

theorem remainder_grain {c : Span} (hc : 16 ∣ cur.toNat) (hu : 16 ∣ used.toNat)
    (hs : 16 ∣ size.toNat) (h : c ∈ remainder cur used size) :
    16 ∣ c.start ∧ 16 ∣ c.size ∧ 0 < c.size := by
  unfold remainder at h
  split_ifs at h with hrem
  · rw [List.mem_singleton] at h
    subst h
    exact ⟨Nat.dvd_add hc hu, Nat.dvd_sub hs hu, by simp only; omega⟩
  · exact absurd h List.not_mem_nil

theorem carve_free (hf : Fits cur pa want used layout) (hle : used.toNat ≤ size.toNat)
    (hend : cur.toNat + size.toNat < 2 ^ 64) {fs : List Span}
    (h : FreeSeg (carve s prev cur pa want used size).mem (unlink s prev cur).freeHead fs 0) :
    FreeSeg (carve s prev cur pa want used size).mem (carve s prev cur pa want used size).freeHead
      (remainder cur used size ++ fs) 0 := by
  obtain ⟨he, -, -, -, -, hh, hr⟩ := hf
  have hpw : (pa + want).toNat = pa.toNat + want.toNat := by rw [UInt64.toNat_add]; omega
  have hpa8 := toNat_sub_word (p := pa) (by omega)
  have hsub : (size - used).toNat = size.toNat - used.toNat :=
    UInt64.toNat_sub_of_le _ _ (UInt64.le_iff_toNat_le.mpr hle)
  have hcond : blockBytes ≤ size - used ↔ used.toNat + 16 ≤ size.toNat := by
    rw [UInt64.le_iff_toNat_le, hsub]
    simp only [blockBytes, UInt64.reduceToNat]
    omega
  by_cases hrem : used.toNat + 16 ≤ size.toNat
  · rw [remainder, if_pos hrem, List.singleton_append]
    simp only [carve, splitTail, if_pos (hcond.mpr hrem), writeBlock] at h ⊢
    refine ⟨hpw.trans he.symm, ?_, ?_⟩
    · rw [blockSize, Memory.read64_write64_disjoint (by omega),
        Memory.read64_write64_disjoint (by omega), Memory.read64_write64_disjoint (by omega),
        Memory.read64_write64_self, hsub]
    · rw [blockNext, Memory.read64_write64_disjoint (by omega),
        Memory.read64_write64_disjoint (by omega), Memory.read64_write64_self]
      exact h
  · rw [remainder, if_neg hrem, List.nil_append]
    simp only [carve, splitTail, if_neg (mt hcond.mp hrem)] at h ⊢
    exact h

end Carve

variable {arr : HeapArray} {s : State} {free : List Span} {live : List Live}

theorem Partition.size_ge (h : Partition arr s free live) {b : Span}
    (hb : b ∈ free ++ live.map Live.block) : 16 ≤ b.size :=
  Nat.le_of_dvd (h.grain b hb).2.2 (h.grain b hb).2.1

theorem Partition.disjoint_free_live (h : Partition arr s free live) {b : Span} {l : Live}
    (hb : b ∈ free) (hl : l ∈ live) : b.Disjoint l.block :=
  (List.pairwise_append.mp h.tiles.disjoint).2.2 b hb l.block (List.mem_map_of_mem hl)

theorem Partition.eq_or_disjoint (h : Partition arr s free live) {l l' : Live}
    (hl : l ∈ live) (hl' : l' ∈ live) : l = l' ∨ l.block.Disjoint l'.block := by
  have hp := List.pairwise_map.mp (List.pairwise_append.mp h.tiles.disjoint).2.1
  have : Std.Symm fun a b : Live => a.block.Disjoint b.block := ⟨fun _ _ hab => hab.symm⟩
  by_cases he : l = l'
  · exact Or.inl he
  · exact Or.inr (hp.forall hl hl' he)

theorem Partition.unlink {pre post : List Span} {b : Span} {prev cur : UInt64}
    (h : Partition arr s (pre ++ b :: post) live) (hpre : FreeSeg s.mem s.freeHead pre cur)
    (hprev : PrevOf pre prev) (hcur : FreeSeg s.mem cur (b :: post) 0) :
    FreeSeg (unlink s prev cur).mem (unlink s prev cur).freeHead (pre ++ post) 0 ∧
      ∀ l ∈ live, Owns (unlink s prev cur).mem l := by
  obtain ⟨-, -, hpost⟩ := hcur
  rcases hprev with ⟨rfl, rfl⟩ | ⟨as, p, rfl, hp, hp0⟩
  · exact ⟨by simpa only [Heap.unlink, if_true, List.nil_append] using hpost,
      by simpa only [Heap.unlink, if_true] using h.owns⟩
  · have hd := (List.pairwise_append.mp h.tiles.disjoint).1
    have hmem : ∀ c ∈ as ++ [p], c ∈ as ++ [p] ++ b :: post ++ live.map Live.block :=
      fun c hc => List.mem_append_left _ (List.mem_append_left _ hc)
    have hsz : ∀ c ∈ as ++ [p], 16 ≤ c.size := fun c hc => h.size_ge (hmem c hc)
    have hp16 := hsz p (by simp)
    have hdp : ∀ c ∈ as, c.Disjoint p := by
      intro c hc
      rw [List.append_assoc] at hd
      exact (List.pairwise_append.mp hd).2.2 c hc p (by simp)
    have hdpost : ∀ c ∈ post, p.Disjoint c := by
      intro c hc
      exact (List.pairwise_append.mp hd).2.2 p (by simp) c (by simp [hc])
    simp only [Heap.unlink, if_neg hp0]
    refine ⟨freeSeg_append.mpr ⟨_, hpre.relink hp hdp hsz, hpost.congr ?_⟩, ?_⟩
    · intro c hc i hi
      have hcd := hdpost c hc
      have hc16 : 16 ≤ c.size := h.size_ge (by simp [hc])
      simp only [Span.Disjoint, Span.stop] at hcd
      exact (Memory.write64_outside (by omega)).symm
    · intro l hl
      have hld := h.disjoint_free_live (b := p) (by simp) hl
      refine (h.owns l hl).of_agree fun x hx => (Memory.write64_outside ?_).symm
      simp only [Span.Disjoint, Span.Holds, Span.stop] at hld hx
      omega

theorem Owns.blockOf {m : Memory} {l : Live} (h : Owns m l) : blockOf m l.ptr = l.block := by
  have ha := h.above
  have hp := toNat_sub_word (p := l.ptr) (by omega)
  apply Span.ext
  · rw [← h.back, Heap.blockOf, hp]
  · rw [← h.size, Heap.blockOf, hp, blockSize, h.back]

/-- The carved block is live and owned; a remainder of at least one header is free.
Sizes are multiples of 16, so a smaller remainder is empty. -/
theorem Partition.carve_at {pre post : List Span} {b : Span} {prev cur pa want used : UInt64}
    {layout : Layout} (h : Partition arr s (pre ++ b :: post) live)
    (hpre : FreeSeg s.mem s.freeHead pre cur) (hprev : PrevOf pre prev)
    (hcur : FreeSeg s.mem cur (b :: post) 0) (hf : Fits cur pa want used layout)
    (hle : used.toNat ≤ (blockSize s.mem cur).toNat) :
    Partition arr (carve s prev cur pa want used (blockSize s.mem cur))
      (remainder cur used (blockSize s.mem cur) ++ (pre ++ post))
      (⟨pa, layout, ⟨cur.toNat, used.toNat⟩⟩ :: live) := by
  obtain ⟨hlist, howns⟩ := h.unlink hpre hprev hcur
  obtain ⟨hstart, hsize, -⟩ := hcur
  have hbmem : b ∈ pre ++ b :: post ++ live.map Live.block := by simp
  obtain ⟨-, hbin⟩ := h.tiles.within b hbmem
  obtain ⟨hb16s, hb16, -⟩ := h.grain b hbmem
  have hfit := arr.fits
  simp only [Span.stop] at hbin
  have hperm : (pre ++ b :: post ++ live.map Live.block).Perm
      (b :: (pre ++ post ++ live.map Live.block)) := by
    rw [List.append_assoc, List.append_assoc]
    exact List.perm_middle
  have htiles := h.tiles.perm hperm
  have hoff := (List.pairwise_cons.mp htiles.disjoint).1
  have hgrain : ∀ c ∈ pre ++ post ++ live.map Live.block, 16 ∣ c.start ∧ 16 ∣ c.size ∧ 0 < c.size :=
    fun c hc => h.grain c (hperm.mem_iff.mpr (List.mem_cons_of_mem _ hc))
  have hend : cur.toNat + (blockSize s.mem cur).toNat < 2 ^ 64 := by omega
  -- the block is in no other span, so carving it writes into none of them
  have hkeep : ∀ x, ¬ b.Holds x → (Heap.carve s prev cur pa want used (blockSize s.mem cur)).mem x =
      (Heap.unlink s prev cur).mem x := by
    intro x hx
    simp only [Span.Holds, Span.stop] at hx
    exact carve_outside hf hle hend (by omega)
  have hkeepOn : ∀ c ∈ pre ++ post ++ live.map Live.block, ∀ x, c.Holds x → ¬ b.Holds x := by
    intro c hc x hx hx'
    have := hoff c hc
    simp only [Span.Disjoint, Span.Holds, Span.stop] at this hx hx'
    omega
  have hfree : FreeSeg (Heap.carve s prev cur pa want used (blockSize s.mem cur)).mem
      (Heap.unlink s prev cur).freeHead (pre ++ post) 0 := by
    refine hlist.congr fun c hc i hi => (hkeep _ (hkeepOn c (List.mem_append_left _ hc) _ ?_)).symm
    obtain ⟨-, hdvd, hpos⟩ := hgrain c (List.mem_append_left _ hc)
    have hc16 := Nat.le_of_dvd hpos hdvd
    simp only [Span.Holds, Span.stop]
    omega
  have hb : b = ⟨cur.toNat, (blockSize s.mem cur).toNat⟩ := Span.ext hstart.symm hsize.symm
  rw [← hsize] at hb16
  rw [← hstart] at hb16s
  rw [hb] at htiles
  have hupos : 0 < used.toNat := by
    have h1 := hf.header
    have h2 := hf.room
    omega
  have hmid : (⟨cur.toNat, used.toNat⟩ :: (remainder cur used (blockSize s.mem cur) ++
      (pre ++ post ++ live.map Live.block))).Perm
      (remainder cur used (blockSize s.mem cur) ++ (pre ++ post) ++
        (⟨cur.toNat, used.toNat⟩ :: live.map Live.block)) := by
    rw [← List.append_assoc]
    exact List.perm_middle.symm
  -- ready, the free list, the tiling, the grain and what each live block owns
  refine ⟨?_, ?_, ?_, ?_, ?_⟩
  · rw [carve_ready, h.ready]
  · exact carve_free hf hle hend hfree
  · rw [List.map_cons]
    exact (tiles_carve hle hf.used_dvd hb16 htiles).perm hmid
  · intro c hc
    rcases List.mem_cons.mp (hmid.mem_iff.mpr hc) with rfl | hc
    · exact ⟨hb16s, hf.used_dvd, hupos⟩
    rcases List.mem_append.mp hc with hc | hc
    · exact remainder_grain hb16s hf.used_dvd hb16 hc
    · exact hgrain c hc
  · intro l hl
    rcases List.mem_cons.mp hl with rfl | hl
    · exact carve_owns hf
    · refine (howns l hl).of_agree fun x hx => (hkeep x (hkeepOn l.block ?_ x hx)).symm
      exact List.mem_append_right _ (List.mem_map_of_mem hl)

theorem Partition.scan_bounds (h : Partition arr s free live) :
    free.length < scanFuel ∧ ∀ b ∈ free, 0 < b.start := by
  have hlen := h.tiles.length_mul_le fun b hb => h.size_ge hb
  have hnonnull := arr.nonnull
  constructor
  · rw [List.length_append] at hlen
    simp only [scanFuel]
    omega
  · intro b hb
    have := (h.tiles.within b (List.mem_append_left _ hb)).1
    omega

theorem Partition.fits (h : Partition arr s free live) {b : Span} {cur : UInt64} {layout : Layout}
    (hb : b ∈ free) (hstart : cur.toNat = b.start) (hsize : (blockSize s.mem cur).toNat = b.size)
    (hle : alignUp (payload cur + wordBytes) (alignOf layout) + wantOf layout - cur ≤
      blockSize s.mem cur) :
    Fits cur (alignUp (payload cur + wordBytes) (alignOf layout)) (wantOf layout)
      (alignUp (payload cur + wordBytes) (alignOf layout) + wantOf layout - cur) layout := by
  have hb' : b ∈ free ++ live.map Live.block := List.mem_append_left _ hb
  have hfits := arr.fits
  have harr := arr.aligned
  have hin := (h.tiles.within b hb').2
  simp only [Span.stop, heapSize] at hin hfits
  exact fits_of_used_le layout (hstart ▸ (h.grain b hb').1) (hsize ▸ h.size_ge hb')
    (by rw [hstart, hsize]; omega) hle

theorem Partition.alloc_cases (h : Partition arr s free live) (layout : Layout) :
    Heap.alloc s layout = some (0, s) ∨
      ∃ pre b post prev cur pa used, free = pre ++ b :: post ∧ cur.toNat = b.start ∧
        (blockSize s.mem cur).toNat = b.size ∧ Fits cur pa (wantOf layout) used layout ∧
        used.toNat ≤ b.size ∧
        Heap.alloc s layout =
          some (pa, Heap.carve s prev cur pa (wantOf layout) used (blockSize s.mem cur)) ∧
        Partition arr (Heap.carve s prev cur pa (wantOf layout) used (blockSize s.mem cur))
          (remainder cur used (blockSize s.mem cur) ++ (pre ++ post))
          (⟨pa, layout, ⟨cur.toNat, used.toNat⟩⟩ :: live) := by
  obtain ⟨hfuel, hpos⟩ := h.scan_bounds
  rw [Heap.alloc, if_pos h.ready]
  rcases allocLoop_cases (wantOf layout) (alignOf layout) s.freeHead free scanFuel [] 0
    s.freeHead hfuel rfl (Or.inl ⟨rfl, rfl⟩) h.list hpos
    with hnone | ⟨pre, b, post, prev, cur, he, hpre, hprev, hcur, hle, hres⟩
  · exact Or.inl hnone
  · right
    rw [List.nil_append] at he
    subst he
    obtain ⟨hstart, hsize, hpost⟩ := hcur
    have hf := h.fits (b := b) (by simp) hstart hsize hle
    have hle' := UInt64.le_iff_toNat_le.mp hle
    exact ⟨pre, b, post, prev, cur, _, _, rfl, hstart, hsize, hf, hsize ▸ hle', hres,
      h.carve_at hpre hprev ⟨hstart, hsize, hpost⟩ hf hle'⟩

theorem Fits.ne_null {cur pa want used : UInt64} {layout : Layout}
    (hf : Fits cur pa want used layout) : pa ≠ 0 := by
  rintro rfl
  exact absurd hf.header (by simp)

theorem Partition.alloc (h : Partition arr s free live) (layout : Layout) :
    Heap.alloc s layout = some (0, s) ∨
      ∃ ptr s' free', Heap.alloc s layout = some (ptr, s') ∧ ptr ≠ 0 ∧
        Partition arr s' free' (⟨ptr, layout, Heap.blockOf s'.mem ptr⟩ :: live) := by
  rcases h.alloc_cases layout with hnone | ⟨_, _, _, _, _, _, _, -, -, -, hf, -, hres, hpart⟩
  · exact Or.inl hnone
  · have hblock := (hpart.owns _ List.mem_cons_self).blockOf
    exact Or.inr ⟨_, _, _, hres, hf.ne_null, by rw [hblock]; exact hpart⟩

theorem Partition.dealloc {l : Live} {live₁ live₂ : List Live}
    (h : Partition arr s free (live₁ ++ l :: live₂)) :
    Partition arr (dealloc s l.ptr) (l.block :: free) (live₁ ++ live₂) := by
  have hl : l ∈ live₁ ++ l :: live₂ := by simp
  obtain ⟨hback, hsize, habove, hroom, -⟩ := h.owns l hl
  have hlb : l.block ∈ free ++ (live₁ ++ l :: live₂).map Live.block :=
    List.mem_append_right _ (List.mem_map_of_mem hl)
  have hl16 := h.size_ge hlb
  have hptr : l.ptr ≠ 0 := by
    intro h0
    rw [h0] at habove
    exact absurd habove (by simp)
  have hp8 := toNat_sub_word (p := l.ptr) (by omega)
  have hperm : (free ++ (live₁ ++ l :: live₂).map Live.block).Perm
      (l.block :: free ++ (live₁ ++ live₂).map Live.block) := by
    rw [List.map_append, List.map_cons, ← List.append_assoc, List.map_append,
      List.cons_append, ← List.append_assoc]
    exact List.perm_middle
  have htiles := h.tiles.perm hperm
  have hoff : ∀ b ∈ free ++ (live₁ ++ live₂).map Live.block, l.block.Disjoint b :=
    (List.pairwise_cons.mp (List.cons_append ▸ htiles.disjoint)).1
  -- the back pointer under the payload finds the block again
  have hd : Heap.dealloc s l.ptr = { s with
      mem := writeBlock s.mem (s.mem.read64 (l.ptr.toNat - 8))
        (blockSize s.mem (s.mem.read64 (l.ptr.toNat - 8))) s.freeHead
      freeHead := s.mem.read64 (l.ptr.toNat - 8) } := by
    simp only [Heap.dealloc, hptr, h.ready, false_or, Bool.true_eq_false, if_false, hp8]
  -- only the two header words of the block are written
  have hkeep : ∀ x, ¬ l.block.Holds x → (Heap.dealloc s l.ptr).mem x = s.mem x := by
    intro x hx
    simp only [Span.Holds, Span.stop] at hx
    rw [hd]
    simp only [writeBlock, hback]
    rw [Memory.write64_outside (by omega), Memory.write64_outside (by omega)]
  have hkeepOn : ∀ b ∈ free ++ (live₁ ++ live₂).map Live.block, ∀ x, b.Holds x →
      s.mem x = (Heap.dealloc s l.ptr).mem x := by
    intro b hb x hx
    refine (hkeep x fun hx' => ?_).symm
    have := hoff b hb
    simp only [Span.Disjoint, Span.Holds, Span.stop] at this hx hx'
    omega
  refine ⟨by rw [hd]; exact h.ready, ?_, htiles, fun b hb => h.grain b (hperm.mem_iff.mpr hb), ?_⟩
  · have hfree : FreeSeg (Heap.dealloc s l.ptr).mem s.freeHead free 0 := by
      refine h.list.congr fun b hb i hi => hkeepOn b (List.mem_append_left _ hb) _ ?_
      have := h.size_ge (List.mem_append_left _ hb)
      simp only [Span.Holds, Span.stop]
      omega
    rw [hd] at hfree ⊢
    refine ⟨hback, ?_, ?_⟩
    · simp only [blockSize, writeBlock, hback]
      rw [Memory.read64_write64_disjoint (by omega), Memory.read64_write64_self, hsize]
    · simpa only [blockNext, writeBlock, Memory.read64_write64_self] using hfree
  · intro l' hl'
    refine (h.owns l' ?_).of_agree (hkeepOn _ (List.mem_append_right _ (List.mem_map_of_mem hl')))
    rcases List.mem_append.mp hl' with h1 | h2
    · exact List.mem_append_left _ h1
    · exact List.mem_append_right _ (List.mem_cons_of_mem _ h2)

theorem Partition.store {l : Live} {a : Nat} {bs : List UInt8} (h : Partition arr s free live)
    (hl : l ∈ live) (hlo : l.payload.start ≤ a) (hhi : a + bs.length ≤ l.payload.stop) :
    Partition arr { s with mem := s.mem.write a bs } free live := by
  have hroom := (h.owns l hl).room
  have habove := (h.owns l hl).above
  have hin : ∀ x, ¬ l.payload.Holds x → s.mem x = s.mem.write a bs x := by
    intro x hx
    simp only [Span.Holds] at hx
    exact (Memory.write_outside (by omega)).symm
  simp only [Live.payload, Span.Holds, Span.stop] at hin hroom
  refine ⟨h.ready, h.list.congr fun b hb i hi => hin _ ?_, h.tiles, h.grain, fun l' hl' => ?_⟩
  · have hd := h.disjoint_free_live hb hl
    have := h.size_ge (List.mem_append_left _ hb)
    simp only [Span.Disjoint, Span.stop] at hd
    omega
  · have habove' := (h.owns l' hl').above
    have hroom' := (h.owns l' hl').room
    have hd : l' = l ∨ l'.block.Disjoint l.block := h.eq_or_disjoint hl' hl
    simp only [Live.payload, Span.Disjoint, Span.stop] at hd hroom'
    rcases hd with rfl | hd
    · exact (h.owns l' hl').congr (fun x _ _ => hin x (by omega)) (fun x _ _ => hin x (by omega))
    · exact (h.owns l' hl').congr (fun x _ _ => hin x (by omega)) (fun x _ _ => hin x (by omega))

theorem reach_partition (h : Reach arr s live) : ∃ free, Partition arr s free live := by
  induction h with
  | init m => exact ⟨_, partition_init arr m⟩
  | @alloc s s' live layout ptr _ ha hp ih =>
    obtain ⟨free, hpart⟩ := ih
    rcases hpart.alloc layout with h0 | ⟨ptr', s'', free', ha', -, hpart'⟩
    · rw [h0, Option.some.injEq, Prod.mk.injEq] at ha
      exact absurd ha.1.symm hp
    · rw [ha', Option.some.injEq, Prod.mk.injEq] at ha
      obtain ⟨rfl, rfl⟩ := ha
      exact ⟨free', hpart'⟩
  | @fail s s' live layout _ ha ih =>
    obtain ⟨free, hpart⟩ := ih
    rcases hpart.alloc layout with h0 | ⟨ptr', s'', free', ha', hp', -⟩
    · rw [h0, Option.some.injEq, Prod.mk.injEq] at ha
      exact ⟨free, ha.2 ▸ hpart⟩
    · rw [ha', Option.some.injEq, Prod.mk.injEq] at ha
      exact absurd ha.1 hp'
  | dealloc _ ih =>
    obtain ⟨free, hpart⟩ := ih
    exact ⟨_, hpart.dealloc⟩
  | store _ hl hlo hhi ih =>
    obtain ⟨free, hpart⟩ := ih
    exact ⟨free, hpart.store hl hlo hhi⟩

/-- What the allocator promises its clients in every reached state. -/
structure Sound (arr : HeapArray) (s : State) (live : List Live) : Prop where
  tiled : ∃ free, FreeSeg s.mem s.freeHead free 0 ∧
    Span.Tiles arr.base.toNat (arr.base.toNat + heapSize) (free ++ live.map Live.block) ∧
    (∀ b ∈ free ++ live.map Live.block, 16 ∣ b.start ∧ 16 ∣ b.size) ∧
    ∀ l ∈ live, ∀ b ∈ free ++ live.map Live.block, l.payload.Disjoint (header b)
  aligned : ∀ l ∈ live, l.layout.align.toNat ∣ l.ptr.toNat
  inside : ∀ l ∈ live, l.block.start ≤ l.payload.start ∧ l.payload.stop ≤ l.block.stop
  backWords : ∀ l ∈ live, ∀ l' ∈ live, l.payload.Disjoint l'.backWord
  payloads : live.Pairwise fun l l' => l.payload.Disjoint l'.payload
  recovers : ∀ l ∈ live, blockOf s.mem l.ptr = l.block
  returns : ∀ layout, (alloc s layout).isSome

theorem Partition.sound (h : Partition arr s free live) : Sound arr s live := by
  have hroom : ∀ l ∈ live, l.block.start + 32 ≤ l.ptr.toNat ∧
      l.ptr.toNat + l.layout.size.toNat ≤ l.block.start + l.block.size :=
    fun l hl => ⟨(h.owns l hl).above, (h.owns l hl).room⟩
  refine ⟨⟨free, h.list, h.tiles, fun b hb => ⟨(h.grain b hb).1, (h.grain b hb).2.1⟩, ?_⟩,
    fun l hl => (h.owns l hl).aligned, ?_, ?_, ?_, fun l hl => (h.owns l hl).blockOf, ?_⟩
  · intro l hl b hb
    have hl' := hroom l hl
    have hb16 := h.size_ge hb
    have hd : b = l.block ∨ b.Disjoint l.block := by
      rcases List.mem_append.mp hb with hb | hb
      · exact Or.inr (h.disjoint_free_live hb hl)
      · obtain ⟨l', hm, rfl⟩ := List.mem_map.mp hb
        exact (h.eq_or_disjoint hm hl).imp_left (congrArg Live.block)
    simp only [header, Live.payload, Span.Disjoint, Span.stop] at hd ⊢
    rcases hd with rfl | hd <;> omega
  · intro l hl
    have hl' := hroom l hl
    simp only [Live.payload, Span.stop]
    omega
  · intro l hl l' hl'
    have h1 := hroom l hl
    have h2 := hroom l' hl'
    have hd := h.eq_or_disjoint hl hl'
    simp only [Live.backWord, Live.payload, Span.Disjoint, Span.stop] at hd ⊢
    rcases hd with rfl | hd <;> omega
  · have hp := List.pairwise_map.mp (List.pairwise_append.mp h.tiles.disjoint).2.1
    refine hp.imp_of_mem fun {l l'} hl hl' hd => ?_
    have h1 := hroom l hl
    have h2 := hroom l' hl'
    simp only [Live.payload, Span.Disjoint, Span.stop] at hd ⊢
    omega
  · intro layout
    rcases h.alloc layout with h0 | ⟨_, _, _, ha, _⟩
    · rw [h0, Option.isSome_some]
    · rw [ha, Option.isSome_some]

/-- Heap partition: over every run, free and live blocks tile the array, live payloads
meet no header, back pointer or other payload, and `dealloc` finds the right block. -/
theorem heap_partition (arr : HeapArray) {s : State} {live : List Live} (h : Reach arr s live) :
    Sound arr s live := by
  obtain ⟨free, hpart⟩ := reach_partition h
  exact hpart.sound

theorem heap_partition_first :
    ∃ arr s l, Reach arr s [l] ∧ l.ptr = 0x100040 ∧ Sound arr s [l] := by
  let arr : HeapArray := ⟨0x100000, by decide, by decide, by decide⟩
  let layout : Layout := ⟨24, 64, ⟨6, rfl⟩, by decide⟩
  have hptr : (alloc (init arr fun _ => 0) layout).map Prod.fst = some 0x100040 := by decide
  obtain ⟨⟨ptr, s⟩, ha, rfl⟩ := Option.map_eq_some_iff.mp hptr
  have hr := Reach.alloc (Reach.init _) ha (by decide)
  exact ⟨arr, s, _, hr, rfl, heap_partition arr hr⟩

end Pippin.Heap
