import Mathlib.Order.CompletePartialOrder
import Mathlib.Order.Interval.Set.Basic
import Pippin.Kernel.Teardown

/-! The memory image of an application, in whole runs: which pages a load adds to the address
space, and which byte stands at each address of its image. -/

namespace Pippin.Syscall
open Mem Mm Sched Elf PageTable

def memoryRange (seg : Segment) : Set Nat := Set.Ico seg.vaddr.toNat (seg.vaddr.toNat + seg.memsz.toNat)

/-- An address in a page that some PT_LOAD range touches. -/
def InImage (image : Image) (v : UInt64) : Prop :=
  ∃ seg ∈ loadHeaders image, ∃ a ∈ memoryRange seg, a / 4096 = v.toNat / 4096

def imageByte (image : Image) (a : Nat) : UInt8 :=
  fileByte image ((loadHeaders image).filter fun seg => seg.memsz ≠ 0) a

/-- What loading `image` makes of the machine `M`. -/
structure MemoryImage (image : Image) (M M' : Machine) : Prop where
  pages : ∀ v, v < userTop → (M'.userAt v = true ∧ M.userAt v = false ↔ InImage image v ∨
    stackTop.toNat / 4096 - 4 ≤ v.toNat / 4096 ∧ v.toNat / 4096 < stackTop.toNat / 4096)
  kept : ∀ v, v < userTop → M.userAt v = true → M'.userAt v = true
  below : ∀ v : UInt64, v.toNat / 4096 = stackTop.toNat / 4096 - 5 → M'.userAt v = false
  bytes : ∀ v, v < userTop → InImage image v →
    ∃ p, physicalOf M' v = some p ∧ M'.mem p = imageByte image v.toNat
  segments : (loadHeaders image).Pairwise (fun a b => Disjoint (memoryRange a) (memoryRange b)) →
    ∀ seg ∈ loadHeaders image, ∀ k < seg.memsz.toNat, ∃ p, physicalOf M' (seg.vaddr + UInt64.ofNat k) = some p ∧
      M'.mem p = if k < seg.filesz.toNat then image.getD (seg.offset.toNat + k) 0 else 0

variable {stackAt : Stacks} {B M M' : Machine} {w : World} {s : System} {image : Image} {eventPort : UInt16}
  {ks ms : List Mapping} {segs : List Segment} {seg : Segment} {v : UInt64} {a : Nat}

theorem fileByte_of_unique (hseg : seg ∈ segs) (huniq : ∀ seg' ∈ segs, seg'.covers a = true → seg' = seg) :
    fileByte image segs a = if seg.covers a then image.getD (seg.offset.toNat + (a - seg.vaddr.toNat)) 0 else 0 := by
  cases hc : seg.covers a with
  | false =>
    rw [if_neg Bool.false_ne_true]
    refine fileByte_zero fun seg' hm => ?_
    rw [← Bool.not_eq_true]
    intro hc'
    rw [huniq seg' hm hc', hc] at hc'
    cases hc'
  | true =>
    rw [if_pos rfl, fileByte]
    cases hf : segs.reverse.find? (·.covers a) with
    | none => exact absurd hc (List.find?_eq_none.mp hf seg (List.mem_reverse.mpr hseg))
    | some seg' =>
      have hm := List.mem_reverse.mp (List.mem_of_find?_eq_some hf)
      have hc' : seg'.covers a = true := by simpa using List.find?_some hf
      rw [huniq seg' hm hc']

theorem mem_filter_of_mem (hseg : seg ∈ loadHeaders image) (ha : a ∈ memoryRange seg) :
    seg ∈ (loadHeaders image).filter fun seg => seg.memsz ≠ 0 := by
  refine List.mem_filter.mpr ⟨hseg, decide_eq_true fun h0 => ?_⟩
  have hlt : a < seg.vaddr.toNat + seg.memsz.toNat := ha.2
  rw [h0, UInt64.toNat_zero, Nat.add_zero] at hlt
  exact absurd ha.1 (Nat.not_le.mpr hlt)

theorem imageByte_of_disjoint (hok : ∀ seg ∈ (loadHeaders image).filter (fun seg => seg.memsz ≠ 0), seg.Ok image)
    (hd : (loadHeaders image).Pairwise fun a b => Disjoint (memoryRange a) (memoryRange b))
    (hseg : seg ∈ loadHeaders image) (ha : a ∈ memoryRange seg) : imageByte image a =
      if seg.covers a then image.getD (seg.offset.toNat + (a - seg.vaddr.toNat)) 0 else 0 := by
  have hmem : ∀ {seg : Segment}, seg.covers a = true → seg.Ok image → a ∈ memoryRange seg := by
    intro seg hc hok
    have hle := hok.file_le
    simp only [Segment.covers, Bool.and_eq_true, decide_eq_true_eq] at hc
    exact ⟨hc.1, by omega⟩
  refine fileByte_of_unique (mem_filter_of_mem hseg ha) fun seg' hseg' hc => ?_
  by_contra hne
  have hsymm : Std.Symm fun a b : Segment => Disjoint (memoryRange a) (memoryRange b) := ⟨fun _ _ h => h.symm⟩
  have hdis := hd.forall (List.mem_filter.mp hseg').1 hseg hne
  exact Set.disjoint_left.mp hdis (hmem hc (hok seg' hseg')) ha

/-! ## Pages -/

theorem touches_iff {v : UInt64} : (∃ seg ∈ (loadHeaders image).filter (fun seg => seg.memsz ≠ 0),
    seg.Touches (alignDown v)) ↔ InImage image v := by
  have hdown : (alignDown v).toNat = v.toNat / 4096 * 4096 := toNat_mask v
  constructor
  · rintro ⟨seg, hseg, htouch⟩
    obtain ⟨hmem, hsize⟩ := List.mem_filter.mp hseg
    have hpos : seg.memsz.toNat ≠ 0 := fun h0 => of_decide_eq_true hsize (UInt64.toNat_inj.mp h0)
    obtain ⟨-, h1, h2⟩ := htouch
    -- the later of the two starts is in the page and in the range
    refine ⟨seg, hmem, max seg.vaddr.toNat (alignDown v).toNat, ⟨le_max_left _ _, ?_⟩, ?_⟩
    · omega
    · omega
  · rintro ⟨seg, hseg, a, ha, he⟩
    obtain ⟨h1, h2⟩ := ha
    refine ⟨seg, mem_filter_of_mem hseg ⟨h1, h2⟩, ?_, ?_, ?_⟩
    · omega
    · omega
    · omega

theorem stackPage_alignDown {v : UInt64} : StackPage (alignDown v) ↔
    stackTop.toNat / 4096 - 4 ≤ v.toNat / 4096 ∧ v.toNat / 4096 < stackTop.toNat / 4096 := by
  have hdown : (alignDown v).toNat = v.toNat / 4096 * 4096 := toNat_mask v
  have htop : stackTop.toNat = 0x104000000 := by decide
  unfold StackPage
  omega

theorem mapping_of_page {m n : Mapping} (hl : Loading B M ms) (hm : m ∈ ms) (hn : n ∈ ms)
    (he : m.virt.toNat / 4096 = n.virt.toNat / 4096) : m = n :=
  List.inj_on_of_nodup_map hl.maps.virts hm hn (page_inj (hl.maps.aligned m hm) (hl.maps.aligned n hn) he)

section Load

variable (h : Loaded B ks image w.toSystem s ms)

include h

theorem exists_mapping_iff : (∃ m ∈ ms, v.toNat / 4096 = m.virt.toNat / 4096) ↔ InImage image v ∨
    stackTop.toNat / 4096 - 4 ≤ v.toNat / 4096 ∧ v.toNat / 4096 < stackTop.toNat / 4096 := by
  have hdown : (alignDown v).toNat = v.toNat / 4096 * 4096 := toNat_mask v
  rw [← touches_iff, ← stackPage_alignDown, ← h.virts, List.mem_map]
  constructor
  · rintro ⟨m, hm, he⟩
    have hal := h.after.maps.aligned m (List.mem_append_right _ hm)
    exact ⟨m, hm, UInt64.toNat_inj.mp (by omega)⟩
  · rintro ⟨m, hm, he⟩
    refine ⟨m, hm, ?_⟩
    rw [he, hdown]
    omega

theorem load_pages (hB : Ready B) (hv : v < userTop) :
    s.machine.userAt v = true ∧ (releaseFinishedApp w.toSystem).2.machine.userAt v = false ↔ InImage image v ∨
      stackTop.toNat / 4096 - 4 ≤ v.toNat / 4096 ∧ v.toNat / 4096 < stackTop.toNat / 4096 := by
  rw [← exists_mapping_iff h]
  constructor
  · rintro ⟨hu', hno⟩
    obtain ⟨m, hm, he⟩ := exists_mapping h.after hB.clear hv hu'
    rcases List.mem_append.mp hm with hm | hm
    · rw [(h.before.maps.users v hv).mpr (Or.inr ⟨m, hm, he⟩)] at hno
      cases hno
    · exact ⟨m, hm, he⟩
  · rintro ⟨m, hm, he⟩
    refine ⟨(h.after.maps.users v hv).mpr (Or.inr ⟨m, List.mem_append_right _ hm, he⟩), ?_⟩
    rw [← Bool.not_eq_true]
    intro hu
    obtain ⟨k, hk, he'⟩ := exists_mapping h.before hB.clear hv hu
    have hnodup := h.after.accounts.nodup.of_map
    obtain rfl := mapping_of_page h.after (List.mem_append_left _ hk) (List.mem_append_right _ hm) (he'.symm.trans he)
    exact (List.nodup_append.mp hnodup).2.2 k hk k hm rfl

theorem load_kept (hB : Ready B) (hv : v < userTop)
    (hu : (releaseFinishedApp w.toSystem).2.machine.userAt v = true) : s.machine.userAt v = true := by
  obtain ⟨m, hm, he⟩ := exists_mapping h.before hB.clear hv hu
  exact (h.after.maps.users v hv).mpr (Or.inr ⟨m, List.mem_append_left _ hm, he⟩)

theorem load_bytes (hv : v < userTop) (hi : InImage image v) :
    ∃ p, physicalOf s.machine v = some p ∧ s.machine.mem p = imageByte image v.toNat := by
  obtain ⟨m, hm, he⟩ := (exists_mapping_iff h).mpr (Or.inl hi)
  exact Holds.byte h.holds h.after hm (List.mem_append_right _ hm) hv he

theorem load_below (hB : Ready B) {b : Bool} (hk : MmapPage b ks)
    (hv : v.toNat / 4096 = stackTop.toNat / 4096 - 5) : s.machine.userAt v = false := by
  have htop : stackTop.toNat = 0x104000000 := by decide
  have hlt : v < userTop := UInt64.lt_iff_toNat_lt.mpr (by
    show v.toNat < 0x800000000000
    omega)
  rw [← Bool.not_eq_true]
  intro hu
  obtain ⟨m, hm, he⟩ := exists_mapping h.after hB.clear hlt hu
  rcases List.mem_append.mp hm with hm | hm
  · cases hk with
    | absent => cases hm
    | present phys =>
      have hne : stackTop.toNat / 4096 - 5 ≠ userMmap.toNat / 4096 := by decide
      rw [List.mem_singleton.mp hm, hv] at he
      exact absurd he hne
  · rcases (exists_mapping_iff h).mp ⟨m, hm, he⟩ with himage | hstack
    · -- images end far below the stack
      obtain ⟨seg, hseg, h1, h2, h3⟩ := touches_iff.mpr himage
      have hhigh := (h.segments seg hseg).high
      have hdown : (alignDown v).toNat = v.toNat / 4096 * 4096 := toNat_mask v
      omega
    · omega

theorem load_segments (hd : (loadHeaders image).Pairwise fun a b => Disjoint (memoryRange a) (memoryRange b))
    (hseg : seg ∈ loadHeaders image) {k : Nat} (hk : k < seg.memsz.toNat) :
    ∃ p, physicalOf s.machine (seg.vaddr + UInt64.ofNat k) = some p ∧
      s.machine.mem p = if k < seg.filesz.toNat then image.getD (seg.offset.toNat + k) 0 else 0 := by
  have hmem : seg.vaddr.toNat + k ∈ memoryRange seg := ⟨Nat.le_add_right _ _, Nat.add_lt_add_left hk _⟩
  have hhigh := (h.segments seg (mem_filter_of_mem hseg hmem)).high
  have ha : (seg.vaddr + UInt64.ofNat k).toNat = seg.vaddr.toNat + k := by
    rw [UInt64.toNat_add, UInt64.toNat_ofNat']
    omega
  have hlt : seg.vaddr + UInt64.ofNat k < userTop := UInt64.lt_iff_toNat_lt.mpr (by
    show (seg.vaddr + UInt64.ofNat k).toNat < 0x800000000000
    omega)
  obtain ⟨p, hp, hbyte⟩ := load_bytes h hlt ⟨seg, hseg, _, hmem, by rw [ha]⟩
  refine ⟨p, hp, hbyte.trans ?_⟩
  rw [ha, imageByte_of_disjoint h.segments hd hseg hmem, Nat.add_sub_cancel_left]
  congr 1
  simp [Segment.covers]

end Load

theorem exists_loaded (hB : Ready B) (hr : Run stackAt B w) {report : LoadReport}
    (h : loadAndSpawn stackAt image eventPort w.toSystem = (.ok report, s)) :
    ∃ ks ms, MmapPage w.userMapped ks ∧ Loaded B ks image w.toSystem s ms := by
  obtain ⟨⟨ks, hk, happ⟩, -⟩ := hr.inv hB
  obtain ⟨ms, hloaded⟩ := happ.loaded (hk.windowClear hB) h
  exact ⟨ks, ms, hk, hloaded⟩

/-- The memory image of every accepted load. -/
theorem memory_image (hB : Ready B) (hr : Run stackAt B w) {report : LoadReport}
    (h : loadAndSpawn stackAt image eventPort w.toSystem = (.ok report, s)) :
    MemoryImage image (releaseFinishedApp w.toSystem).2.machine s.machine := by
  obtain ⟨ks, ms, hk, hloaded⟩ := exists_loaded hB hr h
  exact ⟨fun v hv => load_pages hloaded hB hv, fun v hv hu => load_kept hloaded hB hv hu,
    fun v hv => load_below hloaded hB hk hv, fun v hv hi => load_bytes hloaded hv hi,
    fun hd seg hseg k hk => load_segments hloaded hd hseg hk⟩

theorem memory_image_halt : ∃ s, loadAndSpawn (fun _ => 0) haltImage 1 bootSystem = (.ok ⟨0x100000000, 5, 123⟩, s) ∧
    MemoryImage haltImage bootMachine s.machine :=
  ⟨loadedSystem, loadedSystem_eq, memory_image bootMachine_ready run_boot loadedSystem_eq⟩

/-! ## A header without memory -/

def skippedImage : Image :=
  elfImage 0x100000000 [⟨1, 5, 176, 0x100000000, 3, 16⟩, ⟨1, 4, 0, 0x100000000, 1, 0⟩] [0xF4, 0xEB, 0xFD]

theorem skippedImage_loads : (loadAndSpawn (fun _ => 0) skippedImage 1 bootSystem).1 = .ok ⟨0x100000000, 5, 179⟩ := by
  decide +kernel

/-- The last header whose file range has the address is not the one that is loaded. -/
theorem skipped_header : ∃ s, loadAndSpawn (fun _ => 0) skippedImage 1 bootSystem = (.ok ⟨0x100000000, 5, 179⟩, s) ∧
    InImage skippedImage 0x100000000 ∧ ∃ p, physicalOf s.machine 0x100000000 = some p ∧
      s.machine.mem p ≠ fileByte skippedImage (loadHeaders skippedImage) (0x100000000 : UInt64).toNat := by
  have hload : loadAndSpawn (fun _ => 0) skippedImage 1 bootSystem =
      (.ok ⟨0x100000000, 5, 179⟩, (loadAndSpawn (fun _ => 0) skippedImage 1 bootSystem).2) := by
    rw [← skippedImage_loads]
  generalize (loadAndSpawn (fun _ => 0) skippedImage 1 bootSystem).2 = s at hload
  have himage : InImage skippedImage 0x100000000 :=
    ⟨⟨5, 176, 0x100000000, 3, 16⟩, by decide +kernel, 0x100000000, ⟨by decide, by decide⟩, by decide⟩
  obtain ⟨ks, ms, -, hloaded⟩ := exists_loaded bootMachine_ready run_boot hload
  obtain ⟨p, hp, hbyte⟩ := load_bytes hloaded (by decide) himage
  refine ⟨s, hload, himage, p, hp, ?_⟩
  rw [hbyte]
  decide +kernel

end Pippin.Syscall
