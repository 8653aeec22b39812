import Pippin.Kernel.BootTables

/-! `install_initial` of `mm.rs`: the 4 KiB page tables that replace the boot map. Every
table is a fresh frame, so filling one changes no entry of another. -/

namespace Pippin.Mm
open Mem PageTable

def pdEntries : Nat := 512

def largePageSize : UInt64 := 0x200000

structure PmapReport where
  pml4Phys : UInt64
  pageTableFrames : Nat

def installPaging (pml4 : UInt64) : Kernel Unit := fun m => (some (), { m with cr3 := pml4 })

def installSlot (pd : UInt64) (leafTables slot : Nat) : Kernel Nat := do
  let leaf ← allocZeroedFrame
  let leafTables := leafTables + 1
  let base := UInt64.ofNat slot * largePageSize
  fillTable leaf base (UInt64.ofNat frameSize) (PRESENT ||| WRITABLE)
  Kernel.store (pd.toNat + 8 * slot) (leaf ||| PRESENT ||| WRITABLE)
  return leafTables

def installInitial : Kernel PmapReport := do
  let pml4 ← allocZeroedFrame
  let pdpt ← allocZeroedFrame
  let pd ← allocZeroedFrame
  let leafTables ← (List.range pdEntries).foldlM (installSlot pd) 0
  Kernel.store pdpt.toNat (pd ||| PRESENT ||| WRITABLE)
  Kernel.store pml4.toNat (pdpt ||| PRESENT ||| WRITABLE)
  Kernel.store (pml4.toNat + 8 * levelIndex higherHalfBase 0) (pdpt ||| PRESENT ||| WRITABLE)
  installPaging pml4
  return ⟨pml4, leafTables + 3⟩

/-! ## Frames taken one at a time -/

/-- `s'` is `s` after the frames `fs` were taken. -/
structure Taken (s s' : Frames) (fs : List Nat) : Prop where
  nodup : fs.Nodup
  free : ∀ f ∈ fs, f ∈ s.freeSet
  used : ∀ f, s'.bitIsUsed f = true ↔ s.bitIsUsed f = true ∨ f ∈ fs

theorem Taken.refl (s : Frames) : Taken s s [] :=
  ⟨List.nodup_nil, fun _ hf => absurd hf List.not_mem_nil, fun f => by simp⟩

variable {s s' s'' : Frames} {fs : List Nat} {phys : UInt64}

theorem Taken.alloc (h : Taken s s' fs) (ha : s'.allocFrames 1 = some (phys, s'')) :
    ∃ f, phys.toNat = f * 4096 ∧ f < 2 ^ 18 ∧ f ∉ fs ∧ Taken s s'' (fs ++ [f]) := by
  obtain ⟨f, hphys, h1, -, hmax, hclear, hbits, -⟩ := Frames.allocFrames_spec ha
  have hfree : s'.bitIsUsed f = false := hclear f le_rfl (Nat.lt_succ_self f)
  have hn : ¬(s.bitIsUsed f = true ∨ f ∈ fs) := fun hc => by
    rw [(h.used f).mpr hc] at hfree
    cases hfree
  rw [not_or, Bool.not_eq_true] at hn
  have hone : ∀ g, f ≤ g ∧ g < f + 1 ↔ g = f := fun g => by omega
  refine ⟨f, hphys, hmax, hn.2, ?_, fun g hg => ?_, fun g => ?_⟩
  · exact List.nodup_append.mpr ⟨h.nodup, List.nodup_singleton f, fun a ha b hb => by
      rw [List.mem_singleton.mp hb]
      rintro rfl
      exact hn.2 ha⟩
  · rcases List.mem_append.mp hg with hg | hg
    · exact h.free g hg
    · rw [List.mem_singleton.mp hg]
      exact Frames.mem_freeSet.mpr ⟨⟨h1, hmax⟩, hn.1⟩
  · rw [hbits, List.mem_append, List.mem_singleton, ← or_assoc, ← h.used g]
    simp only [hone]
    by_cases hg : g = f <;> simp [hg]

theorem Taken.exhausted (h : Taken s s' fs) (hnone : s'.allocFrames 1 = none) : s.freeSet.card ≤ fs.length := by
  by_contra hlt
  obtain ⟨f, hf, hn⟩ := Finset.exists_mem_notMem_of_card_lt_card
    (fs.toFinset_card_le.trans_lt (Nat.lt_of_not_le hlt))
  rw [List.mem_toFinset] at hn
  obtain ⟨⟨h1, hm⟩, hfree⟩ := Frames.mem_freeSet.mp hf
  have hclear : s'.bitIsUsed f = false := by
    by_contra hused
    rw [Bool.not_eq_false, h.used, hfree] at hused
    exact hused.elim nofun hn
  obtain ⟨phys, s'', hs⟩ := Frames.allocFrames_one_of_free h1 hm hclear
  rw [hs] at hnone
  cases hnone

/-! ## Entries of whole frames -/

theorem entries_write (m : Memory) {t u i j : Nat} (v : UInt64) (hi : i < 512) (hj : j < 512) :
    entriesOf (m.write64 (t * 4096 + 8 * i) v) (u * 4096) j =
      if u = t ∧ j = i then v else entriesOf m (u * 4096) j := by
  split_ifs with h
  · rw [h.1, h.2]
    exact Memory.read64_write64_self v
  · exact Memory.read64_write64_disjoint (by omega)

theorem clear_spec (m : Memory) {f : Nat} (hphys : phys.toNat = f * 4096) :
    (∀ a, a / 4096 ≠ f → m.write phys.toNat (List.replicate frameSize 0) a = m a) ∧
      ∀ u, ∀ j < 512, entriesOf (m.write phys.toNat (List.replicate frameSize 0)) (u * 4096) j =
        if u = f then 0 else entriesOf m (u * 4096) j := by
  have hout : ∀ a, a / 4096 ≠ f → m.write phys.toNat (List.replicate frameSize 0) a = m a := fun a ha => by
    rw [Memory.write_outside]
    rw [List.length_replicate, frameSize]
    omega
  refine ⟨hout, fun u j hj => ?_⟩
  split_ifs with h
  · rw [h, ← hphys, entriesOf, Memory.read64_zeroed]
    rw [frameSize]
    omega
  · exact Memory.read64_congr fun k hk => hout _ (by omega)

def leafEntry (slot j : Nat) : UInt64 :=
  (UInt64.ofNat slot * largePageSize + UInt64.ofNat j * UInt64.ofNat frameSize) ||| (PRESENT ||| WRITABLE)

/-- Memory after a frame was cleared and filled with the entries of `slot`. -/
def leafMemory (m : Memory) (phys : UInt64) (slot : Nat) : Memory :=
  (List.range 512).foldl (fun m j => m.write64 (phys.toNat + 8 * j) (leafEntry slot j))
    (m.write phys.toNat (List.replicate frameSize 0))

theorem leafMemory_spec (m : Memory) {f : Nat} (hphys : phys.toNat = f * 4096) (slot : Nat) :
    (∀ a, a / 4096 ≠ f → leafMemory m phys slot a = m a) ∧
      ∀ u, ∀ j < 512, entriesOf (leafMemory m phys slot) (u * 4096) j =
        if u = f then leafEntry slot j else entriesOf m (u * 4096) j := by
  obtain ⟨hfill, hkeep⟩ := fill_entries (m.write phys.toNat (List.replicate frameSize 0)) phys.toNat 512
    (leafEntry slot)
  have hout : ∀ a, a / 4096 ≠ f → leafMemory m phys slot a = m a := fun a ha => by
    rw [leafMemory, hkeep a (by omega), (clear_spec m hphys).1 a ha]
  refine ⟨hout, fun u j hj => ?_⟩
  split_ifs with h
  · rw [h, ← hphys]
    exact hfill j hj
  · exact Memory.read64_congr fun k hk => hout _ (by omega)

/-! ## The loop over the slots -/

variable {M M' : Machine} {pml4 pdpt : Nat} {pd : UInt64} {leaves : List Nat}

theorem fillTable_leaf (M : Machine) (phys : UInt64) (slot : Nat) (frames : Frames) :
    fillTable phys (UInt64.ofNat slot * largePageSize) (UInt64.ofNat frameSize) (PRESENT ||| WRITABLE)
      ⟨M.mem.write phys.toNat (List.replicate frameSize 0), M.cr3, frames⟩ =
      (some (), ⟨leafMemory M.mem phys slot, M.cr3, frames⟩) := by
  unfold fillTable leafMemory leafEntry
  rfl

theorem installSlot_some {frames : Frames} (ha : M.frames.allocFrames 1 = some (phys, frames)) (n slot : Nat) :
    installSlot pd n slot M = (some (n + 1), ⟨(leafMemory M.mem phys slot).write64 (pd.toNat + 8 * slot)
      (phys ||| (PRESENT ||| WRITABLE)), M.cr3, frames⟩) := by
  rcases allocZeroedFrame_cases M with ⟨-, hnone⟩ | ⟨phys', frames', ha', hrun⟩
  · rw [ha] at hnone
    cases hnone
  · rw [ha] at ha'
    cases ha'
    unfold installSlot
    rw [Kernel.bind_some hrun, Kernel.bind_some (fillTable_leaf M phys slot frames), UInt64.or_assoc]
    generalize leafMemory M.mem phys slot = m
    rfl

theorem installSlot_none (ha : M.frames.allocFrames 1 = none) (n slot : Nat) :
    installSlot pd n slot M = (none, M) := by
  rcases allocZeroedFrame_cases M with ⟨hrun, -⟩ | ⟨phys', frames', ha', -⟩
  · exact Kernel.bind_none hrun
  · rw [ha] at ha'
    cases ha'

/-- `M'` is `M` after the three upper tables were taken and the first slots of the
directory were given the tables in the frames `leaves`. -/
structure Building (M M' : Machine) (pml4 pdpt : Nat) (pd : UInt64) (leaves : List Nat) : Prop where
  taken : Taken M.frames M'.frames (pml4 :: pdpt :: pd.toNat / 4096 :: leaves)
  aligned : pd.toNat % 4096 = 0
  upper : ∀ t, t = pml4 ∨ t = pdpt → ∀ i < 512, M'.entries (t * 4096) i = 0
  slots : ∀ k f, leaves[k]? = some f → ∃ phys : UInt64, phys.toNat = f * 4096 ∧ f < 2 ^ 18 ∧
    M'.entries pd.toNat k = phys ||| (PRESENT ||| WRITABLE)
  pages : ∀ k f, leaves[k]? = some f → ∀ j < 512, M'.entries (f * 4096) j = leafEntry k j
  mem : ∀ a, a / 4096 ∉ pml4 :: pdpt :: pd.toNat / 4096 :: leaves → M'.mem a = M.mem a

theorem Building.pd_frame (h : Building M M' pml4 pdpt pd leaves) : pd.toNat / 4096 * 4096 = pd.toNat := by
  have := h.aligned
  omega

theorem Building.apart (h : Building M M' pml4 pdpt pd leaves) : pml4 ≠ pdpt ∧ pml4 ≠ pd.toNat / 4096 ∧
    pml4 ∉ leaves ∧ pdpt ≠ pd.toNat / 4096 ∧ pdpt ∉ leaves ∧ pd.toNat / 4096 ∉ leaves := by
  have hnd := h.taken.nodup
  simp only [List.nodup_cons, List.mem_cons, not_or] at hnd
  exact ⟨hnd.1.1, hnd.1.2.1, hnd.1.2.2, hnd.2.1.1, hnd.2.1.2, hnd.2.2.1⟩

theorem getElem?_snoc {l : List Nat} {g k f : Nat} (h : (l ++ [g])[k]? = some f) :
    k < l.length ∧ l[k]? = some f ∨ k = l.length ∧ f = g := by
  rcases Nat.lt_trichotomy k l.length with hk | hk | hk
  · rw [List.getElem?_append_left hk] at h
    exact Or.inl ⟨hk, h⟩
  · rw [hk, List.getElem?_concat_length, Option.some.injEq] at h
    exact Or.inr ⟨hk, h.symm⟩
  · rw [List.getElem?_eq_none] at h
    · cases h
    · rw [List.length_append, List.length_singleton]
      exact hk

theorem Building.slot (h : Building M M' pml4 pdpt pd leaves) (hlt : leaves.length < 512) {frames : Frames}
    (ha : M'.frames.allocFrames 1 = some (phys, frames)) :
    ∃ g, Building M ⟨(leafMemory M'.mem phys leaves.length).write64 (pd.toNat + 8 * leaves.length)
      (phys ||| (PRESENT ||| WRITABLE)), M'.cr3, frames⟩ pml4 pdpt pd (leaves ++ [g]) := by
  obtain ⟨g, hphys, hg, hfresh, htaken⟩ := h.taken.alloc ha
  have hpd := h.pd_frame.symm
  obtain ⟨hout, hleaf⟩ := leafMemory_spec M'.mem hphys leaves.length
  -- one equation for every entry of every frame
  have hent : ∀ u, ∀ j < 512, entriesOf ((leafMemory M'.mem phys leaves.length).write64
      (pd.toNat + 8 * leaves.length) (phys ||| (PRESENT ||| WRITABLE))) (u * 4096) j =
      if u = pd.toNat / 4096 ∧ j = leaves.length then phys ||| (PRESENT ||| WRITABLE)
      else if u = g then leafEntry leaves.length j else M'.entries (u * 4096) j := fun u j hj => by
    rw [hpd, entries_write _ _ hlt hj, hleaf u j hj, ← hpd]
    rfl
  obtain ⟨-, hac, -, hbc, -, hcL⟩ := h.apart
  simp only [List.mem_cons, not_or] at hfresh
  obtain ⟨hag, hbg, hcg, hgL⟩ := hfresh
  -- the new slot and the new table are the only entries that change
  refine ⟨g, htaken, h.aligned, fun t ht i hi => ?_, fun k f hk => ?_, fun k f hk j hj => ?_, fun a ha => ?_⟩
  · refine (hent t i hi).trans ?_
    rw [if_neg, if_neg, h.upper t ht i hi]
    · rcases ht with rfl | rfl
      · exact Ne.symm hag
      · exact Ne.symm hbg
    · rcases ht with rfl | rfl
      · exact fun hc => hac hc.1
      · exact fun hc => hbc hc.1
  · have hlt' : k < 512 := by
      rcases getElem?_snoc hk with ⟨h1, -⟩ | ⟨h1, -⟩ <;> omega
    have he := hent (pd.toNat / 4096) k hlt'
    rw [← hpd] at he
    rcases getElem?_snoc hk with ⟨h1, hk'⟩ | ⟨rfl, rfl⟩
    · obtain ⟨phys', hp, hlow, hslot⟩ := h.slots k f hk'
      rw [if_neg (fun hc => by omega), if_neg (Ne.symm hcg), hslot] at he
      exact ⟨phys', hp, hlow, he⟩
    · rw [if_pos ⟨rfl, rfl⟩] at he
      exact ⟨phys, hphys, hg, he⟩
  · refine (hent f j hj).trans ?_
    rcases getElem?_snoc hk with ⟨-, hk'⟩ | ⟨rfl, rfl⟩
    · have hmem := List.mem_of_getElem? hk'
      rw [if_neg, if_neg, h.pages k f hk' j hj]
      · rintro rfl
        exact hgL hmem
      · rintro ⟨rfl, -⟩
        exact hcL hmem
    · rw [if_neg (fun hc => hcg hc.1), if_pos rfl]
  · simp only [List.mem_cons, List.mem_append, List.not_mem_nil, or_false, not_or] at ha
    have hpage : ¬(pd.toNat + 8 * leaves.length ≤ a ∧ a < pd.toNat + 8 * leaves.length + 8) := fun hc => by omega
    show Memory.write64 _ _ _ a = _
    rw [Memory.write64_outside (by omega), hout a ha.2.2.2.2]
    refine h.mem a ?_
    simp only [List.mem_cons, not_or]
    exact ⟨ha.1, ha.2.1, ha.2.2.1, ha.2.2.2.1⟩

theorem Building.run : ∀ (n : Nat) {M₁ : Machine} {leaves : List Nat}, Building M M₁ pml4 pdpt pd leaves →
    leaves.length + n ≤ 512 →
    ∃ r M', (List.range' leaves.length n).foldlM (installSlot pd) leaves.length M₁ = (r, M') ∧
      (r = none → M.frames.freeSet.card < leaves.length + n + 3) ∧
      ∀ c, r = some c → ∃ all : List Nat, all.length = leaves.length + n ∧ c = all.length ∧
        Building M M' pml4 pdpt pd all := by
  intro n
  induction n with
  | zero =>
    intro M₁ leaves h _
    exact ⟨_, _, rfl, nofun, fun c hc => ⟨leaves, rfl, (Option.some.inj hc).symm, h⟩⟩
  | succ n ih =>
    intro M₁ leaves h hlen
    rw [List.range'_succ, List.foldlM_cons]
    cases ha : M₁.frames.allocFrames 1 with
    | none =>
      rw [Kernel.bind_none (installSlot_none ha _ _)]
      refine ⟨none, M₁, rfl, fun _ => ?_, nofun⟩
      have hall := h.taken.exhausted ha
      simp only [List.length_cons] at hall
      omega
    | some r =>
      obtain ⟨phys, frames⟩ := r
      obtain ⟨g, hg⟩ := h.slot (by omega) ha
      have hlen' : (leaves ++ [g]).length = leaves.length + 1 := by
        rw [List.length_append, List.length_singleton]
      rw [Kernel.bind_some (installSlot_some ha _ _)]
      obtain ⟨r, M', hrun, hnone, hsome⟩ := ih hg (by omega)
      rw [hlen'] at hrun hnone hsome
      refine ⟨r, M', hrun, fun hr => ?_, fun c hc => ?_⟩
      · have := hnone hr
        omega
      · obtain ⟨all, h1, h2, h3⟩ := hsome c hc
        exact ⟨all, by omega, h2, h3⟩

/-! ## The whole construction -/

theorem building_start {phys₀ phys₁ : UInt64} {frames₀ frames₁ frames₂ : Frames}
    (h₀ : M.frames.allocFrames 1 = some (phys₀, frames₀)) (h₁ : frames₀.allocFrames 1 = some (phys₁, frames₁))
    (h₂ : frames₁.allocFrames 1 = some (pd, frames₂)) :
    ∃ f₀ f₁, phys₀.toNat = f₀ * 4096 ∧ f₀ < 2 ^ 18 ∧ phys₁.toNat = f₁ * 4096 ∧ f₁ < 2 ^ 18 ∧ pd.toNat < 2 ^ 30 ∧
      Building M ⟨((M.mem.write phys₀.toNat (List.replicate frameSize 0)).write phys₁.toNat
        (List.replicate frameSize 0)).write pd.toNat (List.replicate frameSize 0), M.cr3, frames₂⟩ f₀ f₁ pd [] := by
  obtain ⟨f₀, hp₀, hlt₀, -, ht₀⟩ := (Taken.refl M.frames).alloc h₀
  obtain ⟨f₁, hp₁, hlt₁, hn₁, ht₁⟩ := ht₀.alloc h₁
  obtain ⟨f₂, hp₂, hlt₂, hn₂, ht₂⟩ := ht₁.alloc h₂
  simp only [List.nil_append, List.cons_append, List.mem_cons, List.not_mem_nil, or_false, not_or] at hn₁ hn₂ ht₂
  obtain rfl : f₂ = pd.toNat / 4096 := by omega
  refine ⟨f₀, f₁, hp₀, hlt₀, hp₁, hlt₁, by omega, ht₂, by omega, fun t ht i hi => ?_, nofun, nofun, fun a ha => ?_⟩
  · refine ((clear_spec _ hp₂).2 t i hi).trans ?_
    rcases ht with rfl | rfl
    · rw [if_neg (Ne.symm hn₂.1), (clear_spec _ hp₁).2 _ i hi, if_neg (Ne.symm hn₁), (clear_spec _ hp₀).2 _ i hi,
        if_pos rfl]
    · rw [if_neg (Ne.symm hn₂.2), (clear_spec _ hp₁).2 _ i hi, if_pos rfl]
  · simp only [List.mem_cons, List.not_mem_nil, or_false, not_or] at ha
    show Memory.write _ _ _ a = _
    rw [(clear_spec _ hp₂).1 a ha.2.2, (clear_spec _ hp₁).1 a ha.2.1, (clear_spec _ hp₀).1 a ha.1]

theorem leafEntry_spec {k j : Nat} (hk : k < 512) (hj : j < 512) : present (leafEntry k j) = true ∧
    PageTable.user (leafEntry k j) = false ∧ frameNumber (leafEntry k j) = k * 512 + j := by
  have hsize : largePageSize.toNat = 0x200000 := by decide
  have hbase : (UInt64.ofNat k * largePageSize).toNat = k * 0x200000 := by
    rw [UInt64.toNat_mul, UInt64.toNat_ofNat', hsize]
    omega
  have hstep : (UInt64.ofNat j * UInt64.ofNat frameSize).toNat = j * 4096 := by
    rw [UInt64.toNat_mul, UInt64.toNat_ofNat', UInt64.toNat_ofNat', frameSize]
    omega
  have hsum : (UInt64.ofNat k * largePageSize + UInt64.ofNat j * UInt64.ofNat frameSize).toNat =
      k * 0x200000 + j * 4096 := by
    rw [UInt64.toNat_add, hbase, hstep]
    omega
  obtain ⟨hp, hu, -⟩ := flags_or (a := UInt64.ofNat k * largePageSize + UInt64.ofNat j * UInt64.ofNat frameSize)
    (c := PRESENT ||| WRITABLE) (by omega)
  refine ⟨hp.trans (by decide), hu.trans (by decide), ?_⟩
  rw [leafEntry, frameNumber_or (by decide), frameNumber, hsum]
  omega

def wireTables (m : Memory) (pml4 pdpt pd : UInt64) : Memory :=
  ((m.write64 pdpt.toNat (pd ||| (PRESENT ||| WRITABLE))).write64 pml4.toNat
    (pdpt ||| (PRESENT ||| WRITABLE))).write64 (pml4.toNat + 8 * levelIndex higherHalfBase 0)
    (pdpt ||| (PRESENT ||| WRITABLE))

theorem wired_entries (m : Memory) (root middle pd : UInt64) (frames : Frames) :
    (Machine.mk (wireTables m root middle pd) root frames).entries = entriesOf (wireTables m root middle pd) := by
  rw [Machine.entries]

section Wire

variable {root middle : UInt64} (h : Building M M' pml4 pdpt pd leaves) (hlen : leaves.length = 512)
  (hroot : root.toNat = pml4 * 4096) (hmiddle : middle.toNat = pdpt * 4096)

include hroot hmiddle

theorem wireTables_eq (m : Memory) : wireTables m root middle pd =
    ((m.write64 (pdpt * 4096 + 8 * 0) (pd ||| (PRESENT ||| WRITABLE))).write64 (pml4 * 4096 + 8 * 0)
      (middle ||| (PRESENT ||| WRITABLE))).write64 (pml4 * 4096 + 8 * 256) (middle ||| (PRESENT ||| WRITABLE)) := by
  have hindex : levelIndex higherHalfBase 0 = 256 := by decide
  rw [wireTables, hindex, hroot, hmiddle]
  simp only [Nat.mul_zero, Nat.add_zero]

theorem wire_outside (m : Memory) {a : Nat} (ha : a / 4096 ≠ pml4) (ha' : a / 4096 ≠ pdpt) :
    wireTables m root middle pd a = m a := by
  rw [wireTables_eq hroot hmiddle, Memory.write64_outside (by omega), Memory.write64_outside (by omega),
    Memory.write64_outside (by omega)]

theorem wire_entries (u : Nat) {j : Nat} (hj : j < 512) :
    entriesOf (wireTables M'.mem root middle pd) (u * 4096) j =
      if u = pml4 ∧ WindowSlot j then middle ||| (PRESENT ||| WRITABLE)
      else if u = pdpt ∧ j = 0 then pd ||| (PRESENT ||| WRITABLE) else M'.entries (u * 4096) j := by
  rw [wireTables_eq hroot hmiddle, entries_write _ _ (by decide) hj, entries_write _ _ (by decide) hj,
    entries_write _ _ (by decide) hj]
  by_cases h256 : u = pml4 ∧ j = 256
  · rw [if_pos h256, if_pos ⟨h256.1, Or.inr h256.2⟩]
  by_cases h0 : u = pml4 ∧ j = 0
  · rw [if_neg h256, if_pos h0, if_pos ⟨h0.1, Or.inl h0.2⟩]
  have hn : ¬(u = pml4 ∧ WindowSlot j) := fun hc =>
    Or.elim hc.2 (fun hj0 => h0 ⟨hc.1, hj0⟩) fun hj1 => h256 ⟨hc.1, hj1⟩
  rw [if_neg h256, if_neg h0, if_neg hn]
  rfl

include h

theorem wire_window (hlow : pdpt < 2 ^ 18) (hpd : pd.toNat < 2 ^ 30) (frames : Frames) :
    Window (Machine.mk (wireTables M'.mem root middle pd) root frames).entries
      (Machine.mk (wireTables M'.mem root middle pd) root frames).root middle.toNat pd.toNat WindowSlot := by
  have hr : (Machine.mk (wireTables M'.mem root middle pd) root frames).root = pml4 * 4096 := by
    rw [Machine.root, toNat_mask, hroot, Nat.mul_div_cancel _ (by decide)]
  obtain ⟨hab, -⟩ := h.apart
  obtain ⟨hlink₁, htarget₁⟩ := freshLink_spec (f := middle) (by omega) (by omega)
  obtain ⟨hlink₂, htarget₂⟩ := freshLink_spec (f := pd) h.aligned (by omega)
  rw [wired_entries, hr, hmiddle]
  rw [hmiddle] at htarget₁
  refine ⟨fun i hi hS => ?_, fun i hi hS => ?_, ?_, fun j hj hj0 => ?_⟩
  · rw [wire_entries hroot hmiddle pml4 hi, if_pos ⟨rfl, hS⟩]
    exact ⟨hlink₁, htarget₁⟩
  · rw [wire_entries hroot hmiddle pml4 hi, if_neg (fun hc => hS hc.2), if_neg (fun hc => hab hc.1),
      h.upper pml4 (Or.inl rfl) i hi]
    rfl
  · rw [wire_entries hroot hmiddle pdpt (by decide), if_neg (fun hc => hab hc.1.symm), if_pos ⟨rfl, rfl⟩]
    exact ⟨hlink₂, htarget₂⟩
  · rw [wire_entries hroot hmiddle pdpt hj, if_neg (fun hc => hab hc.1.symm), if_neg (fun hc => hj0 hc.2),
      h.upper pdpt (Or.inr rfl) j hj]
    rfl

include hlen

theorem wire_identity (frames : Frames) :
    Identity (Machine.mk (wireTables M'.mem root middle pd) root frames).entries pd.toNat 0 := by
  obtain ⟨-, hac, haL, hbc, hbL, -⟩ := h.apart
  rw [wired_entries]
  intro k hk l hl
  obtain ⟨f, hf⟩ : ∃ f, leaves[k]? = some f := ⟨_, List.getElem?_eq_getElem (by omega)⟩
  have hmem := List.mem_of_getElem? hf
  obtain ⟨phys, hphys, hlow, hslot⟩ := h.slots k f hf
  have hdir : entriesOf (wireTables M'.mem root middle pd) pd.toNat k = phys ||| (PRESENT ||| WRITABLE) := by
    have he : entriesOf (wireTables M'.mem root middle pd) (pd.toNat / 4096 * 4096) k = _ :=
      wire_entries hroot hmiddle (pd.toNat / 4096) hk
    rw [if_neg (fun hc => hac hc.1.symm), if_neg (fun hc => hbc hc.1.symm), h.pd_frame, hslot] at he
    exact he
  have hleaf : entriesOf (wireTables M'.mem root middle pd) (f * 4096) l = leafEntry k l := by
    rw [wire_entries hroot hmiddle f hl, if_neg, if_neg, h.pages k f hf l hl]
    · rintro ⟨rfl, -⟩
      exact hbL hmem
    · rintro ⟨rfl, -⟩
      exact haL hmem
  obtain ⟨hlink, htarget⟩ := freshLink_spec (f := phys) (by omega) (by omega)
  obtain ⟨hp, hu, hn⟩ := leafEntry_spec hk hl
  rw [← hdir] at hlink htarget
  rw [hphys] at htarget
  rw [← hleaf] at hp hu hn
  have hwalk := walk_cons_link hlink (List.cons_ne_nil l [])
  rw [htarget, walk_cons_leaf hp (Or.inl rfl), Option.map_some] at hwalk
  refine ⟨_, hwalk, ?_, rfl, hu⟩
  show frameNumber (entriesOf (wireTables M'.mem root middle pd) (f * 4096) l) / 512 ^ 0 * 512 ^ 0 + 0 = _
  rw [hn, pow_zero, Nat.div_one, Nat.mul_one, Nat.add_zero]

end Wire

/-- What a run of `install_initial` leaves. -/
structure Installed (M M' : Machine) (report : PmapReport) : Prop where
  cr3 : M'.cr3 = report.pml4Phys
  tables : ∃ pdpt pd, Window M'.entries M'.root pdpt pd WindowSlot ∧ Identity M'.entries pd 0
  frames : ∃ fs, Taken M.frames M'.frames fs ∧ fs.length = report.pageTableFrames ∧
    ∀ a, a / 4096 ∉ fs → M'.mem a = M.mem a

theorem wire_run (m : Memory) (c : UInt64) (frames : Frames) (root middle pd : UInt64) (n : Nat) :
    (do Kernel.store middle.toNat (pd ||| PRESENT ||| WRITABLE)
        Kernel.store root.toNat (middle ||| PRESENT ||| WRITABLE)
        Kernel.store (root.toNat + 8 * levelIndex higherHalfBase 0) (middle ||| PRESENT ||| WRITABLE)
        installPaging root
        return ⟨root, n + 3⟩ : Kernel PmapReport) ⟨m, c, frames⟩ =
      (some ⟨root, n + 3⟩, ⟨wireTables m root middle pd, root, frames⟩) := by
  rw [wireTables, ← UInt64.or_assoc, ← UInt64.or_assoc]
  rfl

theorem Installed.report_frames {report : PmapReport} (h : Installed M M' report) : ∃ fs : List Nat, fs.Nodup ∧
    fs.length = report.pageTableFrames ∧ (∀ f ∈ fs, 1 ≤ f ∧ f < maxFrames ∧ M.frames.bitIsUsed f = false) ∧
    (∀ f, M'.frames.bitIsUsed f = true ↔ M.frames.bitIsUsed f = true ∨ f ∈ fs) ∧
    ∀ a, M'.mem a ≠ M.mem a → a / 4096 ∈ fs := by
  obtain ⟨fs, htaken, hlen, hmem⟩ := h.frames
  refine ⟨fs, htaken.nodup, hlen, fun f hf => ?_, htaken.used, fun a ha => ?_⟩
  · obtain ⟨⟨h1, hmax⟩, hfree⟩ := Frames.mem_freeSet.mp (htaken.free f hf)
    exact ⟨h1, hmax, hfree⟩
  · by_contra hn
    exact ha (hmem a hn)

theorem installInitial_spec (M : Machine) : ∃ r M', installInitial M = (r, M') ∧
    (r = none → M.frames.freeSet.card < 515) ∧ ∀ report, r = some report → Installed M M' report := by
  unfold installInitial
  rcases allocZeroedFrame_cases M with ⟨hrun₀, hnone⟩ | ⟨root, frames₀, ha₀, hrun₀⟩
  · rw [Kernel.bind_none hrun₀]
    exact ⟨none, M, rfl, fun _ => ((Taken.refl M.frames).exhausted hnone).trans_lt (by simp), nofun⟩
  rw [Kernel.bind_some hrun₀]
  obtain ⟨f₀, -, -, -, ht₀⟩ := (Taken.refl M.frames).alloc ha₀
  rcases allocZeroedFrame_cases ⟨M.mem.write root.toNat (List.replicate frameSize 0), M.cr3, frames₀⟩ with
    ⟨hrun₁, hnone⟩ | ⟨middle, frames₁, ha₁, hrun₁⟩
  · rw [Kernel.bind_none hrun₁]
    exact ⟨none, _, rfl, fun _ => (ht₀.exhausted hnone).trans_lt (by simp), nofun⟩
  rw [Kernel.bind_some hrun₁]
  obtain ⟨f₁, -, -, -, ht₁⟩ := ht₀.alloc ha₁
  rcases allocZeroedFrame_cases ⟨(M.mem.write root.toNat (List.replicate frameSize 0)).write middle.toNat
    (List.replicate frameSize 0), M.cr3, frames₁⟩ with ⟨hrun₂, hnone⟩ | ⟨pd, frames₂, ha₂, hrun₂⟩
  · rw [Kernel.bind_none hrun₂]
    exact ⟨none, _, rfl, fun _ => (ht₁.exhausted hnone).trans_lt (by simp), nofun⟩
  rw [Kernel.bind_some hrun₂]
  obtain ⟨pml4, pdpt, hp₀, hlt₀, hp₁, hlt₁, hpd, hstart⟩ := building_start ha₀ ha₁ ha₂
  obtain ⟨r, M', hrun, hnone, hsome⟩ := hstart.run 512 (Nat.le_refl 512)
  have hrange : List.range pdEntries = List.range' 0 512 := List.range_eq_range'
  rw [List.length_nil] at hrun
  rw [hrange]
  dsimp only
  cases r with
  | none =>
    rw [Kernel.bind_none hrun]
    exact ⟨none, M', rfl, fun _ => hnone rfl, nofun⟩
  | some n =>
    obtain ⟨leaves, hlen, rfl, hb⟩ := hsome n rfl
    obtain ⟨m, c, frames⟩ := M'
    rw [Kernel.bind_some hrun, wire_run]
    refine ⟨_, _, rfl, nofun, fun report hr => ?_⟩
    cases hr
    refine ⟨rfl, ⟨_, _, wire_window hb hp₀ hp₁ hlt₁ hpd frames, wire_identity hb hlen hp₀ hp₁ frames⟩, _, hb.taken,
      rfl, fun a ha => ?_⟩
    obtain ⟨hroot, hmiddle⟩ : a / 4096 ≠ pml4 ∧ a / 4096 ≠ pdpt := by
      simp only [List.mem_cons, not_or] at ha
      exact ⟨ha.1, ha.2.1⟩
    exact (wire_outside hp₀ hp₁ m hroot hmiddle).trans (hb.mem a ha)

/-- Initial page tables mirror the boot map: the new tables translate every address as the
tables of `boot.S` do, the low GiB to itself, its higher-half alias to the same memory and
nothing else; no leaf allows user access, and the frames taken are distinct and counted. -/
theorem initial_tables (s : BootSymbols) (m : Memory) (bootFrames : Frames) {report : PmapReport}
    (h : installInitial M = (some report, M')) :
    (∀ v, M'.physAt v = bootWindow v ∧ (bootMachine s m bootFrames).physAt v = bootWindow v) ∧
    (∀ v l, walk M'.entries M'.root (indices v) = some l → l.rest = [] ∧ PageTable.user l.entry = false) ∧
    M'.cr3 = report.pml4Phys ∧
    ∃ fs : List Nat, fs.Nodup ∧ fs.length = report.pageTableFrames ∧
      (∀ f ∈ fs, 1 ≤ f ∧ f < maxFrames ∧ M.frames.bitIsUsed f = false) ∧
      (∀ f, M'.frames.bitIsUsed f = true ↔ M.frames.bitIsUsed f = true ∨ f ∈ fs) ∧
      ∀ a, M'.mem a ≠ M.mem a → a / 4096 ∈ fs := by
  obtain ⟨r, M'', hrun, -, hsome⟩ := installInitial_spec M
  rw [h] at hrun
  cases hrun
  have hinst := hsome report rfl
  obtain ⟨pdpt, pd, hwindow, hid⟩ := hinst.tables
  refine ⟨fun v => ⟨physAt_eq hwindow hid v, ?_⟩, fun v l hw => ?_, hinst.cr3, hinst.report_frames⟩
  · exact physAt_eq (boot_window s m bootFrames) (boot_identity s m bootFrames) v
  · obtain ⟨hrest, huser⟩ := window_leaf hwindow hid hw
    exact ⟨List.length_eq_zero_iff.mp hrest, huser⟩

theorem initial_tables_all_free : ∃ report M',
    installInitial ⟨fun _ => 0, 0x102000, ⟨fun _ => 0, maxFrames, maxFrames - 1, 1⟩⟩ = (some report, M') ∧
    M'.physAt 0xFFFF800000123456 = some 0x123456 := by
  have hcard : (Frames.mk (fun _ => 0) maxFrames (maxFrames - 1) 1).freeSet.card = maxFrames - 1 := by
    have hall : ∀ f ∈ Finset.Ico 1 maxFrames,
        (Frames.mk (fun _ => 0) maxFrames (maxFrames - 1) 1).bitIsUsed f = false := by
      intro f _
      rw [Frames.bitIsUsed, UInt64.zero_and]
      rfl
    rw [Frames.freeSet, Finset.filter_true_of_mem hall, Nat.card_Ico]
  obtain ⟨r, M', hrun, hnone, -⟩ :=
    installInitial_spec ⟨fun _ => 0, 0x102000, ⟨fun _ => 0, maxFrames, maxFrames - 1, 1⟩⟩
  cases r with
  | none =>
    have hlt := hnone rfl
    rw [hcard] at hlt
    exact absurd hlt (by decide)
  | some report =>
    let s : BootSymbols := ⟨0x102000, 0x102000, 0x10D000, by decide, by decide, by decide⟩
    have htables := initial_tables s (fun _ => 0) (Frames.mk (fun _ => 0) 0 0 0) hrun
    exact ⟨report, M', hrun, (htables.1 0xFFFF800000123456).1.trans (by decide)⟩

end Pippin.Mm
