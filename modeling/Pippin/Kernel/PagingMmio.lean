import Pippin.Kernel.PagingUser

/-! MMIO mappings: `map_mmio_page` goes by the address field of an entry alone. It keeps
every other translation exactly when no large page lies on the way to its page. -/

namespace Pippin.Mm
open Mem PageTable

variable {M M' : Machine} {phys : UInt64}

/-- Tables as the boot code leaves them: no table in frame 0, the root register holds
the plain address, large pages are aligned to their size. -/
structure MmioTables (M : Machine) : Prop extends Paged M where
  plain : M.cr3.toNat % 4096 = 0
  nonzero : ∀ t, M.HasTable t → t ≠ 0
  natural : ∀ {p t i}, Slot p i → p.length < 3 → descend M.entries M.root p = some t →
    huge (M.entries t i) = true → (M.entries t i).toNat / 4096 % 512 ^ (3 - p.length) = 0

def Machine.translate (M : Machine) (v : UInt64) : Option Nat :=
  if v < userTop ∨ higherHalfBase ≤ v then M.pageAt v else none

structure MmioMapped (M M' : Machine) (phys : UInt64) : Prop where
  maps : M'.translate phys = some (phys.toNat / 4096)
  others : ∀ w, w < userTop → w.toNat / 4096 ≠ phys.toNat / 4096 → M'.pageAt w = M.pageAt w
  writes : ∀ a, M'.mem a ≠ M.mem a → M.HasTable (a / 4096 * 4096) ∨
    M.frames.bitIsUsed (a / 4096) = false ∧ M'.frames.bitIsUsed (a / 4096) = true

def MmioLaw (M : Machine) (phys : UInt64) : Prop :=
  ∀ r M', mapMmioPage phys M = (some r, M') → MmioMapped M M' phys

def mmioEntry (phys : UInt64) : UInt64 := phys ||| PRESENT ||| WRITABLE ||| UNCACHED

/-- The two entries of the middle levels for an address, and the tables they are in. -/
def Machine.pml4e (M : Machine) (v : UInt64) : UInt64 := M.entries M.root (levelIndex v 0)
def Machine.pdpte (M : Machine) (v : UInt64) : UInt64 := M.entries (target (M.pml4e v)) (levelIndex v 1)
def Machine.pde (M : Machine) (v : UInt64) : UInt64 := M.entries (target (M.pdpte v)) (levelIndex v 2)

/-- No table to start from, or a lower-half page without a large page on the way to it. -/
def MmioSafe (M : Machine) (phys : UInt64) : Prop :=
  M.pml4e phys &&& ~~~0xFFF = 0 ∨
    phys < userTop ∧ huge (M.pdpte phys) = false ∧ (present (M.pdpte phys) = true → huge (M.pde phys) = false)

theorem mmioEntry_flags (h : phys.toNat % 4096 = 0) : present (mmioEntry phys) = true ∧
    PageTable.user (mmioEntry phys) = false ∧ huge (mmioEntry phys) = false ∧
    frameNumber (mmioEntry phys) = frameNumber phys := by
  have hassoc : mmioEntry phys = phys ||| (PRESENT ||| WRITABLE ||| UNCACHED) := by
    rw [mmioEntry, UInt64.or_assoc, UInt64.or_assoc, UInt64.or_assoc]
  obtain ⟨h1, h2, h3⟩ := flags_or (c := PRESENT ||| WRITABLE ||| UNCACHED) h
  rw [hassoc, h1, h2, h3, frameNumber_or (by decide)]
  exact ⟨by decide, by decide, by decide, rfl⟩

def mmioFrom (pdpt : Nat) (phys : UInt64) : Kernel UInt64 := do
  let pd ← followTable (pdpt + 8 * levelIndex phys 1)
  let pt ← followTable (pd.toNat + 8 * levelIndex phys 2)
  Kernel.store (pt.toNat + 8 * levelIndex phys 3) (mmioEntry phys)
  return phys

theorem mapMmioPage_eq (hT : MmioTables M) (hal : phys.toNat % 4096 = 0) (hge : initialMapSize ≤ phys) :
    mapMmioPage phys M = if M.pml4e phys &&& ~~~0xFFF = 0 then (none, M)
      else mmioFrom (M.pml4e phys &&& ~~~0xFFF).toNat phys M := by
  have hguard : ¬(phys &&& 0xFFF ≠ 0 ∨ phys < initialMapSize) := by
    rw [not_or, not_not, and_fff, UInt64.not_lt]
    exact ⟨hal, hge⟩
  have hroot : M.cr3.toNat = M.root := by
    rw [Machine.root, toNat_mask]
    have := hT.plain
    omega
  have hcr3 : Kernel.readCr3 M = (some M.cr3, M) := rfl
  have hload : Kernel.load (M.cr3.toNat + 8 * levelIndex phys 0) M = (some (M.pml4e phys), M) := by
    rw [hroot]
    rfl
  unfold mapMmioPage
  rw [if_neg hguard, Kernel.bind_some hcr3, Kernel.bind_some hload]
  split_ifs <;> rfl

/-! ## Tables without large pages on the way -/

theorem descend_pdpt (hl : isLink (M.pml4e phys) = true) :
    descend M.entries M.root [levelIndex phys 0] = some (target (M.pml4e phys)) := by
  show (if isLink (M.pml4e phys) = true then _ else _) = _
  rw [if_pos hl]
  rfl

theorem descend_pd (hl : isLink (M.pml4e phys) = true) (hl1 : isLink (M.pdpte phys) = true) :
    descend M.entries M.root [levelIndex phys 0, levelIndex phys 1] = some (target (M.pdpte phys)) := by
  have hd := descend_snoc (i := levelIndex phys 1) (descend_pdpt hl)
  exact hd.trans (if_pos hl1)

theorem mmioFrom_spec (hT : MmioTables M) (hal : phys.toNat % 4096 = 0) (hlt : phys < userTop)
    (hl : isLink (M.pml4e phys) = true) (h1 : huge (M.pdpte phys) = false)
    (h2 : present (M.pdpte phys) = true → huge (M.pde phys) = false) :
    ∃ r M', mmioFrom (target (M.pml4e phys)) phys M = (r, M') ∧
      (r = none ∨ Evolves (· = indices phys) M M' ∧
        walk M'.entries M.root (indices phys) = some ⟨mmioEntry phys, [], false⟩) := by
  obtain ⟨-, s1, s2, s3⟩ := slots_of_indices hlt
  have d1 := descend_pdpt hl
  obtain ⟨r₁, M₁, hrun₁, hg₁, hnz₁, hpost₁⟩ := followTable_spec hT.toPaged s1 (by simp) d1 h1 hT.nonzero
  unfold mmioFrom
  cases r₁ with
  | none =>
    rw [Kernel.bind_none hrun₁]
    exact ⟨none, M₁, rfl, Or.inl rfl⟩
  | some pd =>
  rw [Kernel.bind_some hrun₁]
  obtain ⟨d2, hnew⟩ := hpost₁ pd rfl
  have hroot₁ := hg₁.root
  -- the second level is an old table without a large page here, or an empty one
  have hh2 : huge (M₁.entries pd.toNat (levelIndex phys 2)) = false := by
    rcases hnew with ⟨hpr, rfl⟩ | hzero
    · have hd2 := descend_snoc (i := levelIndex phys 1) d1
      rw [if_pos (isLink_iff.mpr ⟨hpr, h1⟩)] at hd2
      rw [hd2] at d2
      rw [← Option.some.inj d2]
      exact h2 hpr
    · rw [hzero _ s2.lt]
      rfl
  obtain ⟨r₂, M₂, hrun₂, hg₂, -, hpost₂⟩ := followTable_spec hg₁.paged s2 (by simp) (hroot₁.symm ▸ d2) hh2 hnz₁
  cases r₂ with
  | none =>
    rw [Kernel.bind_none hrun₂]
    exact ⟨none, M₂, rfl, Or.inl rfl⟩
  | some pt =>
  rw [Kernel.bind_some hrun₂]
  obtain ⟨d3, -⟩ := hpost₂ pt rfl
  have hg := Evolves.trans hg₁ hg₂
  obtain ⟨hpr, husr, -, -⟩ := mmioEntry_flags hal
  rw [hroot₁, ← hg.root] at d3
  obtain ⟨hev, hwalk, -⟩ := evolves_setPage hg.paged s3 rfl d3 (e := mmioEntry phys)
    (fun hc => absurd (husr.symm.trans hc) Bool.false_ne_true) rfl
  refine ⟨some phys, _, rfl, Or.inr ⟨Evolves.trans (Grown.evolves hg) hev, ?_⟩⟩
  have hw := hwalk hpr
  rw [husr, hg.root] at hw
  exact hw

theorem pml4e_field (hT : MmioTables M) (hlt : phys < userTop) (h : M.pml4e phys &&& ~~~0xFFF ≠ 0) :
    isLink (M.pml4e phys) = true ∧ (M.pml4e phys &&& ~~~0xFFF).toNat = target (M.pml4e phys) := by
  obtain ⟨s0, -⟩ := slots_of_indices hlt
  have hl : isLink (M.pml4e phys) = true := by
    refine isLink_iff.mpr ⟨?_, hT.wf.top s0⟩
    by_contra hpr
    rw [Bool.not_eq_true] at hpr
    have hzero : M.pml4e phys = 0 := hT.wf.absent s0 (by decide) rfl hpr
    rw [hzero] at h
    exact h rfl
  refine ⟨hl, ?_⟩
  rw [toNat_mask]
  exact (target_of_lt (hT.wf.low s0 (by decide) rfl hl)).symm

theorem MmioSafe.law (hT : MmioTables M) (hal : phys.toNat % 4096 = 0) (hge : initialMapSize ≤ phys)
    (h : MmioSafe M phys) : MmioLaw M phys := by
  intro r M' hrun
  rw [mapMmioPage_eq hT hal hge] at hrun
  split_ifs at hrun with hz
  · cases hrun
  obtain ⟨hlt, h1, h2⟩ := h.resolve_left hz
  obtain ⟨hl, hfield⟩ := pml4e_field hT hlt hz
  rw [hfield] at hrun
  obtain ⟨r', M'', hrun', hpost⟩ := mmioFrom_spec hT hal hlt hl h1 h2
  rw [hrun'] at hrun
  cases hrun
  obtain ⟨hev, hwalk⟩ := hpost.resolve_left nofun
  have hlt' : phys.toNat < 0x800000000000 := UInt64.lt_iff_toNat_lt.mp hlt
  refine ⟨?_, fun w hw hne => hev.pageAt hw (mt (indices_eq_iff hw hlt).mp hne), fun a ha => ?_⟩
  · rw [Machine.translate, if_pos (Or.inl hlt), Machine.pageAt, pageOf, hev.root, hwalk, Option.map_some]
    unfold Leaf.page
    dsimp only
    rw [(mmioEntry_flags hal).2.2.2]
    simp only [frameNumber, offset, List.length_nil, List.foldl_nil, Option.some.injEq]
    omega
  · have ht : M'.HasTable (a / 4096 * 4096) := by
      by_contra hn
      exact ha (hev.mem a hn)
    refine (hev.fresh _ ht).imp id fun hf => ?_
    rw [Nat.mul_div_cancel _ (by decide)] at hf
    exact ⟨hf.2, (hev.used _).mpr (Or.inr ht)⟩

/-! ## Large pages on the way -/

section Same

variable (hT : MmioTables M) (h : SameTables M M')

include hT h

theorem SameTables.mmioTables : MmioTables M' where
  toPaged := h.paged hT.toPaged
  plain := h.cr3 ▸ hT.plain
  nonzero := fun t ht => hT.nonzero t ((h.hasTable hT.toPaged t).mp ht)
  natural := fun {p t i} hs hlev ht hh => by
    rw [h.descend_eq hT.toPaged hs.tablePath] at ht
    rw [h.entries_eq hT.toPaged ⟨p, hs.tablePath, ht⟩ hs.lt] at hh ⊢
    exact hT.natural hs hlev ht hh

theorem SameTables.pml4e_eq : M'.pml4e phys = M.pml4e phys := by
  unfold Machine.pml4e
  rw [h.root_eq]
  exact h.entries_eq hT.toPaged ⟨[], ⟨⟨nofun, nofun⟩, Nat.zero_le 3⟩, rfl⟩ (levelIndex_lt phys 0)

variable (hlt : phys < userTop) (hl : isLink (M.pml4e phys) = true)

include hlt hl

theorem SameTables.pdpte_eq : M'.pdpte phys = M.pdpte phys := by
  obtain ⟨-, s1, -⟩ := slots_of_indices hlt
  unfold Machine.pdpte
  rw [h.pml4e_eq hT]
  exact h.entries_eq hT.toPaged ⟨_, s1.tablePath, descend_pdpt hl⟩ s1.lt

theorem SameTables.pde_eq (hl1 : isLink (M.pdpte phys) = true) : M'.pde phys = M.pde phys := by
  obtain ⟨-, -, s2, -⟩ := slots_of_indices hlt
  unfold Machine.pde
  rw [h.pdpte_eq hT hlt hl]
  exact h.entries_eq hT.toPaged ⟨_, s2.tablePath, descend_pd hl hl1⟩ s2.lt

end Same

theorem SameTables.safe (hT : MmioTables M) (h : SameTables M M') (hs : MmioSafe M phys) : MmioSafe M' phys := by
  unfold MmioSafe
  rw [h.pml4e_eq hT]
  by_cases hz : M.pml4e phys &&& ~~~0xFFF = 0
  · exact Or.inl hz
  obtain ⟨hlt, h1, h2⟩ := hs.resolve_left hz
  have hl := (pml4e_field hT hlt hz).1
  rw [h.pdpte_eq hT hlt hl]
  refine Or.inr ⟨hlt, h1, fun hpr => ?_⟩
  rw [h.pde_eq hT hlt hl (isLink_iff.mpr ⟨hpr, h1⟩)]
  exact h2 hpr

/-! The two outcomes of following an entry, by its address field. -/

theorem followTable_field {t i : Nat} (h : M.entries t i &&& ~~~0xFFF ≠ 0) :
    followTable (t + 8 * i) M = (some (M.entries t i &&& ~~~0xFFF), M) := by
  have hload : Kernel.load (t + 8 * i) M = (some (M.entries t i), M) := rfl
  unfold followTable
  rw [Kernel.bind_some hload, if_neg h]
  rfl

theorem followTable_fresh {t i : Nat} (h : M.entries t i &&& ~~~0xFFF = 0) {f : UInt64} {frames : Frames}
    (ha : M.frames.allocFrames 1 = some (f, frames)) :
    followTable (t + 8 * i) M = (some f, ⟨(M.mem.write f.toNat (List.replicate frameSize 0)).write64 (t + 8 * i)
      (f ||| (PRESENT ||| WRITABLE)), M.cr3, frames⟩) := by
  have hload : Kernel.load (t + 8 * i) M = (some (M.entries t i), M) := rfl
  rcases allocZeroedFrame_cases M with ⟨-, hnone⟩ | ⟨f', frames', ha', hrun⟩
  · rw [ha] at hnone
    cases hnone
  · rw [ha] at ha'
    cases ha'
    unfold followTable
    rw [Kernel.bind_some hload, if_pos h, Kernel.bind_some hrun, UInt64.or_assoc]
    rfl

def FreeFrame (M : Machine) (f : Nat) : Prop := 1 ≤ f ∧ f < maxFrames ∧ M.frames.bitIsUsed f = false

theorem followTable_returns {f : Nat} (hf : FreeFrame M f) (t i : Nat) :
    ∃ table M' n, followTable (t + 8 * i) M = (some table, M') ∧ ∀ g, g ≠ n → FreeFrame M g → FreeFrame M' g := by
  by_cases hz : M.entries t i &&& ~~~0xFFF = 0
  · obtain ⟨phys, frames, ha⟩ := Frames.allocFrames_one_of_free hf.1 hf.2.1 hf.2.2
    obtain ⟨n, -, -, -, -, -, hbits, -⟩ := Frames.allocFrames_spec ha
    refine ⟨_, _, n, followTable_fresh hz ha, fun g hg hfree => ⟨hfree.1, hfree.2.1, ?_⟩⟩
    show frames.bitIsUsed g = false
    rw [hbits, if_neg (by omega)]
    exact hfree.2.2
  · exact ⟨_, _, 0, followTable_field hz, fun _ _ h => h⟩

theorem mmioFrom_returns (phys : UInt64) {f g : Nat} (hne : f ≠ g) (hf : FreeFrame M f) (hg : FreeFrame M g)
    (pdpt : Nat) :
    ∃ M', mmioFrom pdpt phys M = (some phys, M') := by
  obtain ⟨pd, M₁, n, hrun₁, hkeep⟩ := followTable_returns hf pdpt (levelIndex phys 1)
  obtain ⟨g', hg'⟩ : ∃ g', FreeFrame M₁ g' := by
    by_cases hn : f = n
    · exact ⟨g, hkeep g (by omega) hg⟩
    · exact ⟨f, hkeep f hn hf⟩
  obtain ⟨pt, M₂, -, hrun₂, -⟩ := followTable_returns hg' pd.toNat (levelIndex phys 2)
  unfold mmioFrom
  rw [Kernel.bind_some hrun₁, Kernel.bind_some hrun₂]
  exact ⟨_, rfl⟩

theorem translate_high (h : ¬phys < userTop) : M.translate phys ≠ some (phys.toNat / 4096) := by
  unfold Machine.translate
  split_ifs with hc
  · have hhigh : 0xFFFF800000000000 ≤ phys.toNat := UInt64.le_iff_toNat_le.mp (hc.resolve_left h)
    intro he
    obtain ⟨l, hw, hl⟩ := Option.map_eq_some_iff.mp he
    have hidx : ∀ i ∈ indices phys, i < 512 := by
      intro i hi
      simp only [indices, List.mem_cons, List.not_mem_nil, or_false] at hi
      rcases hi with rfl | rfl | rfl | rfl <;> exact levelIndex_lt phys _
    obtain ⟨hlen, hmem⟩ := walk_rest hw
    have hoff := offset_lt fun i hi => hidx i (hmem i hi)
    have hpow : 512 ^ l.rest.length ≤ 512 ^ 3 := Nat.pow_le_pow_right (by decide) (Nat.lt_succ_iff.mp hlen)
    have hframe : frameNumber l.entry < 2 ^ 40 := by
      unfold frameNumber
      omega
    have hdiv := Nat.div_mul_le_self (frameNumber l.entry) (512 ^ l.rest.length)
    unfold Leaf.page at hl
    omega
  · exact (Option.some_ne_none _).symm

theorem entriesOf_congr {m m' : Memory} {t i : Nat} (ht : t % 4096 = 0) (hi : i < 512)
    (h : ∀ a, a / 4096 * 4096 = t → m' a = m a) : entriesOf m' t i = entriesOf m t i :=
  Memory.read64_congr fun k hk => h _ (by omega)

theorem freshLink_spec {f : UInt64} (hal : f.toNat % 4096 = 0) (hlow : f.toNat < 2 ^ 52) :
    isLink (f ||| (PRESENT ||| WRITABLE)) = true ∧ target (f ||| (PRESENT ||| WRITABLE)) = f.toNat := by
  obtain ⟨h1, -, h3⟩ := flags_or (c := PRESENT ||| WRITABLE) hal
  refine ⟨?_, ?_⟩
  · rw [isLink, h1, h3]
    decide
  · rw [target, frameNumber_or (by decide), frameNumber]
    omega

/-- The last two levels when the middle entry has no address: a fresh table, empty but
for the page. -/
theorem mmio_last_fresh (phys : UInt64) {t : Nat} (ht : t % 4096 = 0)
    (hz : M.entries t (levelIndex phys 2) &&& ~~~0xFFF = 0) {f : UInt64} {frames : Frames}
    (ha : M.frames.allocFrames 1 = some (f, frames)) (hal : f.toNat % 4096 = 0) (hne : t ≠ f.toNat) :
    ∃ M', (followTable (t + 8 * levelIndex phys 2) >>= fun pt => do
        Kernel.store (pt.toNat + 8 * levelIndex phys 3) (mmioEntry phys)
        return phys) M = (some phys, M') ∧ M'.cr3 = M.cr3 ∧
      (∀ a, a / 4096 * 4096 ≠ t → a / 4096 * 4096 ≠ f.toNat → M'.mem a = M.mem a) ∧
      M'.entries t (levelIndex phys 2) = f ||| (PRESENT ||| WRITABLE) ∧
      ∀ j < 512, j ≠ levelIndex phys 3 → M'.entries f.toNat j = 0 := by
  have h2 := levelIndex_lt phys 2
  have h3 := levelIndex_lt phys 3
  rw [Kernel.bind_some (followTable_fresh hz ha)]
  generalize hm : (M.mem.write f.toNat (List.replicate frameSize 0)).write64 (t + 8 * levelIndex phys 2)
    (f ||| (PRESENT ||| WRITABLE)) = m
  obtain ⟨hout, hslot, hzero⟩ := zeroed_link_entries hal (by omega) hm.symm
  refine ⟨⟨m.write64 (f.toNat + 8 * levelIndex phys 3) (mmioEntry phys), M.cr3, frames⟩, rfl, rfl,
    fun a h1 h2 => ?_, ?_, fun j hj hne3 => ?_⟩
  · exact (Memory.write64_outside (by omega)).trans (hout a h2 (by omega))
  · exact (Memory.read64_write64_disjoint (by omega)).trans hslot
  · exact (Memory.read64_write64_disjoint (by omega)).trans (hzero j hj)

theorem hole_breaks (hlt : phys < userTop) (hroot : M'.root = M.root) {t : Nat}
    (hbefore : ∀ j < 512, pageOf M.entries M.root
      [levelIndex phys 0, levelIndex phys 1, levelIndex phys 2, j] ≠ none)
    (hd : descend M'.entries M.root [levelIndex phys 0, levelIndex phys 1, levelIndex phys 2] = some t)
    (hz : ∀ j < 512, j ≠ levelIndex phys 3 → M'.entries t j = 0) : ¬MmioMapped M M' phys := by
  intro h
  have hlt' : phys.toNat < 0x800000000000 := UInt64.lt_iff_toNat_lt.mp hlt
  obtain ⟨g0, g1, g2, g3⟩ := levelIndex_eq phys
  -- a neighbour in the same last-level table
  obtain ⟨j, hj, hne⟩ : ∃ j, j < 2 ∧ j ≠ levelIndex phys 3 := by
    by_cases h0 : levelIndex phys 3 = 0
    · exact ⟨1, by omega, by omega⟩
    · exact ⟨0, by omega, fun hc => h0 hc.symm⟩
  let w := UInt64.ofNat (phys.toNat / 2 ^ 21 * 2 ^ 21 + 4096 * j)
  have hw : w.toNat = phys.toNat / 2 ^ 21 * 2 ^ 21 + 4096 * j := by
    rw [UInt64.toNat_ofNat']
    omega
  have hwlt : w < userTop := by
    rw [UInt64.lt_iff_toNat_lt, hw]
    show _ < 0x800000000000
    omega
  have hidx : indices w = [levelIndex phys 0, levelIndex phys 1, levelIndex phys 2, j] := by
    obtain ⟨w0, w1, w2, w3⟩ := levelIndex_eq w
    simp only [indices, List.cons.injEq, and_true]
    rw [g0, g1, g2, w0, w1, w2, w3, hw]
    clear hbefore hz hwlt w0 w1 w2 w3 g0 g1 g2 g3
    refine ⟨?_, ?_, ?_, ?_⟩
    all_goals omega
  have hkeep := h.others w hwlt (by omega)
  rw [Machine.pageAt, Machine.pageAt, hroot, hidx] at hkeep
  apply hbefore j (by omega)
  rw [← hkeep]
  show pageOf M'.entries M.root ([levelIndex phys 0, levelIndex phys 1, levelIndex phys 2] ++ [j]) = none
  rw [pageOf, walk_append hd (List.cons_ne_nil _ _), walk_cons_absent, Option.map_none, Option.map_none]
  rw [hz j (by omega) hne]
  rfl

theorem stray_breaks {s : Nat} (hs : s % 4096 + 8 ≤ 4096) (hn : ¬M.HasTable (s / 4096 * 4096))
    (hal : phys.toNat % 4096 = 0) (h0 : M.mem.read64 s = 0) :
    ¬MmioMapped M { M with mem := M.mem.write64 s (mmioEntry phys) } phys := by
  intro h
  have hdiff : ∃ k < 8, M.mem.write64 s (mmioEntry phys) (s + k) ≠ M.mem (s + k) := by
    by_contra hc
    simp only [not_exists, not_and, not_not] at hc
    have hsame := Memory.read64_congr hc
    rw [Memory.read64_write64_self, h0] at hsame
    have hpr := (mmioEntry_flags hal).1
    rw [hsame] at hpr
    cases hpr
  obtain ⟨k, hk, hne⟩ := hdiff
  have hpage : (s + k) / 4096 * 4096 = s / 4096 * 4096 := by omega
  rcases h.writes (s + k) hne with ht | ⟨hfree, hused⟩
  · rw [hpage] at ht
    exact hn ht
  · rw [hfree] at hused
    cases hused

theorem descend_three {E : Entries} {root i j k : Nat} {e₀ e₁ e₂ : UInt64} (h0 : E root i = e₀)
    (hl0 : isLink e₀ = true) (h1 : E (target e₀) j = e₁) (hl1 : isLink e₁ = true) (h2 : E (target e₁) k = e₂)
    (hl2 : isLink e₂ = true) : descend E root [i, j, k] = some (target e₂) := by
  simp only [descend, h0, hl0, h1, hl1, h2, hl2, if_true]

section Breaks

variable (hT : MmioTables M) (hal : phys.toNat % 4096 = 0) (hge : initialMapSize ≤ phys)
  (hz : M.pml4e phys &&& ~~~0xFFF ≠ 0)

include hT hal hge hz

theorem not_law (hrun : mmioFrom (M.pml4e phys &&& ~~~0xFFF).toNat phys M = (some phys, M'))
    (h : ¬MmioMapped M M' phys) : ¬MmioLaw M phys := by
  intro hlaw
  apply h (hlaw phys M' _)
  rw [mapMmioPage_eq hT hal hge, if_neg hz, hrun]

variable (hlt : phys < userTop)

include hlt

omit hal hge in
theorem upper_tables : M.HasTable M.root ∧ M.HasTable (target (M.pml4e phys)) ∧
    target (M.pml4e phys) ≠ M.root := by
  obtain ⟨s0, s1, -⟩ := slots_of_indices hlt
  have hl := (pml4e_field hT hlt hz).1
  refine ⟨⟨[], s0.tablePath, rfl⟩, ⟨_, s1.tablePath, descend_pdpt hl⟩, fun he => ?_⟩
  have hd := descend_pdpt hl
  rw [he] at hd
  exact absurd (hT.wf.tree s1.tablePath s0.tablePath hd rfl) (List.cons_ne_nil _ _)

theorem gib_zero_breaks {f g : Nat} (hne : f ≠ g) (hf : FreeFrame M f) (hg : FreeFrame M g)
    (hpr : present (M.pdpte phys) = true) (hh : huge (M.pdpte phys) = true)
    (hx : M.pdpte phys &&& ~~~0xFFF = 0) : ¬MmioLaw M phys := by
  obtain ⟨hl, hfield⟩ := pml4e_field hT hlt hz
  obtain ⟨htr, ht1, hrt⟩ := upper_tables hT hz hlt
  have halr := (hT.aligned htr).1
  have hal1 := (hT.aligned ht1).1
  have h1 := levelIndex_lt phys 1
  obtain ⟨f₁, frames₁, ha₁⟩ := Frames.allocFrames_one_of_free hf.1 hf.2.1 hf.2.2
  obtain ⟨hal₁, -, hlow₁, hnew₁, -, hbits₁⟩ := hT.fresh_frame ha₁
  -- of the two free frames one is left
  obtain ⟨n, hn1, hnm, hn⟩ : ∃ n, 1 ≤ n ∧ n < maxFrames ∧ frames₁.bitIsUsed n = false := by
    by_cases he : f * 4096 = f₁.toNat
    · refine ⟨g, hg.1, hg.2.1, ?_⟩
      rw [← Bool.not_eq_true, hbits₁, hg.2.2]
      simp only [Bool.false_eq_true, false_or]
      omega
    · refine ⟨f, hf.1, hf.2.1, ?_⟩
      rw [← Bool.not_eq_true, hbits₁, hf.2.2]
      simpa using he
  obtain ⟨f₂, frames₂, ha₂⟩ := Frames.allocFrames_one_of_free hn1 hnm hn
  obtain ⟨n₂, hf₂, -, -, hm₂, hclear, -⟩ := Frames.allocFrames_spec ha₂
  simp only [frameSize, maxFrames, bootMappedEnd] at hf₂ hm₂
  have hother : ∀ t, t % 4096 = 0 → M.HasTable t ∨ t = f₁.toNat → t ≠ f₂.toNat := by
    rintro t hta ht rfl
    have hc := hclear n₂ le_rfl (by omega)
    rw [← Bool.not_eq_true, hbits₁] at hc
    refine hc (ht.imp (fun ht => ?_) fun ht => by omega)
    have hu := hT.used _ ht
    rwa [show f₂.toNat / 4096 = n₂ by omega] at hu
  -- the memory after the first new table has been linked
  generalize hm : (M.mem.write f₁.toNat (List.replicate frameSize 0)).write64
    (target (M.pml4e phys) + 8 * levelIndex phys 1) (f₁ ||| (PRESENT ||| WRITABLE)) = m
  have hne1 : target (M.pml4e phys) ≠ f₁.toNat := fun he => hnew₁ (he ▸ ht1)
  obtain ⟨hout₁, hslot₁, hzero₁⟩ := zeroed_link_entries hal₁ (by omega) hm.symm
  obtain ⟨M', hrun, hcr3, hout, hslot, hhole⟩ := mmio_last_fresh phys (M := ⟨m, M.cr3, frames₁⟩) hal₁
    (by show entriesOf m _ _ &&& _ = 0; rw [hzero₁ _ (levelIndex_lt phys 2)]; rfl) ha₂ (by omega)
    (hother _ hal₁ (Or.inr rfl))
  have hroot : M'.root = M.root := by rw [Machine.root, hcr3]; rfl
  have hlink₁ := freshLink_spec hal₁ (by omega)
  have hlink₂ := freshLink_spec (f := f₂) (by omega) (by omega)
  have he0 : M'.entries M.root (levelIndex phys 0) = M.pml4e phys := by
    refine entriesOf_congr halr (levelIndex_lt phys 0) fun a ha => ?_
    rw [hout a (fun he => hnew₁ (by rw [← he, ha]; exact htr)) (by rw [ha]; exact hother _ halr (Or.inl htr))]
    exact hout₁ a (fun he => hnew₁ (by rw [← he, ha]; exact htr)) (by omega)
  have he1 : M'.entries (target (M.pml4e phys)) (levelIndex phys 1) = f₁ ||| (PRESENT ||| WRITABLE) := by
    rw [← hslot₁]
    refine entriesOf_congr hal1 h1 fun a ha => hout a ?_ ?_
    · rw [ha]
      exact hne1
    · rw [ha]
      exact hother _ hal1 (Or.inl ht1)
  have hcall : mmioFrom (M.pml4e phys &&& ~~~0xFFF).toNat phys M = (some phys, M') := by
    rw [hfield, mmioFrom, Kernel.bind_some (followTable_fresh hx ha₁), hm]
    exact hrun
  refine not_law hT hal hge hz hcall (hole_breaks hlt hroot ?_ ?_ hhole)
  · intro j _
    show pageOf M.entries M.root ([levelIndex phys 0] ++ [levelIndex phys 1, levelIndex phys 2, j]) ≠ none
    rw [pageOf, walk_append (descend_pdpt hl) (List.cons_ne_nil _ _), walk_cons_leaf hpr (Or.inr hh)]
    exact Option.some_ne_none _
  · have hd := descend_three he0 hl he1 hlink₁.1 (hlink₁.2.symm ▸ hslot) hlink₂.1
    rw [hlink₂.2] at hd
    exact hd

/-- A 1 GiB page elsewhere is taken for a table: here its memory leads on to a further
page outside the tables. -/
theorem gib_stray_breaks (hh : huge (M.pdpte phys) = true) (hx : M.pdpte phys &&& ~~~0xFFF ≠ 0) :
    ∃ M₂, SameTables M M₂ ∧ ¬MmioLaw M₂ phys := by
  obtain ⟨hl, hfield⟩ := pml4e_field hT hlt hz
  obtain ⟨-, s1, -⟩ := slots_of_indices hlt
  have h2 := levelIndex_lt phys 2
  have h3 := levelIndex_lt phys 3
  have hnat : (M.pdpte phys).toNat / 4096 % 512 ^ 2 = 0 := hT.natural s1 (by simp) (descend_pdpt hl) hh
  have hX := toNat_mask (M.pdpte phys)
  generalize hXe : M.pdpte phys &&& ~~~0xFFF = X at hX hx
  have hXne : X.toNat ≠ 0 := fun h0 => hx (UInt64.toNat_inj.mp h0)
  have hXlt := X.toNat_lt
  have hY : (X + 4096).toNat = X.toNat + 4096 := by
    rw [UInt64.toNat_add]
    show (X.toNat + 4096) % 2 ^ 64 = _
    omega
  -- memory in which the large page, read as a table, points 4 KiB further
  let m := (M.mem.write64 (X.toNat + 8 * levelIndex phys 2) (X + 4096)).write64
    ((X + 4096).toNat + 8 * levelIndex phys 3) 0
  have hsame : SameTables M ⟨m, M.cr3, M.frames⟩ := by
    refine ⟨rfl, fun a ht => ?_, hT.used⟩
    have hlow := (hT.aligned ht).2
    exact (Memory.write64_outside (by omega)).trans (Memory.write64_outside (by omega))
  have hT₂ := hsame.mmioTables hT
  have hread : Machine.entries ⟨m, M.cr3, M.frames⟩ X.toNat (levelIndex phys 2) &&& ~~~0xFFF = X + 4096 := by
    show m.read64 (X.toNat + 8 * levelIndex phys 2) &&& ~~~0xFFF = X + 4096
    rw [Memory.read64_write64_disjoint (by omega), Memory.read64_write64_self, ← UInt64.toNat_inj, toNat_mask]
    omega
  refine ⟨_, hsame, not_law hT₂ hal hge ((hsame.pml4e_eq hT).symm ▸ hz) ?_ (stray_breaks
    (s := (X + 4096).toNat + 8 * levelIndex phys 3) (by omega) (fun ht => ?_) hal (Memory.read64_write64_self 0))⟩
  · have hpd : followTable (target (M.pml4e phys) + 8 * levelIndex phys 1) ⟨m, M.cr3, M.frames⟩ =
        (some X, ⟨m, M.cr3, M.frames⟩) := by
      have hf := followTable_field (M := ⟨m, M.cr3, M.frames⟩) (t := target (M.pml4e phys)) (i := levelIndex phys 1)
      have he := hsame.entries_eq hT.toPaged ⟨_, s1.tablePath, descend_pdpt hl⟩ s1.lt
      rw [he, show M.entries (target (M.pml4e phys)) (levelIndex phys 1) = M.pdpte phys from rfl, hXe] at hf
      exact hf hx
    have hpt := followTable_field (M := ⟨m, M.cr3, M.frames⟩) (t := X.toNat) (i := levelIndex phys 2)
    rw [hread] at hpt
    rw [hsame.pml4e_eq hT, hfield, mmioFrom, Kernel.bind_some hpd,
      Kernel.bind_some (hpt fun h0 => by rw [h0] at hY; exact absurd hY (by simp))]
    rfl
  · have hlow := (hT₂.aligned ht).2
    omega

section Mib

variable (hl1 : isLink (M.pdpte phys) = true) (hpr : present (M.pde phys) = true) (hh : huge (M.pde phys) = true)

include hl1

omit hal hge in
theorem follow_pd : M.HasTable (target (M.pdpte phys)) ∧
    followTable (target (M.pml4e phys) + 8 * levelIndex phys 1) M = (some (M.pdpte phys &&& ~~~0xFFF), M) ∧
      (M.pdpte phys &&& ~~~0xFFF).toNat = target (M.pdpte phys) := by
  obtain ⟨hl, -⟩ := pml4e_field hT hlt hz
  obtain ⟨-, s1, s2, -⟩ := slots_of_indices hlt
  have ht2 : M.HasTable (target (M.pdpte phys)) := ⟨_, s2.tablePath, descend_pd hl hl1⟩
  have hnat : (M.pdpte phys &&& ~~~0xFFF).toNat = target (M.pdpte phys) := by
    rw [toNat_mask]
    exact (target_of_lt (hT.wf.low s1 (by simp) (descend_pdpt hl) hl1)).symm
  refine ⟨ht2, followTable_field fun h0 => hT.nonzero _ ht2 ?_, hnat⟩
  rw [← hnat]
  exact congrArg UInt64.toNat h0

omit hal hge in
theorem pd_apart : target (M.pdpte phys) ≠ M.root ∧ target (M.pdpte phys) ≠ target (M.pml4e phys) := by
  obtain ⟨hl, -⟩ := pml4e_field hT hlt hz
  obtain ⟨s0, s1, s2, -⟩ := slots_of_indices hlt
  have hd := descend_pd hl hl1
  refine ⟨fun he => ?_, fun he => ?_⟩
  · rw [he] at hd
    exact absurd (hT.wf.tree s2.tablePath s0.tablePath hd rfl) (List.cons_ne_nil _ _)
  · rw [he] at hd
    exact absurd (hT.wf.tree s2.tablePath s1.tablePath hd (descend_pdpt hl)) (by simp)

omit hal hge in
theorem mib_run (hx : M.pde phys &&& ~~~0xFFF ≠ 0) :
    mmioFrom (M.pml4e phys &&& ~~~0xFFF).toNat phys M = (some phys, { M with
      mem := M.mem.write64 ((M.pde phys &&& ~~~0xFFF).toNat + 8 * levelIndex phys 3) (mmioEntry phys) }) := by
  obtain ⟨-, hpd, hnat⟩ := follow_pd hT hz hlt hl1
  rw [(pml4e_field hT hlt hz).2, mmioFrom, Kernel.bind_some hpd, hnat, Kernel.bind_some (followTable_field hx)]
  rfl

omit hal hge in
theorem mib_run_same {M₂ : Machine} (hsame : SameTables M M₂) (hx : M.pde phys &&& ~~~0xFFF ≠ 0) :
    MmioTables M₂ ∧ M₂.pde phys = M.pde phys ∧ M₂.pml4e phys &&& ~~~0xFFF ≠ 0 ∧ isLink (M₂.pdpte phys) = true ∧
      mmioFrom (M₂.pml4e phys &&& ~~~0xFFF).toNat phys M₂ = (some phys, { M₂ with
        mem := M₂.mem.write64 ((M₂.pde phys &&& ~~~0xFFF).toNat + 8 * levelIndex phys 3) (mmioEntry phys) }) := by
  obtain ⟨hl, -⟩ := pml4e_field hT hlt hz
  have hT₂ := hsame.mmioTables hT
  have e2 := hsame.pde_eq hT hlt hl hl1
  rw [← hsame.pml4e_eq hT] at hz
  rw [← hsame.pdpte_eq hT hlt hl] at hl1
  rw [← e2] at hx
  exact ⟨hT₂, e2, hz, hl1, mib_run hT₂ hz hlt hl1 hx⟩

theorem mib_stray_breaks (hx : M.pde phys &&& ~~~0xFFF ≠ 0) (hn : ¬M.HasTable (M.pde phys &&& ~~~0xFFF).toNat) :
    ∃ M₂, SameTables M M₂ ∧ ¬MmioLaw M₂ phys := by
  obtain ⟨hl, -⟩ := pml4e_field hT hlt hz
  have h3 := levelIndex_lt phys 3
  have hX := toNat_mask (M.pde phys)
  generalize hXe : (M.pde phys &&& ~~~0xFFF).toNat = X at hn hX
  let m := M.mem.write64 (X + 8 * levelIndex phys 3) 0
  have hsame : SameTables M ⟨m, M.cr3, M.frames⟩ := by
    refine ⟨rfl, fun a ht => Memory.write64_outside ?_, hT.used⟩
    have hne : a / 4096 * 4096 ≠ X := fun he => hn (he ▸ ht)
    omega
  obtain ⟨hT₂, e2, hz₂, hl1₂, hrun⟩ := mib_run_same hT hz hlt hl1 hsame hx
  refine ⟨_, hsame, not_law hT₂ hal hge hz₂ hrun ?_⟩
  rw [e2, hXe]
  refine stray_breaks (by omega) (fun ht => hn ?_) hal (Memory.read64_write64_self 0)
  rw [hsame.hasTable hT.toPaged, show (X + 8 * levelIndex phys 3) / 4096 * 4096 = X by omega] at ht
  exact ht

include hpr hh

theorem mib_zero_breaks {f : Nat} (hf : FreeFrame M f) (hx : M.pde phys &&& ~~~0xFFF = 0) : ¬MmioLaw M phys := by
  obtain ⟨hl, hfield⟩ := pml4e_field hT hlt hz
  obtain ⟨htr, ht1, -⟩ := upper_tables hT hz hlt
  obtain ⟨ht2, hpd, hnat⟩ := follow_pd hT hz hlt hl1
  obtain ⟨hr2, h12⟩ := pd_apart hT hz hlt hl1
  obtain ⟨f₁, frames, ha⟩ := Frames.allocFrames_one_of_free hf.1 hf.2.1 hf.2.2
  obtain ⟨hal₁, -, hlow₁, hnew₁, -, -⟩ := hT.fresh_frame ha
  have hapart : ∀ t, M.HasTable t → t ≠ f₁.toNat := fun t ht he => hnew₁ (he ▸ ht)
  obtain ⟨M', hrun, hcr3, hout, hslot, hhole⟩ := mmio_last_fresh phys (hT.aligned ht2).1 hx ha hal₁
    (hapart _ ht2)
  have hroot : M'.root = M.root := by rw [Machine.root, hcr3]; rfl
  have hlink := freshLink_spec hal₁ (by omega)
  have he0 : M'.entries M.root (levelIndex phys 0) = M.pml4e phys :=
    entriesOf_congr (hT.aligned htr).1 (levelIndex_lt phys 0) fun a ha =>
      hout a (by rw [ha]; exact hr2.symm) (by rw [ha]; exact hapart _ htr)
  have he1 : M'.entries (target (M.pml4e phys)) (levelIndex phys 1) = M.pdpte phys :=
    entriesOf_congr (hT.aligned ht1).1 (levelIndex_lt phys 1) fun a ha =>
      hout a (by rw [ha]; exact h12.symm) (by rw [ha]; exact hapart _ ht1)
  have hcall : mmioFrom (M.pml4e phys &&& ~~~0xFFF).toNat phys M = (some phys, M') := by
    rw [hfield, mmioFrom, Kernel.bind_some hpd, hnat]
    exact hrun
  refine not_law hT hal hge hz hcall (hole_breaks hlt hroot ?_ ?_ hhole)
  · intro j _
    show pageOf M.entries M.root ([levelIndex phys 0, levelIndex phys 1] ++ [levelIndex phys 2, j]) ≠ none
    rw [pageOf, walk_append (descend_pd hl hl1) (List.cons_ne_nil _ _), walk_cons_leaf hpr (Or.inr hh)]
    exact Option.some_ne_none _
  · have hd := descend_three he0 hl he1 hl1 hslot hlink.1
    rw [hlink.2] at hd
    exact hd

/-- A 2 MiB page that begins with a table: the entry lands in that table, and the page is
mapped where it was or not at all. -/
theorem mib_table_breaks (ht : M.HasTable (M.pde phys &&& ~~~0xFFF).toNat) :
    ∃ M₂, SameTables M M₂ ∧ ¬MmioLaw M₂ phys := by
  obtain ⟨hl, -⟩ := pml4e_field hT hlt hz
  obtain ⟨-, -, s2, -⟩ := slots_of_indices hlt
  have hlt' : phys.toNat < 0x800000000000 := UInt64.lt_iff_toNat_lt.mp hlt
  have hge' : 0x40000000 ≤ phys.toNat := UInt64.le_iff_toNat_le.mp hge
  have h3 := levelIndex_lt phys 3
  have hx : M.pde phys &&& ~~~0xFFF ≠ 0 := fun h0 => hT.nonzero _ ht (congrArg UInt64.toNat h0)
  have hnat : (M.pde phys).toNat / 4096 % 512 ^ 1 = 0 := hT.natural s2 (by simp) (descend_pd hl hl1) hh
  obtain ⟨hXal, hXlow⟩ := hT.aligned ht
  have hX := toNat_mask (M.pde phys)
  generalize hXe : (M.pde phys &&& ~~~0xFFF).toNat = X at ht hX hXal hXlow
  let m := M.mem.write phys.toNat (List.replicate 4096 0)
  have hsame : SameTables M ⟨m, M.cr3, M.frames⟩ := by
    refine ⟨rfl, fun a ha => Memory.write_outside ?_, hT.used⟩
    have hlow := (hT.aligned ha).2
    omega
  obtain ⟨hT₂, e2, hz₂, hl1₂, hrun⟩ := mib_run_same hT hz hlt hl1 hsame hx
  refine ⟨_, hsame, not_law hT₂ hal hge hz₂ hrun fun hmap => ?_⟩
  have hmaps := hmap.maps
  rw [e2, hXe, Machine.translate, if_pos (Or.inl hlt)] at hmaps
  obtain ⟨hv1, -, hv2, hv3⟩ := mmioEntry_flags hal
  have htarget : target (mmioEntry phys) = phys.toNat := by
    rw [target, hv3, frameNumber]
    omega
  -- before the call the walk ends on the large page
  have hbefore : ∃ b, walk (entriesOf m) M.root (indices phys) = some ⟨M.pde phys, [levelIndex phys 3], b⟩ := by
    have hd := descend_pd (M := ⟨m, M.cr3, M.frames⟩) (pml4e_field hT₂ hlt hz₂).1 hl1₂
    have hw := walk_append hd (List.cons_ne_nil (levelIndex phys 2) [levelIndex phys 3])
    rw [← e2] at hpr hh
    rw [walk_cons_leaf hpr (Or.inr hh)] at hw
    rw [← e2]
    exact ⟨_, hw⟩
  obtain ⟨b, hbefore⟩ := hbefore
  have hroot : Machine.root ⟨m, M.cr3, M.frames⟩ = M.root := rfl
  have hafter : walk (entriesOf (m.write64 (X + 8 * levelIndex phys 3) (mmioEntry phys))) M.root (indices phys) =
        some ⟨M.pde phys, [levelIndex phys 3], b⟩ ∨
      walk (entriesOf (m.write64 (X + 8 * levelIndex phys 3) (mmioEntry phys))) M.root (indices phys) = none := by
    refine walk_lost (isLink_iff.mpr ⟨hv1, hv2⟩) (fun j hj => ?_) (fun t i hta hi => ?_)
      (pagePath_indices hlt).lower.1 hT.wf.root_aligned hbefore (List.cons_ne_nil _ _)
    · rw [htarget, entriesOf, Memory.read64_write64_disjoint (by omega), Memory.read64_zeroed (by omega)]
    · by_cases he : t + 8 * i = X + 8 * levelIndex phys 3
      · right
        rw [entriesOf, he, Memory.read64_write64_self]
      · left
        exact Memory.read64_write64_disjoint (by omega)
  obtain ⟨l, hw, hpage⟩ := Option.map_eq_some_iff.mp hmaps
  replace hw : walk (entriesOf (m.write64 (X + 8 * levelIndex phys 3) (mmioEntry phys))) M.root
    (indices phys) = some l := hw
  rcases hafter with ha | ha
  · rw [ha] at hw
    rw [← Option.some.inj hw] at hpage
    simp only [Leaf.page, frameNumber, offset, List.length_cons, List.length_nil, List.foldl_cons,
      List.foldl_nil] at hpage
    omega
  · rw [ha] at hw
    cases hw

end Mib

end Breaks

/-! ## The exact condition -/

/-- A frame number of the allocator that no table has. -/
def Spare (M : Machine) (f : Nat) : Prop := 1 ≤ f ∧ f < maxFrames ∧ ¬M.HasTable (f * 4096)

def twoFree (f g : Nat) : Frames := (Frames.reserved.bitSet f false).bitSet g false

theorem twoFree_used (f g n : Nat) : (twoFree f g).bitIsUsed n = true ↔ n ≠ f ∧ n ≠ g := by
  have hall : Frames.reserved.bitIsUsed n = true := by
    rw [Frames.bitIsUsed_eq]
    show Nat.testBit (2 ^ 64 - 1) (n % 64) = true
    rw [Nat.testBit_two_pow_sub_one, decide_eq_true_iff]
    omega
  rw [twoFree, Frames.bitIsUsed_bitSet, Frames.bitIsUsed_bitSet, hall]
  by_cases hg : n = g <;> by_cases hf : n = f <;> simp [hg, hf]

theorem sameTables_twoFree (hT : MmioTables M) {f g : Nat} (hf : Spare M f) (hg : Spare M g) :
    SameTables M ⟨M.mem, M.cr3, twoFree f g⟩ ∧ FreeFrame ⟨M.mem, M.cr3, twoFree f g⟩ f ∧
      FreeFrame ⟨M.mem, M.cr3, twoFree f g⟩ g := by
  have hfree : ∀ n, n = f ∨ n = g → (twoFree f g).bitIsUsed n = false := by
    intro n hn
    rw [← Bool.not_eq_true, twoFree_used]
    omega
  have hused : ∀ t n, M.HasTable t → Spare M n → t / 4096 ≠ n := by
    rintro t n ht hn rfl
    have hta := (hT.aligned ht).1
    exact hn.2.2 (by rwa [show t / 4096 * 4096 = t by omega])
  exact ⟨⟨rfl, fun _ _ => rfl, fun t ht => (twoFree_used f g _).mpr ⟨hused t f ht hf, hused t g ht hg⟩⟩,
    ⟨hf.1, hf.2.1, hfree f (Or.inl rfl)⟩, ⟨hg.1, hg.2.1, hfree g (Or.inr rfl)⟩⟩

theorem exists_break (hT : MmioTables M) {f g : Nat} (hne : f ≠ g) (hf : Spare M f) (hg : Spare M g)
    (hal : phys.toNat % 4096 = 0) (hge : initialMapSize ≤ phys) (hs : ¬MmioSafe M phys) :
    ∃ M₂, SameTables M M₂ ∧ ¬MmioLaw M₂ phys := by
  obtain ⟨hz, hunsafe⟩ := not_or.mp hs
  obtain ⟨hsame, hf₂, hg₂⟩ := sameTables_twoFree hT hf hg
  have hT₂ := hsame.mmioTables hT
  by_cases hlt : phys < userTop
  · obtain ⟨hl, -⟩ := pml4e_field hT hlt hz
    obtain ⟨-, s1, s2, -⟩ := slots_of_indices hlt
    by_cases hh : huge (M.pdpte phys) = true
    · by_cases hx : M.pdpte phys &&& ~~~0xFFF = 0
      · have hpr := hT.wf.present_of_huge s1 (by simp) (descend_pdpt hl) hh
        exact ⟨_, hsame, gib_zero_breaks hT₂ hal hge hz hlt hne hf₂ hg₂ hpr hh hx⟩
      · exact gib_stray_breaks hT hal hge hz hlt hh hx
    · rw [Bool.not_eq_true] at hh
      have hpde : present (M.pdpte phys) = true ∧ huge (M.pde phys) = true := by
        by_contra hc
        refine hunsafe ⟨hlt, hh, fun hpr => ?_⟩
        rw [← Bool.not_eq_true]
        exact fun h2 => hc ⟨hpr, h2⟩
      obtain ⟨hpr1, hh2⟩ := hpde
      have hl1 := isLink_iff.mpr ⟨hpr1, hh⟩
      have hpr := hT.wf.present_of_huge s2 (by simp) (descend_pd hl hl1) hh2
      by_cases hx : M.pde phys &&& ~~~0xFFF = 0
      · exact ⟨_, hsame, mib_zero_breaks hT₂ hal hge hz hlt hl1 hpr hh2 hf₂ hx⟩
      · by_cases ht : M.HasTable (M.pde phys &&& ~~~0xFFF).toNat
        · exact mib_table_breaks hT hal hge hz hlt hl1 hpr hh2 ht
        · exact mib_stray_breaks hT hal hge hz hlt hl1 hx ht
  · obtain ⟨M', hrun⟩ := mmioFrom_returns phys hne hf₂ hg₂ (M.pml4e phys &&& ~~~0xFFF).toNat
    exact ⟨_, hsame, not_law hT₂ hal hge hz hrun fun h => translate_high hlt h.maps⟩

/-- MMIO mapping frame law: given tables keep it, whatever memory and allocator state is
around them, exactly when no large page lies on the way to a lower-half page. -/
theorem mmio_mapping_iff (hT : MmioTables M) {f g : Nat} (hne : f ≠ g) (hf : Spare M f) (hg : Spare M g)
    (hal : phys.toNat % 4096 = 0) (hge : initialMapSize ≤ phys) :
    (∀ M₂, SameTables M M₂ → MmioLaw M₂ phys) ↔ MmioSafe M phys := by
  constructor
  · intro h
    by_contra hs
    obtain ⟨M₂, hsame, hbad⟩ := exists_break hT hne hf hg hal hge hs
    exact hbad (h M₂ hsame)
  · intro hs M₂ hsame
    exact (hsame.safe hT hs).law (hsame.mmioTables hT) hal hge

/-- A root table at 0x1000 and below it one table at 0x2000, whose entry for the second
GiB is `e`. -/
def Machine.pair (e : UInt64) (frames : Frames) : Machine :=
  ⟨(Memory.write64 (fun _ => 0) 0x1000 0x2003).write64 0x2008 e, 0x1000, frames⟩

section

variable (e : UInt64) (frames : Frames) {p : List Nat} {t i : Nat}

theorem pair_root : (Machine.pair e frames).root = 0x1000 := by
  show ((0x1000 : UInt64) &&& ~~~0xFFF).toNat = 0x1000
  decide

theorem pair_upper (hi : i < 512) : (Machine.pair e frames).entries 0x1000 i = if i = 0 then 0x2003 else 0 := by
  show Memory.read64 _ (0x1000 + 8 * i) = _
  rw [Machine.pair, Memory.read64_write64_disjoint (by omega)]
  split_ifs with h0
  · rw [h0, Memory.read64_write64_self]
  · rw [Memory.read64_write64_disjoint (by omega), Memory.read64_zero]

theorem pair_lower (hi : i < 512) : (Machine.pair e frames).entries 0x2000 i = if i = 1 then e else 0 := by
  show Memory.read64 _ (0x2000 + 8 * i) = _
  rw [Machine.pair]
  split_ifs with h0
  · rw [h0, Memory.read64_write64_self]
  · rw [Memory.read64_write64_disjoint (by omega), Memory.read64_write64_disjoint (by omega), Memory.read64_zero]

variable {e}

theorem pair_descend (he : isLink e = false) (hp : TablePath p)
    (hd : descend (Machine.pair e frames).entries (Machine.pair e frames).root p = some t) :
    p = [] ∧ t = 0x1000 ∨ p = [0] ∧ t = 0x2000 := by
  have hfirst : isLink 0x2003 = true ∧ target 0x2003 = 0x2000 := ⟨by decide, by decide⟩
  rw [pair_root] at hd
  cases p with
  | nil =>
    cases hd
    exact Or.inl ⟨rfl, rfl⟩
  | cons i p =>
    rw [descend, pair_upper e frames (hp.lower.1 i List.mem_cons_self)] at hd
    split_ifs at hd with h0 hl hl
    · rw [hfirst.2] at hd
      cases p with
      | nil =>
        cases hd
        rw [h0]
        exact Or.inr ⟨rfl, rfl⟩
      | cons j p =>
        rw [descend, pair_lower e frames (hp.lower.1 j (by simp))] at hd
        split_ifs at hd with h1 hl' hl'
        · rw [he] at hl'
          cases hl'
        · cases hl'
    · cases hl

theorem pair_slot (he : isLink e = false) (hs : Slot p i)
    (hd : descend (Machine.pair e frames).entries (Machine.pair e frames).root p = some t) :
    p = [] ∧ (Machine.pair e frames).entries t i = (if i = 0 then 0x2003 else 0) ∨
      p = [0] ∧ (Machine.pair e frames).entries t i = if i = 1 then e else 0 := by
  rcases pair_descend frames he hs.tablePath hd with ⟨rfl, rfl⟩ | ⟨rfl, rfl⟩
  · exact Or.inl ⟨rfl, pair_upper e frames hs.lt⟩
  · exact Or.inr ⟨rfl, pair_lower e frames hs.lt⟩

theorem pair_hasTable (he : isLink e = false) (ht : (Machine.pair e frames).HasTable t) : t = 0x1000 ∨ t = 0x2000 := by
  obtain ⟨p, hp, hd⟩ := ht
  exact (pair_descend frames he hp hd).imp And.right And.right

theorem pair_wellFormed (he : e = 0 ∨ present e = true ∧ huge e = true) :
    WellFormed (Machine.pair e frames).entries (Machine.pair e frames).root := by
  have hnl : isLink e = false := not_link_of_leaf he
  exact
    { root_aligned := by rw [pair_root]
      root_low := by rw [pair_root]; decide
      tree := fun hp hq h1 h2 => by
        rcases pair_descend frames hnl hp h1 with ⟨rfl, rfl⟩ | ⟨rfl, rfl⟩ <;>
          rcases pair_descend frames hnl hq h2 with ⟨rfl, h⟩ | ⟨rfl, h⟩
        · rfl
        · cases h
        · cases h
        · rfl
      absent := fun {p t i} hs _ hd hpr => by
        rcases pair_slot frames hnl hs hd with ⟨-, hx⟩ | ⟨-, hx⟩ <;> rw [hx] at hpr ⊢ <;> split_ifs at hpr ⊢
        · cases hpr
        · rfl
        · exact he.resolve_right fun h => by rw [h.1] at hpr; cases hpr
        · rfl
      low := fun {p t i} hs _ hd hl => by
        rcases pair_slot frames hnl hs hd with ⟨-, hx⟩ | ⟨-, hx⟩ <;> rw [hx] at hl ⊢ <;> split_ifs at hl ⊢
        · decide
        · cases hl
        · rw [hnl] at hl
          cases hl
        · cases hl
      top := fun {i} hs => by
        rw [pair_root, pair_upper e frames hs.lt]
        split_ifs <;> rfl }

theorem pair_tables (h1 : frames.bitIsUsed 1 = true) (h2 : frames.bitIsUsed 2 = true)
    (he : e = 0 ∨ present e = true ∧ huge e = true ∧ e.toNat / 4096 % 512 ^ 2 = 0) :
    MmioTables (Machine.pair e frames) ∧ ∀ t, (Machine.pair e frames).HasTable t → t = 0x1000 ∨ t = 0x2000 := by
  have hleaf : e = 0 ∨ present e = true ∧ huge e = true := he.imp id fun h => ⟨h.1, h.2.1⟩
  have hnl : isLink e = false := not_link_of_leaf hleaf
  refine ⟨⟨⟨pair_wellFormed frames hleaf, fun t ht => ?_⟩, ?_, fun t ht => ?_, fun {p t i} hs hlev hd hh => ?_⟩,
    fun t ht => pair_hasTable frames hnl ht⟩
  · rcases pair_hasTable frames hnl ht with rfl | rfl
    · exact h1
    · exact h2
  · show (0x1000 : UInt64).toNat % 4096 = 0
    decide
  · rcases pair_hasTable frames hnl ht with rfl | rfl <;> decide
  · rcases pair_slot frames hnl hs hd with ⟨-, hx⟩ | ⟨rfl, hx⟩ <;> rw [hx] at hh ⊢ <;> split_ifs at hh ⊢
    · cases hh
    · cases hh
    · rcases he with rfl | ⟨-, -, hn⟩
      · cases hh
      · exact hn
    · cases hh

end

theorem mmio_mapping_empty : MmioTables (Machine.pair 0 (Boot.limine [⟨0x3000, 0x8000, 0⟩]).frames) ∧
    ∀ M₂, SameTables (Machine.pair 0 (Boot.limine [⟨0x3000, 0x8000, 0⟩]).frames) M₂ → MmioLaw M₂ 0x40000000 := by
  obtain ⟨hT, htab⟩ := pair_tables (e := 0) (Boot.limine [⟨0x3000, 0x8000, 0⟩]).frames
    (by decide +kernel) (by decide +kernel) (Or.inl rfl)
  have hspare : ∀ f, f = 3 ∨ f = 4 → Spare (Machine.pair 0 (Boot.limine [⟨0x3000, 0x8000, 0⟩]).frames) f := by
    rintro f hf
    refine ⟨by omega, by rw [maxFrames, bootMappedEnd, frameSize]; omega, fun ht => ?_⟩
    have := htab _ ht
    omega
  refine ⟨hT, (mmio_mapping_iff hT (f := 3) (g := 4) (by decide) (hspare 3 (Or.inl rfl)) (hspare 4 (Or.inr rfl))
    (by decide) (by decide)).mpr ?_⟩
  exact Or.inr ⟨by decide, by decide +kernel, fun h => absurd h (by decide +kernel)⟩

/-- With a 1 GiB page there, the call stores a table entry into the memory of the page. -/
theorem mmio_mapping_large_page : MmioTables (Machine.pair 0x40000083 (Boot.limine [⟨0x3000, 0x8000, 0⟩]).frames) ∧
    ¬MmioLaw (Machine.pair 0x40000083 (Boot.limine [⟨0x3000, 0x8000, 0⟩]).frames) 0x40000000 := by
  obtain ⟨hT, htab⟩ := pair_tables (e := 0x40000083) (Boot.limine [⟨0x3000, 0x8000, 0⟩]).frames
    (by decide +kernel) (by decide +kernel) (Or.inr ⟨by decide, by decide, by decide⟩)
  refine ⟨hT, fun hlaw => ?_⟩
  have hok : (mapMmioPage 0x40000000 (Machine.pair 0x40000083 (Boot.limine [⟨0x3000, 0x8000, 0⟩]).frames)).1 =
      some 0x40000000 := by decide +kernel
  have hbyte : (mapMmioPage 0x40000000 (Machine.pair 0x40000083 (Boot.limine [⟨0x3000, 0x8000, 0⟩]).frames)).2.mem
      0x40000000 ≠ (Machine.pair 0x40000083 (Boot.limine [⟨0x3000, 0x8000, 0⟩]).frames).mem 0x40000000 := by
    decide +kernel
  have hused : (Machine.pair 0x40000083 (Boot.limine [⟨0x3000, 0x8000, 0⟩]).frames).frames.bitIsUsed
      (0x40000000 / 4096) = true := by decide +kernel
  rcases (hlaw _ _ (Prod.ext hok rfl)).writes _ hbyte with ht | ⟨hfree, -⟩
  · exact absurd (htab _ ht) (by decide)
  · rw [hused] at hfree
    cases hfree

end Pippin.Mm
