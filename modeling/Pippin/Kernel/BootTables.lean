import Pippin.Lib.PageTableWindow
import Pippin.Kernel.PagingMmio

/-! The 2 MiB page tables `boot.S` brings the CPU up on: the low GiB at its own addresses
and again at the higher-half base. -/

namespace Pippin.Mm
open Mem PageTable

def Machine.physAt (M : Machine) (v : UInt64) : Option Nat :=
  (M.translate v).map fun page => page * 4096 + v.toNat % 4096

def bootWindow (v : UInt64) : Option Nat :=
  if v < initialMapSize then some v.toNat
  else if higherHalfBase ≤ v ∧ v < higherHalfBase + initialMapSize then some (v - higherHalfBase).toNat
  else none

abbrev WindowSlot (i : Nat) : Prop := i = 0 ∨ i = 256

section Windows

variable {M : Machine} {pdpt pd n : Nat} (h : Window M.entries M.root pdpt pd WindowSlot)
  (hI : Identity M.entries pd n)

include h hI

theorem physAt_eq (v : UInt64) : M.physAt v = bootWindow v := by
  obtain ⟨h0, h1, h2, h3⟩ := levelIndex_eq v
  have hpage : M.pageAt v = if WindowSlot (levelIndex v 0) ∧ levelIndex v 1 = 0 then
      some (levelIndex v 2 * 512 + levelIndex v 3) else none :=
    h.pageOf_eq hI (levelIndex_lt v 0) (levelIndex_lt v 1) (levelIndex_lt v 2) (levelIndex_lt v 3)
  have hlow : v < initialMapSize ↔ v.toNat < 0x40000000 := UInt64.lt_iff_toNat_lt
  have htop : v < userTop ↔ v.toNat < 0x800000000000 := UInt64.lt_iff_toNat_lt
  have hbase : higherHalfBase ≤ v ↔ 0xFFFF800000000000 ≤ v.toNat := UInt64.le_iff_toNat_le
  have hend : v < higherHalfBase + initialMapSize ↔ v.toNat < 0xFFFF800040000000 := UInt64.lt_iff_toNat_lt
  have hv := v.toNat_lt
  have hcanon : v < userTop ∨ higherHalfBase ≤ v ↔ v.toNat < 0x800000000000 ∨ 0xFFFF800000000000 ≤ v.toNat :=
    or_congr htop hbase
  have hslot : WindowSlot (levelIndex v 0) ∧ levelIndex v 1 = 0 ↔
      (v.toNat / 2 ^ 39 % 512 = 0 ∨ v.toNat / 2 ^ 39 % 512 = 256) ∧ v.toNat / 2 ^ 30 % 512 = 0 := by
    rw [WindowSlot, h0, h1]
  unfold Machine.physAt Machine.translate bootWindow
  rw [hpage, h2, h3]
  by_cases hin : v < initialMapSize
  · have hlt := hlow.mp hin
    rw [if_pos (hcanon.mpr (by omega)), if_pos (hslot.mpr (by omega)), if_pos hin, Option.map_some,
      Option.some.injEq]
    omega
  rw [if_neg hin]
  rw [hlow] at hin
  -- the window at the bottom and its alias at the top, then nothing
  by_cases halias : higherHalfBase ≤ v ∧ v < higherHalfBase + initialMapSize
  · have hge := hbase.mp halias.1
    have hlt := hend.mp halias.2
    have hsub : (v - higherHalfBase).toNat = v.toNat - 0xFFFF800000000000 :=
      UInt64.toNat_sub_of_le v higherHalfBase halias.1
    rw [if_pos (hcanon.mpr (by omega)), if_pos (hslot.mpr (by omega)), if_pos halias, Option.map_some, hsub,
      Option.some.injEq]
    omega
  · rw [if_neg halias]
    rw [hbase, hend] at halias
    split_ifs with hcan hin'
    · rw [hcanon] at hcan
      rw [hslot] at hin'
      omega
    · rfl
    · rfl

theorem window_leaf {v : UInt64} {l : Leaf} (hw : walk M.entries M.root (indices v) = some l) :
    l.rest.length = n ∧ PageTable.user l.entry = false :=
  h.leaf_spec hI (levelIndex_lt v 0) (levelIndex_lt v 1) (levelIndex_lt v 2) (levelIndex_lt v 3) hw

end Windows

/-! ## The tables `boot.S` builds -/

/-- The linker's symbols of `.boot.bss`; `boot_pdpt` and `boot_pd0` follow `boot_pml4`. -/
structure BootSymbols where
  bootPml4 : UInt32
  bssStart : UInt32
  bssEnd : UInt32
  aligned : bootPml4.toNat % 4096 = 0
  start : bssStart.toNat ≤ bootPml4.toNat
  stop : bootPml4.toNat + 3 * 4096 ≤ bssEnd.toNat

def BootSymbols.bootPdpt (s : BootSymbols) : UInt32 := s.bootPml4 + 4096
def BootSymbols.bootPd0 (s : BootSymbols) : UInt32 := s.bootPml4 + 8192

def movl (m : Memory) (addr eax : UInt32) : Memory := m.write addr.toNat (Bytes.toLE 4 eax.toNat)

def clearBss (s : BootSymbols) (m : Memory) : Memory :=
  m.write s.bssStart.toNat (List.replicate (s.bssEnd - s.bssStart).toNat 0)

/-- The loop over `boot_pd0`, on its registers. -/
def fillPd0 : Nat → UInt32 → UInt32 → Memory → Memory
  | 0, _, _, m => m
  | ecx + 1, edi, eax, m => fillPd0 ecx (edi + 8) (eax + 0x200000) (movl m edi eax)

/-- The stores of `_start` to the boot BSS, but for those to its stack. -/
def buildBootTables (s : BootSymbols) (m : Memory) : Memory :=
  let m := fillPd0 512 s.bootPd0 0x83 (clearBss s m)
  let m := movl m s.bootPdpt (s.bootPd0 ||| 0x3)
  let eax := s.bootPdpt ||| 0x3
  let m := movl m s.bootPml4 eax
  movl m (s.bootPml4 + 256 * 8) eax

def bootMachine (s : BootSymbols) (m : Memory) (frames : Frames) : Machine :=
  ⟨buildBootTables s m, s.bootPml4.toUInt64, frames⟩

theorem movl_eq {m : Memory} {addr eax : UInt32} (h : ∀ k < 4, m (addr.toNat + 4 + k) = 0) :
    movl m addr eax = m.write64 addr.toNat eax.toUInt64 := by
  have hz : (movl m addr eax).write (addr.toNat + 4) (List.replicate 4 0) = movl m addr eax := by
    apply Memory.write_same
    intro i hi
    rw [List.length_replicate] at hi
    rw [List.getElem_replicate, movl, Memory.write_outside (by rw [Bytes.length_toLE]; omega), h i hi]
  have happ := Memory.write_append (m := m) (a := addr.toNat) (Bytes.toLE 4 eax.toNat) (List.replicate 4 0)
  rw [Bytes.length_toLE, ← Bytes.toLE_of_lt 4 eax.toNat_lt] at happ
  rw [← hz]
  exact happ

theorem fillPd0_spec : ∀ (n : Nat) (edi eax : UInt32) (m : Memory), edi.toNat + 8 * n < 2 ^ 32 →
    eax.toNat + n * 0x200000 < 2 ^ 32 → (∀ a, edi.toNat ≤ a → a < edi.toNat + 8 * n → m a = 0) →
    (∀ j < n, entriesOf (fillPd0 n edi eax m) edi.toNat j = UInt64.ofNat (eax.toNat + j * 0x200000)) ∧
      ∀ a, a < edi.toNat ∨ edi.toNat + 8 * n ≤ a → fillPd0 n edi eax m a = m a := by
  intro n
  induction n with
  | zero =>
    intro edi eax m _ _ _
    exact ⟨nofun, fun _ _ => rfl⟩
  | succ n ih =>
    intro edi eax m hedi heax hz
    have hstep : (8 : UInt32).toNat = 8 ∧ (0x200000 : UInt32).toNat = 0x200000 := by decide
    have hedi' : (edi + 8).toNat = edi.toNat + 8 :=
      (UInt32.toNat_add edi 8).trans (Nat.mod_eq_of_lt (by omega))
    have heax' : (eax + 0x200000).toNat = eax.toNat + 0x200000 :=
      (UInt32.toNat_add eax 0x200000).trans (Nat.mod_eq_of_lt (by omega))
    have hstore : movl m edi eax = m.write64 edi.toNat eax.toUInt64 := movl_eq fun k hk => hz _ (by omega) (by omega)
    have hkeep : ∀ a, a < edi.toNat ∨ edi.toNat + 8 ≤ a → movl m edi eax a = m a := fun a ha => by
      rw [hstore, Memory.write64_outside ha]
    obtain ⟨h1, h2⟩ := ih (edi + 8) (eax + 0x200000) (movl m edi eax) (by omega) (by omega) fun a ha ha' => by
      rw [hkeep a (by omega), hz a (by omega) (by omega)]
    rw [hedi', heax'] at h1
    rw [hedi'] at h2
    refine ⟨fun j hj => ?_, fun a ha => ?_⟩
    · cases j with
      | zero =>
        have hself : entriesOf (fillPd0 (n + 1) edi eax m) edi.toNat 0 = (movl m edi eax).read64 edi.toNat :=
          Memory.read64_congr fun k hk => h2 _ (by omega)
        rw [hself, hstore, Memory.read64_write64_self, Nat.zero_mul, Nat.add_zero]
        exact (UInt64.ofNat_toNat (x := eax.toUInt64)).symm
      | succ j =>
        have haddr : edi.toNat + 8 + 8 * j = edi.toNat + 8 * (j + 1) := by omega
        have hval : eax.toNat + 0x200000 + j * 0x200000 = eax.toNat + (j + 1) * 0x200000 := by omega
        have hj' := h1 j (by omega)
        rw [entriesOf, haddr, hval] at hj'
        exact hj'
    · exact (h2 a (by omega)).trans (hkeep a (by omega))

section Boot

variable (s : BootSymbols) (m : Memory)

theorem boot_toNat : s.bootPdpt.toNat = s.bootPml4.toNat + 4096 ∧ s.bootPd0.toNat = s.bootPml4.toNat + 8192 ∧
    (s.bootPml4 + 256 * 8).toNat = s.bootPml4.toNat + 2048 := by
  have hstop := s.stop
  have hend := s.bssEnd.toNat_lt
  refine ⟨?_, ?_, ?_⟩ <;> refine (UInt32.toNat_add _ _).trans (Nat.mod_eq_of_lt ?_) <;>
    simp only [UInt32.reduceMul, UInt32.reduceToNat] <;> omega

theorem clearBss_zero {a : Nat} (h : s.bootPml4.toNat ≤ a) (h' : a < s.bootPml4.toNat + 3 * 4096) :
    clearBss s m a = 0 := by
  have hstart := s.start
  have hstop := s.stop
  have hlen : (s.bssEnd - s.bssStart).toNat = s.bssEnd.toNat - s.bssStart.toNat :=
    UInt32.toNat_sub_of_le _ _ (UInt32.le_iff_toNat_le.mpr (by omega))
  obtain ⟨i, rfl⟩ : ∃ i, a = s.bssStart.toNat + i := ⟨a - s.bssStart.toNat, by omega⟩
  rw [clearBss, Memory.write_inside (by rw [List.length_replicate, hlen]; omega), List.getElem_replicate]

theorem boot_entries :
    (∀ k < 512, entriesOf (buildBootTables s m) (s.bootPml4.toNat + 8192) k = UInt64.ofNat (0x83 + k * 0x200000)) ∧
      (∀ j < 512, entriesOf (buildBootTables s m) (s.bootPml4.toNat + 4096) j =
        if j = 0 then (s.bootPd0 ||| 0x3).toUInt64 else 0) ∧
      ∀ i < 512, entriesOf (buildBootTables s m) s.bootPml4.toNat i =
        if WindowSlot i then (s.bootPdpt ||| 0x3).toUInt64 else 0 := by
  obtain ⟨hpdpt, hpd0, hhigh⟩ := boot_toNat s
  have hstop := s.stop
  have hend := s.bssEnd.toNat_lt
  obtain ⟨hfill, hkeep⟩ := fillPd0_spec 512 s.bootPd0 0x83 (clearBss s m) (by omega) (by decide)
    fun a ha ha' => clearBss_zero s m (by omega) (by omega)
  rw [hpd0] at hfill hkeep
  have hzero : ∀ a, s.bootPml4.toNat ≤ a → a < s.bootPml4.toNat + 8192 →
      fillPd0 512 s.bootPd0 0x83 (clearBss s m) a = 0 := fun a ha ha' => by
    rw [hkeep a (Or.inl (by omega)), clearBss_zero s m ha (by omega)]
  unfold buildBootTables
  dsimp only
  generalize fillPd0 512 s.bootPd0 0x83 (clearBss s m) = m₁ at hfill hzero ⊢
  -- `movl` writes four bytes over zeros, which is a write of eight
  have h₂ : movl m₁ s.bootPdpt (s.bootPd0 ||| 0x3) =
      m₁.write64 (s.bootPml4.toNat + 4096) (s.bootPd0 ||| 0x3).toUInt64 := by
    rw [movl_eq fun k hk => hzero _ (by omega) (by omega), hpdpt]
  rw [h₂]
  have h₃ : movl (m₁.write64 (s.bootPml4.toNat + 4096) (s.bootPd0 ||| 0x3).toUInt64) s.bootPml4 (s.bootPdpt ||| 0x3) =
      (m₁.write64 (s.bootPml4.toNat + 4096) (s.bootPd0 ||| 0x3).toUInt64).write64 s.bootPml4.toNat
        (s.bootPdpt ||| 0x3).toUInt64 :=
    movl_eq fun k hk => by rw [Memory.write64_outside (by omega), hzero _ (by omega) (by omega)]
  rw [h₃, movl_eq fun k hk => by
    rw [Memory.write64_outside (by omega), Memory.write64_outside (by omega), hzero _ (by omega) (by omega)], hhigh]
  refine ⟨fun k hk => ?_, fun j hj => ?_, fun i hi => ?_⟩
  · rw [entriesOf, Memory.read64_write64_disjoint (by omega), Memory.read64_write64_disjoint (by omega),
      Memory.read64_write64_disjoint (by omega)]
    exact hfill k hk
  · rw [entriesOf, Memory.read64_write64_disjoint (by omega), Memory.read64_write64_disjoint (by omega)]
    split_ifs with h0
    · rw [h0]
      exact Memory.read64_write64_self _
    · rw [Memory.read64_write64_disjoint (by omega)]
      exact Memory.read64_of_zero fun k hk => hzero _ (by omega) (by omega)
  · rw [entriesOf]
    by_cases h256 : i = 256
    · rw [h256, if_pos (Or.inr rfl)]
      exact Memory.read64_write64_self _
    · rw [Memory.read64_write64_disjoint (by omega)]
      by_cases h0 : i = 0
      · rw [h0, if_pos (Or.inl rfl)]
        exact Memory.read64_write64_self _
      · rw [Memory.read64_write64_disjoint (by omega), Memory.read64_write64_disjoint (by omega), if_neg (by omega)]
        exact Memory.read64_of_zero fun k hk => hzero _ (by omega) (by omega)

theorem bootMachine_entries (frames : Frames) :
    (bootMachine s m frames).entries = entriesOf (buildBootTables s m) := by
  rw [Machine.entries, bootMachine]

theorem bootMachine_root (frames : Frames) : (bootMachine s m frames).root = s.bootPml4.toNat := by
  have hal := s.aligned
  rw [Machine.root, toNat_mask]
  show s.bootPml4.toNat / 4096 * 4096 = _
  omega

theorem boot_link {t : UInt32} (hal : t.toNat % 4096 = 0) :
    isLink (t ||| 0x3).toUInt64 = true ∧ target (t ||| 0x3).toUInt64 = t.toNat := by
  have hor : (t ||| 0x3).toUInt64 = t.toUInt64 ||| (PRESENT ||| WRITABLE) := UInt32.toUInt64_or _ _
  have hlt : t.toUInt64.toNat < 2 ^ 52 := by
    have := t.toNat_lt
    rw [UInt32.toNat_toUInt64]
    omega
  rw [hor]
  exact freshLink_spec hal hlt

theorem boot_window (frames : Frames) :
    Window (bootMachine s m frames).entries (bootMachine s m frames).root (s.bootPml4.toNat + 4096)
      (s.bootPml4.toNat + 8192) WindowSlot := by
  obtain ⟨hpdpt, hpd0, -⟩ := boot_toNat s
  obtain ⟨-, hmid, htop⟩ := boot_entries s m
  have hal := s.aligned
  obtain ⟨hlink₁, htarget₁⟩ := boot_link (t := s.bootPdpt) (by omega)
  obtain ⟨hlink₂, htarget₂⟩ := boot_link (t := s.bootPd0) (by omega)
  rw [bootMachine_root, bootMachine_entries]
  refine ⟨fun i hi hS => ?_, fun i hi hS => ?_, ?_, fun j hj hj0 => ?_⟩
  · rw [htop i hi, if_pos hS, ← hpdpt]
    exact ⟨hlink₁, htarget₁⟩
  · rw [htop i hi, if_neg hS]
    rfl
  · rw [hmid 0 (by decide), if_pos rfl,
      ← hpd0]
    exact ⟨hlink₂, htarget₂⟩
  · rw [hmid j hj, if_neg hj0]
    rfl

theorem boot_identity (frames : Frames) :
    Identity (bootMachine s m frames).entries (s.bootPml4.toNat + 8192) 1 := by
  rw [bootMachine_entries]
  intro k hk l hl
  have he : entriesOf (buildBootTables s m) (s.bootPml4.toNat + 8192) k = UInt64.ofNat (k * 0x200000) ||| 0x83 := by
    have hbase : (UInt64.ofNat (k * 0x200000)).toNat = k * 0x200000 := by
      rw [UInt64.toNat_ofNat']
      omega
    refine ((boot_entries s m).1 k hk).trans ?_
    rw [← UInt64.toNat_inj, Word.toNat_or_low (k := 12) (by omega) (by decide), hbase, UInt64.toNat_ofNat']
    simp only [UInt64.reduceToNat]
    omega
  have hal : (UInt64.ofNat (k * 0x200000)).toNat % 4096 = 0 := by
    rw [UInt64.toNat_ofNat']
    omega
  obtain ⟨hp, hu, hh⟩ := flags_or (c := 0x83) hal
  rw [← he] at hp hu hh
  refine ⟨_, walk_cons_leaf (hp.trans (by decide)) (Or.inr (hh.trans (by decide))), ?_, rfl, hu.trans (by decide)⟩
  have hframe : frameNumber (entriesOf (buildBootTables s m) (s.bootPml4.toNat + 8192) k) = k * 512 := by
    rw [he, frameNumber_or (by decide), frameNumber, UInt64.toNat_ofNat']
    omega
  unfold Leaf.page
  dsimp only
  rw [hframe]
  simp only [List.length_singleton, pow_one, offset, List.foldl_cons, List.foldl_nil]
  omega

end Boot

end Pippin.Mm
