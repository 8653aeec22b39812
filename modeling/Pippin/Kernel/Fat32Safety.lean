import Pippin.Kernel.Fat32

/-! The FAT32 reader on any disk: every access stays inside the volume, and both loops end,
the one over the directory by its counter, the one over the file by the bytes copied. -/

namespace Pippin.File
open Program

/-- What `mount` makes sure of: FAT and data area lie one after the other in the volume. -/
structure Volume (total : UInt32) (fat : Fat32) : Prop where
  cluster_pos : 0 < fat.sectorsPerCluster.toNat
  fat_fits : fat.reserved.toNat + fat.fatSize.toNat ≤ fat.firstData.toNat
  first_lt : fat.firstData.toNat < total.toNat
  data_fits : fat.firstData.toNat + fat.clusters.toNat * fat.sectorsPerCluster.toNat ≤ total.toNat
  no_wrap : fat.clusters.toNat + 2 < 2 ^ 32

theorem toNat_checkedMul32 {a b c : UInt32} (h : checkedMul32 a b = some c) : c.toNat = a.toNat * b.toNat := by
  unfold checkedMul32 at h
  split_ifs at h with hlt
  cases h
  exact (UInt32.toNat_mul a b).trans (Nat.mod_eq_of_lt hlt)

theorem toNat_checkedAdd32 {a b c : UInt32} (h : checkedAdd32 a b = some c) : c.toNat = a.toNat + b.toNat := by
  unfold checkedAdd32 at h
  split_ifs at h with hlt
  cases h
  exact (UInt32.toNat_add a b).trans (Nat.mod_eq_of_lt hlt)

theorem ne_zero_iff {n : UInt32} : ¬n = 0 ↔ 0 < n.toNat := by
  rw [← UInt32.toNat_inj, UInt32.toNat_zero, Nat.pos_iff_ne_zero]

variable {fat : Fat32} {total : UInt32}

theorem ofBootSector_volume {sector : Sector} (h : Fat32.ofBootSector sector = some fat) :
    Volume (totalSectors sector) fat := by
  unfold Fat32.ofBootSector at h
  split_ifs at h
  dsimp only at h
  generalize totalSectors sector = total at h ⊢
  obtain ⟨size, hmul, h⟩ := Option.bind_eq_some_iff.mp h
  obtain ⟨firstData, hadd, h⟩ := Option.bind_eq_some_iff.mp h
  split_ifs at h with hgeom hroot
  cases h
  simp only [not_or, UInt32.not_lt, ge_iff_le, UInt32.not_le, ne_zero_iff] at hgeom hroot
  obtain ⟨hspc, -, -, hfats, hsize, hfirst⟩ := hgeom
  have hfirst' := UInt32.lt_iff_toNat_lt.mp hfirst
  have hlen := toNat_checkedMul32 hmul
  have hdata := toNat_checkedAdd32 hadd
  have hone : (le32 sector.bytes 36).toNat ≤ size.toNat := by
    rw [hlen]
    exact Nat.le_mul_of_pos_left _ hfats
  have hdiff : (total - firstData).toNat = total.toNat - firstData.toNat :=
    UInt32.toNat_sub_of_le _ _ (UInt32.le_of_lt hfirst)
  have hdiv := Nat.div_mul_le_self (total - firstData).toNat (byteAt sector.bytes 13).toUInt32.toNat
  -- a sum that wrapped around would be below 2, and the root is not
  have hroot₁ := UInt32.le_iff_toNat_le.mp hroot.1
  have hroot₂ := UInt32.lt_iff_toNat_lt.mp hroot.2
  refine ⟨hspc, ?_, hfirst', ?_, ?_⟩ <;> dsimp only
  · omega
  · rw [UInt32.toNat_div]
    omega
  · generalize (total - firstData) / (byteAt sector.bytes 13).toUInt32 = clusters at hroot₂ ⊢
    have htwo : (2 : UInt32).toNat = 2 := rfl
    have hlt := clusters.toNat_lt
    rw [UInt32.toNat_add, htwo] at hroot₂
    rw [htwo] at hroot₁
    omega

def InData (fat : Fat32) (lba : Nat) : Prop :=
  fat.firstData.toNat ≤ lba ∧ lba < fat.firstData.toNat + fat.clusters.toNat * fat.sectorsPerCluster.toNat

theorem Volume.firstSector_spec (hV : Volume total fat) {cluster : UInt32} {first : UInt64}
    (h : fat.firstSector cluster = some first) : 2 ≤ cluster.toNat ∧ cluster.toNat < fat.clusters.toNat + 2 ∧
      first.toNat = fat.firstData.toNat + (cluster.toNat - 2) * fat.sectorsPerCluster.toNat ∧
      ∀ i < fat.sectorsPerCluster.toNat, (first + UInt64.ofNat i).toNat = first.toNat + i ∧
        InData fat (first.toNat + i) := by
  have hwrap := hV.no_wrap
  have hfits := hV.data_fits
  have htotal := total.toNat_lt
  have htwo : (2 : UInt32).toNat = 2 := rfl
  unfold Fat32.firstSector at h
  split_ifs at h with hc
  cases h
  simp only [not_or, UInt32.not_lt, ge_iff_le, UInt32.not_le] at hc
  have h2 := UInt32.le_iff_toNat_le.mp hc.1
  have hlt := UInt32.lt_iff_toNat_lt.mp hc.2
  rw [UInt32.toNat_add, htwo, Nat.mod_eq_of_lt hwrap] at hlt
  rw [htwo] at h2
  have hsub : (cluster - 2).toNat = cluster.toNat - 2 := UInt32.toNat_sub_of_le _ _ hc.1
  have hmul : (cluster.toNat - 2 + 1) * fat.sectorsPerCluster.toNat ≤
      fat.clusters.toNat * fat.sectorsPerCluster.toNat := Nat.mul_le_mul_right _ (by omega)
  rw [Nat.add_mul, Nat.one_mul] at hmul
  have hprod : ((cluster - 2) * fat.sectorsPerCluster).toNat = (cluster.toNat - 2) * fat.sectorsPerCluster.toNat := by
    rw [UInt32.toNat_mul, hsub, Nat.mod_eq_of_lt (by omega)]
  have hfirst : (fat.firstData + (cluster - 2) * fat.sectorsPerCluster).toUInt64.toNat =
      fat.firstData.toNat + (cluster.toNat - 2) * fat.sectorsPerCluster.toNat := by
    rw [UInt32.toNat_toUInt64, UInt32.toNat_add, hprod, Nat.mod_eq_of_lt (by omega)]
  refine ⟨h2, hlt, hfirst, fun i hi => ⟨?_, ?_⟩⟩
  · rw [UInt64.toNat_add, UInt64.toNat_ofNat', hfirst]
    omega
  · rw [hfirst]
    exact ⟨by omega, by omega⟩

/-! ## Accesses -/

def Allowed (fat : Fat32) : Access → Prop
  | .read .boot lba => lba = 0
  | .read .fat lba => fat.reserved.toNat ≤ lba.toNat ∧ lba.toNat < fat.reserved.toNat + fat.fatSize.toNat
  | .read .directory lba => InData fat lba.toNat
  | .read .file lba => InData fat lba.toNat
  | .copy start amount => start + amount ≤ 4096

def Logged (fat : Fat32) (s : Io) : Prop := ∀ a ∈ s.log, Allowed fat a

variable {disk : Disk}

theorem readSector_safe {site : Site} {lba : UInt64} (h : Allowed fat (.read site lba)) :
    Safe disk (Logged fat) (readSector site lba) fun _ => True := by
  intro s hs
  have hlog : Logged fat { s with log := .read site lba :: s.log } := fun a ha => by
    rcases List.mem_cons.mp ha with rfl | ha
    · exact h
    · exact hs a ha
  unfold readSector
  dsimp only
  cases disk.read s.log.length lba with
  | none => exact ⟨hlog, nofun, nofun⟩
  | some sector => exact ⟨hlog, nofun, fun _ _ => trivial⟩

theorem copyToBundle_safe {start : Nat} {bytes : List UInt8} (h : start + bytes.length ≤ 4096) :
    Safe disk (Logged fat) (copyToBundle start bytes) fun _ => True := by
  intro s hs
  refine ⟨fun a ha => ?_, nofun, fun _ _ => trivial⟩
  rcases List.mem_cons.mp ha with rfl | ha
  · exact h
  · exact hs a ha

theorem next_safe (hV : Volume total fat) (cluster : UInt32) :
    Safe disk (Logged fat) (fat.next cluster) fun _ => True := by
  refine Safe.bind (R := fun _ => True) (Safe.ofOption fun _ _ => trivial) fun byte _ => ?_
  split_ifs with h
  · exact Safe.giveUp
  refine Safe.bind (R := fun _ => True) (readSector_safe ?_) fun sector _ => Safe.ofOption fun _ _ => trivial
  rw [ge_iff_le, UInt32.not_le] at h
  have hlt := UInt32.lt_iff_toNat_lt.mp h
  have hfits := hV.fat_fits
  have hfirst := hV.first_lt
  have htotal := total.toNat_lt
  show _ ≤ (fat.reserved + byte / 512).toUInt64.toNat ∧ (fat.reserved + byte / 512).toUInt64.toNat < _
  rw [UInt32.toNat_toUInt64, UInt32.toNat_add, Nat.mod_eq_of_lt (by omega)]
  omega

theorem scanSectors_safe {first : UInt64} {is : List Nat}
    (h : ∀ i ∈ is, InData fat (first + UInt64.ofNat i).toNat) :
    Safe disk (Logged fat) (scanSectors first is) fun _ => True := by
  induction is with
  | nil => exact Safe.pure trivial
  | cons i is ih =>
    unfold scanSectors
    refine Safe.bind (R := fun _ => True) (readSector_safe (h i List.mem_cons_self)) fun sector _ => ?_
    cases scanRows (rows sector.bytes) with
    | stop => exact Safe.giveUp
    | found start size => exact Safe.pure trivial
    | more => exact ih fun j hj => h j (List.mem_cons_of_mem i hj)

theorem Volume.sectors (hV : Volume total fat) {cluster : UInt32} {first : UInt64}
    (h : fat.firstSector cluster = some first) :
    ∀ i ∈ List.range fat.sectorsPerCluster.toNat, InData fat (first + UInt64.ofNat i).toNat := by
  intro i hi
  obtain ⟨-, -, -, hin⟩ := hV.firstSector_spec h
  obtain ⟨hlba, hdata⟩ := hin i (List.mem_range.mp hi)
  rw [hlba]
  exact hdata

theorem findEntry_safe (hV : Volume total fat) (n : Nat) (cluster : UInt32) :
    Safe disk (Logged fat) (findEntry fat n cluster) fun _ => True := by
  induction n generalizing cluster with
  | zero => exact Safe.giveUp
  | succ n ih =>
    unfold findEntry
    refine Safe.bind (Safe.ofOption fun first hfirst => hfirst) fun first hfirst => ?_
    refine Safe.bind (scanSectors_safe (hV.sectors hfirst)) fun entry _ => ?_
    cases entry with
    | some entry => exact Safe.pure trivial
    | none => exact Safe.bind (next_safe hV cluster) fun cluster' _ => ih cluster'

theorem copySectors_safe {first : UInt64} {size : Nat} (hsize : size ≤ 4096) {is : List Nat}
    (h : ∀ i ∈ is, InData fat (first + UInt64.ofNat i).toNat) {copied : Nat} (hlt : copied < size) :
    Safe disk (Logged fat) (copySectors first size is copied) fun c =>
      c ≤ size ∧ copied ≤ c ∧ (is ≠ [] → copied < c) := by
  induction is generalizing copied with
  | nil => exact Safe.pure ⟨hlt.le, le_rfl, fun hne => absurd rfl hne⟩
  | cons i is ih =>
    unfold copySectors
    refine Safe.bind (R := fun _ => True) (readSector_safe (h i List.mem_cons_self)) fun sector _ => ?_
    refine Safe.bind (R := fun _ => True) (copyToBundle_safe ?_) fun _ _ => ?_
    · rw [List.length_take, sector.length]
      omega
    · dsimp only
      split_ifs with hdone
      · exact Safe.pure ⟨by omega, by omega, fun _ => by omega⟩
      · refine Safe.mono (ih (fun j hj => h j (List.mem_cons_of_mem i hj)) (by omega)) fun c hc => ?_
        exact ⟨hc.1, by omega, fun _ => by omega⟩

theorem copyFile_safe (hV : Volume total fat) {size : Nat} (hsize : size ≤ 4096) {fuel : Nat} {cluster : UInt32}
    {copied : Nat} (hfuel : size - copied ≤ fuel) :
    Safe disk (Logged fat) (copyFile fat size fuel cluster copied) fun _ => True := by
  induction fuel generalizing cluster copied with
  | zero =>
    unfold copyFile
    rw [if_neg (by omega)]
    exact Safe.pure trivial
  | succ fuel ih =>
    unfold copyFile
    split_ifs with hlt
    · refine Safe.bind (Safe.ofOption fun first hfirst => hfirst) fun first hfirst => ?_
      refine Safe.bind (copySectors_safe hsize (hV.sectors hfirst) hlt) fun c hc => ?_
      have hmore : copied < c := hc.2.2 (by
        rw [Ne, List.range_eq_nil]
        exact hV.cluster_pos.ne')
      refine Safe.bind (R := fun _ => True) ?_ fun cluster' _ => ih (by omega)
      split_ifs
      · exact next_safe hV cluster
      · exact Safe.pure trivial
    · exact Safe.pure trivial

/-- What `fat_bundle` does once the volume is mounted. -/
def loadBundle (fuel : Nat) (fat : Fat32) : FileIo Bundle := do
  let (cluster, size) ← findEntry fat 16 fat.root
  if size = 0 ∨ size > 4096 then giveUp
  else
    copyFile fat size fuel cluster 0
    ofOption (parse (← bundleBytes size))

theorem fatBundle_eq (fuel : Nat) : fatBundle fuel = mount >>= loadBundle fuel := rfl

theorem loadBundle_safe (hV : Volume total fat) {fuel : Nat} (hfuel : 4096 ≤ fuel) :
    Safe disk (Logged fat) (loadBundle fuel fat) fun _ => True := by
  refine Safe.bind (findEntry_safe hV 16 fat.root) fun entry _ => ?_
  dsimp only
  split_ifs with hsize
  · exact Safe.giveUp
  · rw [not_or, gt_iff_lt, Nat.not_lt] at hsize
    refine Safe.bind (copyFile_safe hV hsize.2 (by omega)) fun _ _ => ?_
    refine Safe.bind (R := fun _ => True) (fun s hs => ⟨hs, nofun, fun _ _ => trivial⟩) fun _ _ => ?_
    exact Safe.ofOption fun _ _ => trivial

/-! ## The bound on the loop -/

theorem copyFile_refines (size : Nat) {fuel fuel' : Nat} (h : fuel ≤ fuel') (cluster : UInt32) (copied : Nat) :
    Refines (copyFile fat size fuel cluster copied) (copyFile fat size fuel' cluster copied) := by
  induction fuel generalizing fuel' cluster copied with
  | zero =>
    by_cases hlt : copied < size
    · unfold copyFile
      rw [if_pos hlt]
      exact Refines.cutOff _
    · have hdone : ∀ n, copyFile fat size n cluster copied = pure () := fun n => by
        cases n <;> exact if_neg hlt
      rw [hdone 0, hdone fuel']
      exact Refines.refl _
  | succ fuel ih =>
    cases fuel' with
    | zero => omega
    | succ fuel' =>
      unfold copyFile
      split_ifs
      · refine Refines.bind (Refines.refl _) fun first => Refines.bind (Refines.refl _) fun c => ?_
        exact Refines.bind (Refines.refl _) fun cluster' => ih (by omega) cluster' c
      · exact Refines.refl _

theorem fatBundle_refines {fuel fuel' : Nat} (h : fuel ≤ fuel') : Refines (fatBundle fuel) (fatBundle fuel') := by
  refine Refines.bind (Refines.refl _) fun fat => Refines.bind (Refines.refl _) fun entry => ?_
  dsimp only
  split_ifs
  · exact Refines.refl _
  · exact Refines.bind (copyFile_refines _ h _ _) fun _ => Refines.refl _

/-! ## The whole run -/

theorem fatBundle_run (disk : Disk) (bundle : Memory) {fuel : Nat} (hfuel : 4096 ≤ fuel) :
    (fatBundle fuel disk ⟨[], bundle⟩ = (.gaveUp, ⟨[.read .boot 0], bundle⟩) ∧
      (disk.read 0 0).bind Fat32.ofBootSector = none) ∨
    ∃ sector fat, disk.read 0 0 = some sector ∧ Fat32.ofBootSector sector = some fat ∧
      Logged fat (fatBundle fuel disk ⟨[], bundle⟩).2 ∧ (fatBundle fuel disk ⟨[], bundle⟩).1 ≠ .unfinished := by
  have hmount : mount disk ⟨[], bundle⟩ = (match (disk.read 0 0).bind Fat32.ofBootSector with
      | some fat => (.returned fat, ⟨[.read .boot 0], bundle⟩)
      | none => (.gaveUp, ⟨[.read .boot 0], bundle⟩)) := by
    show follow disk _ (readSector .boot 0 disk ⟨[], bundle⟩) = _
    unfold readSector
    dsimp only [List.length_nil]
    cases disk.read 0 0 with
    | none => rfl
    | some sector =>
      show ofOption (Fat32.ofBootSector sector) disk _ = _
      rw [Option.bind_some]
      cases Fat32.ofBootSector sector <;> rfl
  have hrun : fatBundle fuel disk ⟨[], bundle⟩ = follow disk (loadBundle fuel) (mount disk ⟨[], bundle⟩) := rfl
  rw [hrun, hmount]
  cases hread : disk.read 0 0 with
  | none => exact Or.inl ⟨rfl, rfl⟩
  | some sector =>
    rw [Option.bind_some]
    cases hfat : Fat32.ofBootSector sector with
    | none => exact Or.inl ⟨rfl, rfl⟩
    | some fat =>
      have hstart : Logged fat ⟨[.read .boot 0], bundle⟩ := fun a ha => by
        rw [List.mem_singleton.mp ha]
        rfl
      obtain ⟨hlog, hend, -⟩ := loadBundle_safe (ofBootSector_volume hfat) hfuel _ hstart
      exact Or.inr ⟨sector, fat, rfl, hfat, hlog, hend⟩

theorem Volume.lba_lt (hV : Volume total fat) {site : Site} {lba : UInt64} (h : Allowed fat (.read site lba)) :
    lba.toNat < total.toNat := by
  have hfirst := hV.first_lt
  have hfat := hV.fat_fits
  have hdata := hV.data_fits
  cases site with
  | boot =>
    obtain rfl : lba = 0 := h
    rw [UInt64.toNat_zero]
    omega
  | fat => exact h.2.trans_le (by omega)
  | directory => exact h.2.trans_le hdata
  | file => exact h.2.trans_le hdata

/-- FAT32 reader robustness: on every disk, with any read failing, the run ends after a
bounded number of iterations; on a volume every LBA read is below its sector count, FAT reads
stay in the first FAT, directory and file reads in the data area; copies stay in the bundle.
A disk without a volume is read at LBA 0 only. -/
theorem fat_bundle_robust (disk : Disk) (bundle : Memory) :
    (∀ fuel, 4096 ≤ fuel → fatBundle fuel disk ⟨[], bundle⟩ = fatBundle 4096 disk ⟨[], bundle⟩) ∧
    (fatBundle 4096 disk ⟨[], bundle⟩).1 ≠ .unfinished ∧
    ((disk.read 0 0).bind Fat32.ofBootSector = none →
      fatBundle 4096 disk ⟨[], bundle⟩ = (.gaveUp, ⟨[.read .boot 0], bundle⟩)) ∧
    (∀ sector fat, disk.read 0 0 = some sector → Fat32.ofBootSector sector = some fat →
      ∀ site lba, .read site lba ∈ (fatBundle 4096 disk ⟨[], bundle⟩).2.log →
        lba.toNat < (totalSectors sector).toNat ∧
        (site = .boot → lba = 0) ∧
        (site = .fat → fat.reserved.toNat ≤ lba.toNat ∧ lba.toNat < fat.reserved.toNat + fat.fatSize.toNat) ∧
        (site = .directory ∨ site = .file → fat.firstData.toNat ≤ lba.toNat ∧
          lba.toNat < fat.firstData.toNat + fat.clusters.toNat * fat.sectorsPerCluster.toNat)) ∧
    ∀ start amount, .copy start amount ∈ (fatBundle 4096 disk ⟨[], bundle⟩).2.log → start + amount ≤ 4096 := by
  -- 4096 rounds are enough, and more make no difference
  have hfinished : (fatBundle 4096 disk ⟨[], bundle⟩).1 ≠ .unfinished := by
    rcases fatBundle_run disk bundle (Nat.le_refl 4096) with ⟨h, -⟩ | ⟨-, -, -, -, -, h⟩
    · rw [h]
      exact nofun
    · exact h
  refine ⟨fun fuel hfuel => (fatBundle_refines hfuel).run_eq hfinished, hfinished, fun hnone => ?_,
    fun sector fat hread hfat site lba hmem => ?_, fun start amount hmem => ?_⟩
  · rcases fatBundle_run disk bundle (Nat.le_refl 4096) with ⟨h, -⟩ | ⟨sector, fat, hread, hfat, -⟩
    · exact h
    · rw [hread, Option.bind_some, hfat] at hnone
      cases hnone
  · rcases fatBundle_run disk bundle (Nat.le_refl 4096) with ⟨-, hnone⟩ | ⟨sector', fat', hread', hfat', hlog, -⟩
    · rw [hread, Option.bind_some, hfat] at hnone
      cases hnone
    · rw [hread] at hread'
      cases hread'
      rw [hfat] at hfat'
      cases hfat'
      have hok : Allowed fat (.read site lba) := hlog _ hmem
      refine ⟨(ofBootSector_volume hfat).lba_lt hok, ?_, ?_, ?_⟩
      · rintro rfl
        exact hok
      · rintro rfl
        exact hok
      · rintro (rfl | rfl)
        · exact hok
        · exact hok
  · rcases fatBundle_run disk bundle (Nat.le_refl 4096) with ⟨h, -⟩ | ⟨-, fat, -, -, hlog, -⟩
    · rw [h] at hmem
      cases List.mem_singleton.mp hmem
    · exact hlog _ hmem

end Pippin.File
