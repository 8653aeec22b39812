import Pippin.Kernel.Fat32File
import Pippin.Lib.Words32

/-! The u32 arithmetic of the FAT32 reader. Beside the functions of `file.rs`, which wrap
around, stand their copies with overflow checks; where a copy does not fault, nothing wraps. -/

namespace Pippin.File
open Program

def headerRejected (sector : Sector) : Prop :=
  sector.bytes.drop 510 ≠ [0x55, 0xaa] ∨ le16 sector.bytes 11 ≠ 512 ∨ le16 sector.bytes 17 ≠ 0

instance (sector : Sector) : Decidable (headerRejected sector) := inferInstanceAs (Decidable (_ ∨ _ ∨ _))

/-- `fats.checked_mul(fat_size)` and `reserved.checked_add`, checked in the source as well. -/
def firstDataOf (sector : Sector) : Option UInt32 := do
  checkedAdd32 (le16 sector.bytes 14).toUInt32
    (← checkedMul32 (byteAt sector.bytes 16).toUInt32 (le32 sector.bytes 36))

def geometryRejected (sector : Sector) (firstData : UInt32) : Prop :=
  (byteAt sector.bytes 13).toUInt32 = 0 ∨ !isPowerOfTwo (byteAt sector.bytes 13).toUInt32 ∨
    (byteAt sector.bytes 13).toUInt32 > 64 ∨ (byteAt sector.bytes 16).toUInt32 = 0 ∨
    le32 sector.bytes 36 = 0 ∨ firstData ≥ totalSectors sector

instance (sector : Sector) (firstData : UInt32) : Decidable (geometryRejected sector firstData) :=
  inferInstanceAs (Decidable (_ ∨ _ ∨ _ ∨ _ ∨ _ ∨ _))

def volumeOf (sector : Sector) (firstData clusters : UInt32) : Fat32 where
  reserved := (le16 sector.bytes 14).toUInt32
  fatSize := le32 sector.bytes 36
  firstData := firstData
  sectorsPerCluster := (byteAt sector.bytes 13).toUInt32
  root := le32 sector.bytes 44
  clusters := clusters

namespace Fat32

/-- The end of the data area of a boot sector that passes the checks before the root: the
first data sector and the number of clusters. -/
def dataArea (sector : Sector) : Option (UInt32 × UInt32) := do
  if headerRejected sector then none
  else
    let firstData ← firstDataOf sector
    if geometryRejected sector firstData then none
    else some (firstData, (totalSectors sector - firstData) / (byteAt sector.bytes 13).toUInt32)

/-- `mount` on a boot sector, with overflow checks. -/
def ofBootSectorChecked (sector : Sector) : Checked (Option Fat32) :=
  if headerRejected sector then .ok none
  else
    match firstDataOf sector with
    | none => .ok none
    | some firstData =>
      if geometryRejected sector firstData then .ok none
      else do
        let clusters := (← Word32.sub (totalSectors sector) firstData) / (byteAt sector.bytes 13).toUInt32
        if le32 sector.bytes 44 < 2 then return none
        else if le32 sector.bytes 44 ≥ (← Word32.add clusters 2) then return none
        else return some (volumeOf sector firstData clusters)

/-- `first_sector`, with overflow checks. -/
def firstSectorChecked (fat : Fat32) (cluster : UInt32) : Checked (Option UInt64) :=
  if cluster < 2 then .ok none
  else do
    if cluster ≥ (← Word32.add fat.clusters 2) then return none
    else
      let offset ← Word32.mul (← Word32.sub cluster 2) fat.sectorsPerCluster
      return some (← Word32.add fat.firstData offset).toUInt64

/-- `next`, with overflow checks: the sum is made before the disk is read. -/
def nextChecked (fat : Fat32) (cluster : UInt32) : Checked (FileIo UInt32) :=
  match checkedMul32 cluster 4 with
  | none => .ok giveUp
  | some byte =>
    if byte / 512 ≥ fat.fatSize then .ok giveUp
    else do
      let lba ← Word32.add fat.reserved (byte / 512)
      return do
        let sector ← readSector .fat lba.toUInt64
        ofOption (linkAt sector (byte % 512).toNat)

end Fat32

variable {sector : Sector} {firstData clusters : UInt32} {fat : Fat32}

theorem ofBootSector_eq (sector : Sector) :
    Fat32.ofBootSector sector = (Fat32.dataArea sector).bind fun (firstData, clusters) =>
      if le32 sector.bytes 44 < 2 ∨ le32 sector.bytes 44 ≥ clusters + 2 then none
      else some (volumeOf sector firstData clusters) := by
  unfold Fat32.ofBootSector Fat32.dataArea
  by_cases hhead : headerRejected sector
  · rw [if_pos hhead]
    exact if_pos hhead
  · rw [if_neg hhead]
    refine (if_neg hhead).trans ?_
    unfold firstDataOf
    dsimp only
    cases checkedMul32 (byteAt sector.bytes 16).toUInt32 (le32 sector.bytes 36) with
    | none => rfl
    | some size =>
      dsimp only [Option.bind_eq_bind, Option.bind_some]
      cases checkedAdd32 (le16 sector.bytes 14).toUInt32 size with
      | none => rfl
      | some firstData =>
        dsimp only [Option.bind_some]
        by_cases hbad : geometryRejected sector firstData
        · rw [if_pos hbad]
          exact if_pos hbad
        · rw [if_neg hbad]
          exact if_neg hbad

theorem ofBootSectorChecked_eq (sector : Sector) :
    Fat32.ofBootSectorChecked sector = match Fat32.dataArea sector with
      | none => .ok none
      | some (firstData, clusters) => do
        if le32 sector.bytes 44 < 2 then return none
        else if le32 sector.bytes 44 ≥ (← Word32.add clusters 2) then return none
        else return some (volumeOf sector firstData clusters) := by
  unfold Fat32.ofBootSectorChecked Fat32.dataArea
  by_cases hhead : headerRejected sector
  · rw [if_pos hhead, if_pos hhead]
  · rw [if_neg hhead, if_neg hhead]
    cases firstDataOf sector with
    | none => rfl
    | some firstData =>
      dsimp only [Option.bind_eq_bind, Option.bind_some]
      by_cases hbad : geometryRejected sector firstData
      · rw [if_pos hbad, if_pos hbad]
      · rw [if_neg hbad, if_neg hbad]
        simp only [geometryRejected, not_or, ge_iff_le, UInt32.not_le] at hbad
        have hlt := UInt32.lt_iff_toNat_lt.mp hbad.2.2.2.2.2
        rw [Word32.sub_eq hlt.le]
        rfl

theorem dataArea_spec (h : Fat32.dataArea sector = some (firstData, clusters)) :
    0 < (byteAt sector.bytes 13).toNat ∧ 0 < (byteAt sector.bytes 16).toNat ∧ 0 < (le32 sector.bytes 36).toNat ∧
      firstData.toNat = (le16 sector.bytes 14).toNat + (byteAt sector.bytes 16).toNat * (le32 sector.bytes 36).toNat ∧
      firstData.toNat < (totalSectors sector).toNat ∧
      clusters.toNat = ((totalSectors sector).toNat - firstData.toNat) / (byteAt sector.bytes 13).toNat := by
  unfold Fat32.dataArea at h
  split_ifs at h
  obtain ⟨firstData', hfirst, h⟩ := Option.bind_eq_some_iff.mp h
  split_ifs at h with hbad
  cases h
  simp only [geometryRejected, not_or, ge_iff_le, UInt32.not_le, ne_zero_iff, UInt8.toNat_toUInt32] at hbad
  obtain ⟨hspc, -, -, hfats, hsize, hlt⟩ := hbad
  obtain ⟨size, hmul, hadd⟩ := Option.bind_eq_some_iff.mp hfirst
  have hlen := toNat_checkedMul32 hmul
  have hdata := toNat_checkedAdd32 hadd
  rw [UInt8.toNat_toUInt32] at hlen
  rw [UInt16.toNat_toUInt32, hlen] at hdata
  have hlt' := UInt32.lt_iff_toNat_lt.mp hlt
  refine ⟨hspc, hfats, hsize, hdata, hlt', ?_⟩
  rw [UInt32.toNat_div, Word32.toNat_sub hlt'.le, UInt8.toNat_toUInt32]

/-! ## The widest geometry -/

/-- One FAT of one sector, nothing reserved, clusters of one sector, a sector count of all
ones, and a root that is compared with the cluster count. -/
structure WidestGeometry (sector : Sector) : Prop where
  header : ¬headerRejected sector
  cluster : byteAt sector.bytes 13 = 1
  reserved : le16 sector.bytes 14 = 0
  fats : byteAt sector.bytes 16 = 1
  total : totalSectors sector = 0xffffffff
  fatSize : le32 sector.bytes 36 = 1
  root : 2 ≤ le32 sector.bytes 44

theorem header_of_dataArea (h : Fat32.dataArea sector = some (firstData, clusters)) : ¬headerRejected sector := by
  unfold Fat32.dataArea at h
  split_ifs at h with hhead
  exact hhead

theorem clusters_fit (h : Fat32.dataArea sector = some (firstData, clusters)) (hroot : 2 ≤ le32 sector.bytes 44)
    (hnot : ¬WidestGeometry sector) : clusters.toNat + 2 < 2 ^ 32 := by
  obtain ⟨hspc, hfats, hsize, hfirst, hlt, hclusters⟩ := dataArea_spec h
  by_contra hwide
  have htotal := (totalSectors sector).toNat_lt
  have hquot := Nat.div_le_self ((totalSectors sector).toNat - firstData.toNat) (byteAt sector.bytes 13).toNat
  have hprod : 0 < (byteAt sector.bytes 16).toNat * (le32 sector.bytes 36).toNat := Nat.mul_pos hfats hsize
  have hone : (byteAt sector.bytes 16).toNat * (le32 sector.bytes 36).toNat = 1 := by omega
  have hfats1 : (byteAt sector.bytes 16).toNat = 1 := Nat.eq_one_of_mul_eq_one_right hone
  have hsize1 : (le32 sector.bytes 36).toNat = 1 := Nat.eq_one_of_mul_eq_one_left hone
  have hspc1 : (byteAt sector.bytes 13).toNat = 1 := by
    by_contra hne
    have hhalf : clusters.toNat ≤ ((totalSectors sector).toNat - firstData.toNat) / 2 := by
      rw [hclusters]
      exact Nat.div_le_div_left (by omega) (by decide)
    omega
  refine hnot ⟨header_of_dataArea h, ?_, ?_, ?_, ?_, ?_, hroot⟩
  · exact UInt8.toNat_inj.mp hspc1
  · exact UInt16.toNat_inj.mp (by rw [UInt16.toNat_zero]; omega)
  · exact UInt8.toNat_inj.mp hfats1
  · exact UInt32.toNat_inj.mp (show _ = 2 ^ 32 - 1 by omega)
  · exact UInt32.toNat_inj.mp hsize1

theorem WidestGeometry.dataArea (h : WidestGeometry sector) : Fat32.dataArea sector = some (1, 0xfffffffe) := by
  have hfirst : firstDataOf sector = some 1 := by
    unfold firstDataOf
    rw [h.fats, h.fatSize, h.reserved]
    rfl
  unfold Fat32.dataArea
  rw [if_neg h.header, hfirst]
  dsimp only [Option.bind_eq_bind, Option.bind_some]
  have hgood : ¬geometryRejected sector 1 := by
    unfold geometryRejected
    rw [h.cluster, h.fats, h.fatSize, h.total]
    decide
  rw [if_neg hgood, h.cluster, h.total]
  rfl

/-! ## The functions of the reader -/

/-- No operation of `mount`, `first_sector` and `next` wraps around on the boot sector, and
`mount` compares the root with the exact bound. -/
structure ExactArithmetic (sector : Sector) : Prop where
  mount : Fat32.ofBootSectorChecked sector = .ok (Fat32.ofBootSector sector)
  root : (Fat32.ofBootSector sector).isSome ↔ ∃ firstData clusters, Fat32.dataArea sector = some (firstData, clusters) ∧
    2 ≤ (le32 sector.bytes 44).toNat ∧ (le32 sector.bytes 44).toNat < clusters.toNat + 2
  firstSector : ∀ fat, Fat32.ofBootSector sector = some fat →
    ∀ cluster, fat.firstSectorChecked cluster = .ok (fat.firstSector cluster)
  next : ∀ fat, Fat32.ofBootSector sector = some fat → ∀ cluster, fat.nextChecked cluster = .ok (fat.next cluster)

theorem firstSectorChecked_eq {total : UInt32} (hV : Volume total fat) (cluster : UInt32) :
    fat.firstSectorChecked cluster = .ok (fat.firstSector cluster) := by
  have htwo : (2 : UInt32).toNat = 2 := rfl
  have hsum : fat.clusters.toNat + (2 : UInt32).toNat < 2 ^ 32 := hV.no_wrap
  unfold Fat32.firstSectorChecked Fat32.firstSector
  by_cases hlow : cluster < 2
  · rw [if_pos hlow, if_pos (Or.inl hlow)]
  rw [if_neg hlow, Word32.add_eq hsum, Checked.ok_bind]
  by_cases hhigh : cluster ≥ fat.clusters + 2
  · rw [if_pos hhigh, if_pos (Or.inr hhigh)]
    rfl
  rw [if_neg hhigh, if_neg (not_or.mpr ⟨hlow, hhigh⟩)]
  -- the cluster lies in the data area, which ends inside the volume
  rw [UInt32.not_lt, UInt32.le_iff_toNat_le, htwo] at hlow
  rw [ge_iff_le, UInt32.not_le, UInt32.lt_iff_toNat_lt, Word32.toNat_add hsum, htwo] at hhigh
  have hfits := hV.data_fits
  have htotal := total.toNat_lt
  have hmul : (cluster.toNat - 2 + 1) * fat.sectorsPerCluster.toNat ≤
      fat.clusters.toNat * fat.sectorsPerCluster.toNat := Nat.mul_le_mul_right _ (by omega)
  rw [Nat.add_mul, Nat.one_mul] at hmul
  have hsub : (cluster - 2).toNat = cluster.toNat - 2 := Word32.toNat_sub (show (2 : UInt32).toNat ≤ _ from hlow)
  have hprod : (cluster - 2).toNat * fat.sectorsPerCluster.toNat < 2 ^ 32 := by
    rw [hsub]
    omega
  have hadd : fat.firstData.toNat + ((cluster - 2) * fat.sectorsPerCluster).toNat < 2 ^ 32 := by
    rw [Word32.toNat_mul hprod, hsub]
    omega
  rw [Word32.sub_eq (show (2 : UInt32).toNat ≤ _ from hlow), Checked.ok_bind, Word32.mul_eq hprod, Checked.ok_bind,
    Word32.add_eq hadd, Checked.ok_bind]
  rfl

theorem nextChecked_eq {total : UInt32} (hV : Volume total fat) (cluster : UInt32) :
    fat.nextChecked cluster = .ok (fat.next cluster) := by
  unfold Fat32.nextChecked Fat32.next
  cases checkedMul32 cluster 4 with
  | none => rfl
  | some byte =>
    show (if byte / 512 ≥ fat.fatSize then _ else _) = Except.ok (if byte / 512 ≥ fat.fatSize then _ else _)
    by_cases hout : byte / 512 ≥ fat.fatSize
    · rw [if_pos hout, if_pos hout]
    · rw [if_neg hout, if_neg hout]
      rw [ge_iff_le, UInt32.not_le, UInt32.lt_iff_toNat_lt] at hout
      have hfits := hV.fat_fits
      have hfirst := hV.first_lt
      have htotal := total.toNat_lt
      rw [Word32.add_eq (by omega), Checked.ok_bind]
      rfl

/-- FAT32 geometry arithmetic: on every boot sector but those of the widest geometry no
addition, subtraction or multiplication wraps around, and the root is accepted if and only if
it is a cluster of the volume. -/
theorem fat_arithmetic (sector : Sector) : ExactArithmetic sector ↔ ¬WidestGeometry sector := by
  have htwo : (2 : UInt32).toNat = 2 := rfl
  -- on the widest geometry `clusters + 2` is the sum that leaves 32 bits
  constructor
  · intro h hwide
    have hmount := h.mount
    rw [ofBootSectorChecked_eq, hwide.dataArea] at hmount
    dsimp only at hmount
    rw [if_neg (UInt32.not_lt.mpr hwide.root), Word32.add_fault (by decide)] at hmount
    cases hmount
  · intro hnot
    refine ⟨?_, ?_, fun fat hfat => firstSectorChecked_eq (ofBootSector_volume hfat),
      fun fat hfat => nextChecked_eq (ofBootSector_volume hfat)⟩
    · rw [ofBootSectorChecked_eq, ofBootSector_eq]
      cases harea : Fat32.dataArea sector with
      | none => rfl
      | some area =>
        obtain ⟨firstData, clusters⟩ := area
        dsimp only [Option.bind_some]
        -- the root cluster is compared with 2 before the sum is formed
        by_cases hroot : le32 sector.bytes 44 < 2
        · rw [if_pos hroot, if_pos (Or.inl hroot)]
          rfl
        · have hsum := clusters_fit harea (UInt32.not_lt.mp hroot) hnot
          rw [if_neg hroot, Word32.add_eq hsum, Checked.ok_bind]
          by_cases hhigh : le32 sector.bytes 44 ≥ clusters + 2
          · rw [if_pos hhigh, if_pos (Or.inr hhigh)]
            rfl
          · rw [if_neg hhigh, if_neg (not_or.mpr ⟨hroot, hhigh⟩)]
            rfl
    · rw [ofBootSector_eq]
      cases harea : Fat32.dataArea sector with
      | none => simp
      | some area =>
        obtain ⟨firstData, clusters⟩ := area
        dsimp only [Option.bind_some]
        by_cases hroot : le32 sector.bytes 44 < 2
        · have hlow := UInt32.lt_iff_toNat_lt.mp hroot
          rw [htwo] at hlow
          rw [if_pos (Or.inl hroot)]
          simp
          omega
        · have hsum : clusters.toNat + (2 : UInt32).toNat < 2 ^ 32 := clusters_fit harea (UInt32.not_lt.mp hroot) hnot
          have hlow := UInt32.le_iff_toNat_le.mp (UInt32.not_lt.mp hroot)
          have hexact : le32 sector.bytes 44 ≥ clusters + 2 ↔ clusters.toNat + 2 ≤ (le32 sector.bytes 44).toNat := by
            rw [ge_iff_le, UInt32.le_iff_toNat_le, Word32.toNat_add hsum, htwo]
          by_cases hhigh : le32 sector.bytes 44 ≥ clusters + 2
          · rw [if_pos (Or.inr hhigh)]
            have hge := hexact.mp hhigh
            simp
            omega
          · rw [if_neg (not_or.mpr ⟨hroot, hhigh⟩)]
            have hlt := mt hexact.mpr hhigh
            simp
            omega

def widestSector : Sector :=
  Sector.padded (List.replicate 11 0 ++ [0, 2, 1, 0, 0, 1] ++ List.replicate 15 0 ++
    [0xff, 0xff, 0xff, 0xff, 1, 0, 0, 0] ++ List.replicate 4 0 ++ [2, 0, 0, 0] ++ List.replicate 462 0 ++ [0x55, 0xaa])
    (by decide +kernel)

theorem fat_arithmetic_widest : Fat32.ofBootSector widestSector = none ∧
    Fat32.ofBootSectorChecked widestSector = .error .overflow ∧ ¬ExactArithmetic widestSector := by
  have hfault : Fat32.ofBootSectorChecked widestSector = .error .overflow := by decide +kernel
  refine ⟨by decide +kernel, hfault, fun h => ?_⟩
  have hmount := h.mount
  rw [hfault] at hmount
  cases hmount

end Pippin.File
