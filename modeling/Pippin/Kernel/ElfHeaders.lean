import Pippin.Kernel.Elf

/-! What an accepted image looks like: its segments are the loadable program headers with
memory, in header order, and each stays within the file and the application range. -/

namespace Pippin.Elf
open Mem

variable {image : Image} {pos : Nat}

theorem toNat_checkedAdd {a b : UInt64} (h : a.toNat + b.toNat < 2 ^ 64) :
    checkedAdd a b = some (a + b) ∧ (a + b).toNat = a.toNat + b.toNat := by
  rw [checkedAdd, if_pos h, UInt64.toNat_add, Nat.mod_eq_of_lt h]
  exact ⟨rfl, rfl⟩

theorem next_page {page stop : UInt64} (hpage : page.toNat % 4096 = 0) (hstop : stop.toNat % 4096 = 0)
    (hlt : page.toNat < stop.toNat) : checkedAdd page pageSize = some (page + pageSize) ∧
      (page + pageSize).toNat = page.toNat + 4096 := by
  have hsize : pageSize.toNat = 4096 := by decide
  have htop := stop.toNat_lt
  obtain ⟨hnext, hnat⟩ := toNat_checkedAdd (a := page) (b := pageSize) (by omega)
  exact ⟨hnext, hnat.trans (by rw [hsize])⟩

/-- What `parse_segments` guarantees of a segment. -/
structure Segment.Ok (image : Image) (seg : Segment) : Prop where
  nonempty : 0 < seg.memsz.toNat
  file_le : seg.filesz.toNat ≤ seg.memsz.toNat
  low : 0x100000000 ≤ seg.vaddr.toNat
  high : seg.vaddr.toNat + seg.memsz.toNat ≤ 0x102000000
  file : seg.offset.toNat + seg.filesz.toNat ≤ image.length
  file_end : seg.offset.toNat + seg.filesz.toNat < 2 ^ 64

structure ProgramHeader where
  kind : UInt32
  segment : Segment
deriving DecidableEq, Repr

def programHeader (image : Image) (pos : Nat) : ProgramHeader :=
  ⟨(le32 image pos).getD 0, (le32 image (pos + 4)).getD 0, (le64 image (pos + 8)).getD 0,
    (le64 image (pos + 16)).getD 0, (le64 image (pos + 32)).getD 0, (le64 image (pos + 40)).getD 0⟩

def programHeaders (image : Image) : List ProgramHeader :=
  (headerPositions ((le64 image 32).getD 0).toNat ((le16 image 56).getD 0).toNat).map (programHeader image)

def loadHeaders (image : Image) : List Segment :=
  ((programHeaders image).filter fun h => h.kind = ptLoad).map ProgramHeader.segment

theorem okOr_bind {α β : Type} {o : Option α} {e : LoadError} {f : α → Except LoadError β} {b : β}
    (h : (okOr o e >>= f) = .ok b) : ∃ a, o = some a ∧ f a = .ok b := by
  cases o with
  | none => cases h
  | some a => exact ⟨a, rfl, h⟩

theorem except_bind {α β : Type} {x : Except LoadError α} {f : α → Except LoadError β} {b : β}
    (h : (x >>= f) = .ok b) : ∃ a, x = .ok a ∧ f a = .ok b := by
  cases x with
  | error e => cases h
  | ok a => exact ⟨a, rfl, h⟩

theorem ite_error {α : Type} {c : Prop} [Decidable c] {e : LoadError} {x : Except LoadError α} {a : α}
    (h : (if c then .error e else x) = .ok a) : ¬c ∧ x = .ok a := by
  by_cases hc : c
  · rw [if_pos hc] at h
    cases h
  · rw [if_neg hc] at h
    exact ⟨hc, h⟩

theorem parseProgramHeader_ok {o : Option Segment} (h : parseProgramHeader image pos = .ok o) :
    o = (if (programHeader image pos).kind = ptLoad ∧ (programHeader image pos).segment.memsz ≠ 0 then
        some (programHeader image pos).segment else none) ∧ ∀ seg ∈ o, seg.Ok image := by
  unfold parseProgramHeader at h
  obtain ⟨kind, hkind, h⟩ := okOr_bind h
  have hk : (programHeader image pos).kind = kind := by rw [programHeader, hkind]; rfl
  rw [hk]
  by_cases hload : kind ≠ ptLoad
  · rw [if_pos hload] at h
    cases h
    rw [if_neg fun hc => hload hc.1]
    exact ⟨rfl, nofun⟩
  rw [if_neg hload] at h
  obtain ⟨flags, hflags, h⟩ := okOr_bind h
  obtain ⟨offset, hoffset, h⟩ := okOr_bind h
  obtain ⟨vaddr, hvaddr, h⟩ := okOr_bind h
  obtain ⟨filesz, hfilesz, h⟩ := okOr_bind h
  obtain ⟨memsz, hmemsz, h⟩ := okOr_bind h
  obtain ⟨align, -, h⟩ := okOr_bind h
  have hs : (programHeader image pos).segment = ⟨flags, offset, vaddr, filesz, memsz⟩ := by
    rw [programHeader, hflags, hoffset, hvaddr, hfilesz, hmemsz]
    rfl
  rw [hs]
  dsimp only
  by_cases hmem : memsz = 0
  · rw [if_pos hmem] at h
    cases h
    rw [if_neg fun hc => hc.2 hmem]
    exact ⟨rfl, nofun⟩
  rw [if_neg hmem] at h
  -- from here on every check that fails is an error
  obtain ⟨hfile, h⟩ := ite_error h
  obtain ⟨stop, hstop, h⟩ := okOr_bind h
  obtain ⟨hrange, h⟩ := ite_error h
  obtain ⟨fileEnd, hend, h⟩ := okOr_bind h
  obtain ⟨hlen, h⟩ := ite_error h
  obtain ⟨-, h⟩ := ite_error h
  cases h
  rw [if_pos ⟨not_not.mp hload, hmem⟩]
  refine ⟨rfl, fun seg hseg => ?_⟩
  cases hseg
  unfold checkedAdd at hstop hend
  split_ifs at hstop hend with h1 h2
  cases hstop
  cases hend
  simp only [not_or, gt_iff_lt, UInt64.le_iff_toNat_le, UInt64.lt_iff_toNat_lt, UInt64.toNat_add,
    Nat.mod_eq_of_lt h1] at hrange
  rw [gt_iff_lt, UInt64.not_lt, UInt64.le_iff_toNat_le] at hfile
  rw [Nat.not_lt, UInt64.toNat_add, Nat.mod_eq_of_lt h2] at hlen
  have hmin : appMin.toNat = 0x100000000 := rfl
  have hmax : appMax.toNat = 0x102000000 := rfl
  exact ⟨by dsimp only; omega, hfile, by dsimp only; omega, by dsimp only; omega, hlen, h2⟩

theorem parseProgramHeaders_ok (ps : List Nat) :
    ∀ {segs : List Segment}, parseProgramHeaders image ps = .ok segs →
      segs = (((ps.map (programHeader image)).filter fun h => h.kind = ptLoad).map
        ProgramHeader.segment).filter (fun seg => seg.memsz ≠ 0) ∧ ∀ seg ∈ segs, seg.Ok image := by
  induction ps with
  | nil =>
    intro segs h
    cases h
    exact ⟨rfl, nofun⟩
  | cons pos ps ih =>
    intro segs h
    obtain ⟨o, ho, h⟩ := except_bind h
    obtain ⟨rest, hrest, h⟩ := except_bind h
    obtain ⟨rfl, hok⟩ := parseProgramHeader_ok ho
    obtain ⟨rfl, hok'⟩ := ih hrest
    cases h
    refine ⟨?_, fun seg hseg => ?_⟩
    · by_cases hk : (programHeader image pos).kind = ptLoad <;>
        by_cases hm : (programHeader image pos).segment.memsz = 0 <;> simp [hk, hm]
    · rcases List.mem_append.mp hseg with hseg | hseg
      · exact hok seg (Option.mem_toList.mp hseg)
      · exact hok' seg hseg

theorem parseFileHeader_ok {entry : UInt64} {phoff phnum : Nat}
    (h : parseFileHeader image = .ok (entry, phoff, phnum)) :
    (((le64 image 32).getD 0).toNat = phoff ∧ ((le16 image 56).getD 0).toNat = phnum) ∧
      1 ≤ phnum ∧ phnum ≤ 16 ∧ phoff + phnum * programHeaderSize ≤ image.length := by
  unfold parseFileHeader at h
  obtain ⟨-, h⟩ := ite_error h
  obtain ⟨-, h⟩ := ite_error h
  obtain ⟨-, h⟩ := ite_error h
  obtain ⟨-, h⟩ := ite_error h
  obtain ⟨-, h⟩ := ite_error h
  obtain ⟨kind, -, h⟩ := okOr_bind h
  obtain ⟨-, h⟩ := ite_error h
  obtain ⟨cpu, -, h⟩ := okOr_bind h
  obtain ⟨-, h⟩ := ite_error h
  obtain ⟨version, -, h⟩ := okOr_bind h
  obtain ⟨-, h⟩ := ite_error h
  obtain ⟨start, -, h⟩ := okOr_bind h
  obtain ⟨off, hoff, h⟩ := okOr_bind h
  obtain ⟨hsize, -, h⟩ := okOr_bind h
  obtain ⟨size, -, h⟩ := okOr_bind h
  obtain ⟨num, hnum, h⟩ := okOr_bind h
  obtain ⟨hsizes, h⟩ := ite_error h
  obtain ⟨hcount, h⟩ := ite_error h
  obtain ⟨htable, h⟩ := ite_error h
  cases h
  rw [not_or, not_or, not_not, not_not] at hsizes
  rw [maxProgramHeaders] at hcount
  rw [hsizes.2.1] at htable
  rw [hoff, hnum]
  exact ⟨⟨rfl, rfl⟩, by omega, by omega, by omega⟩

theorem parseSegments_ok {entry : UInt64} {segs : List Segment} (h : parseSegments image = .ok (entry, segs)) :
    segs = (loadHeaders image).filter (fun seg => seg.memsz ≠ 0) ∧ ∀ seg ∈ segs, seg.Ok image := by
  unfold parseSegments at h
  obtain ⟨⟨entry', phoff, phnum⟩, hhead, h⟩ := except_bind h
  obtain ⟨segs', hsegs, h⟩ := except_bind h
  obtain ⟨-, h⟩ := ite_error h
  obtain ⟨-, h⟩ := ite_error h
  obtain ⟨-, h⟩ := ite_error h
  cases h
  obtain ⟨⟨hoff, hnum⟩, -⟩ := parseFileHeader_ok hhead
  obtain ⟨hfilter, hok⟩ := parseProgramHeaders_ok _ hsegs
  refine ⟨?_, hok⟩
  rw [hfilter, loadHeaders, programHeaders, hoff, hnum]

end Pippin.Elf
