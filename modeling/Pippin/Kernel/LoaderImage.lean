import Pippin.Kernel.Loader

/-! The memory image of a loaded application: which pages are added and which bytes they
hold. The copy loop works frame by frame; seen from the address space it is one write of
the file bytes of each segment. -/

namespace Pippin.Elf
open Mem Mm PageTable

variable {B M : Machine} {ks ms : List Mapping} {image : Image} {seg : Segment} {phys v : UInt64}

theorem Holds.write {f : Memory} (h : Holds M ms f) (hl : Loading B M (ks ++ ms)) (hm : ⟨v, phys⟩ ∈ ms) (off : Nat)
    (bs : List UInt8) (hlen : off + bs.length ≤ 4096) :
    Holds { M with mem := M.mem.write (phys.toNat + off) bs } ms (f.write (v.toNat + off) bs) := by
  intro m hmem k hk
  show M.mem.write (phys.toNat + off) bs (m.phys.toNat + k) = _
  have hm' := List.mem_append_right ks hm
  have hmem' := List.mem_append_right ks hmem
  by_cases he : m.virt = v
  · have hphys : m.phys = phys := by
      have hinj := List.inj_on_of_nodup_map hl.maps.virts hmem' hm' he
      rw [hinj]
    rw [he, hphys]
    refine Memory.write_congr ?_
    rw [← h _ hm k hk]
  · have hne : m.phys ≠ phys := fun hp => he (by
      have hinj := List.inj_on_of_nodup_map hl.accounts.nodup hmem' hm' hp
      rw [hinj])
    have hp1 := (hl.accounts.owned m.phys (List.mem_map_of_mem hmem')).aligned
    have hp2 := (hl.accounts.owned phys (List.mem_map_of_mem (f := Mapping.phys) hm')).aligned
    have hv1 := hl.maps.aligned m hmem'
    have hv2 := hl.maps.aligned _ hm'
    have hpne : m.phys.toNat ≠ phys.toNat := fun hc => hne (UInt64.toNat_inj.mp hc)
    have hvne : m.virt.toNat ≠ v.toNat := fun hc => he (UInt64.toNat_inj.mp hc)
    dsimp only at hv2
    rw [Memory.write_outside (by omega), Memory.write_outside (by omega)]
    exact h m hmem k hk

theorem copyPages_round {fuel : Nat} {copied : UInt64} (hlt : copied < seg.filesz)
    (hphys : mappedPhys ms (alignDown (seg.vaddr + copied)) = some phys) :
    copyPages image seg (fuel + 1) copied ⟨M, ms⟩ = copyPages image seg fuel
      (copied + UInt64.ofNat (chunk seg copied)) ⟨copyChunk image seg copied phys M, ms⟩ := by
  have hget : getMappings ⟨M, ms⟩ = (.ok ms, ⟨M, ms⟩) := rfl
  have hlift : lift (okOr (mappedPhys ms (alignDown (seg.vaddr + copied))) .mapFailed) ⟨M, ms⟩ =
      (.ok phys, ⟨M, ms⟩) := by
    rw [hphys]
    rfl
  have hon : onMachine (copyChunk image seg copied phys) ⟨M, ms⟩ =
      (.ok (), ⟨copyChunk image seg copied phys M, ms⟩) := rfl
  conv_lhs => unfold copyPages
  rw [if_pos hlt, bind_ok hget, bind_ok hlift, bind_ok hon]

theorem copyPages_done {fuel : Nat} {copied : UInt64} {s : LoadState} (h : ¬copied < seg.filesz) :
    copyPages image seg fuel copied s = (.ok (), s) := by
  cases fuel with
  | zero => rfl
  | succ fuel =>
    unfold copyPages
    rw [if_neg h]
    rfl

theorem mappedPhys_of_mem (h : v ∈ ms.map Mapping.virt) : ∃ phys, mappedPhys ms v = some phys := by
  cases hf : mappedPhys ms v with
  | some phys => exact ⟨phys, rfl⟩
  | none => exact absurd h (mappedPhys_none hf)

theorem chunk_spec (hok : seg.Ok image) {copied : UInt64} (h : copied.toNat < seg.filesz.toNat) :
    (alignDown (seg.vaddr + copied)).toNat + pageOffset seg copied = seg.vaddr.toNat + copied.toNat ∧
      seg.Touches (alignDown (seg.vaddr + copied)) ∧ pageOffset seg copied + chunk seg copied ≤ 4096 ∧
      0 < chunk seg copied ∧ copied.toNat + chunk seg copied ≤ seg.filesz.toNat ∧
      (copied + UInt64.ofNat (chunk seg copied)).toNat = copied.toNat + chunk seg copied ∧
      (seg.offset + copied).toNat = seg.offset.toNat + copied.toNat := by
  have hlow := hok.low
  have hhigh := hok.high
  have hle := hok.file_le
  have hend := hok.file_end
  have hfile := seg.filesz.toNat_lt
  have hvirt : (seg.vaddr + copied).toNat = seg.vaddr.toNat + copied.toNat := by
    rw [UInt64.toNat_add]
    omega
  have hdown : (alignDown (seg.vaddr + copied)).toNat = (seg.vaddr + copied).toNat / 4096 * 4096 := toNat_mask _
  have hoff : pageOffset seg copied = (seg.vaddr + copied).toNat % 4096 := by
    rw [pageOffset, UInt64.toNat_sub_of_le _ _ (UInt64.le_iff_toNat_le.mpr (by omega))]
    omega
  have hrem : (seg.filesz - copied).toNat = seg.filesz.toNat - copied.toNat :=
    UInt64.toNat_sub_of_le _ _ (UInt64.le_iff_toNat_le.mpr h.le)
  have hchunk : chunk seg copied = min (4096 - pageOffset seg copied) (seg.filesz.toNat - copied.toNat) := by
    rw [chunk, hrem]
  refine ⟨by omega, ⟨by omega, by omega, by omega⟩, by omega, by omega, by omega, ?_, ?_⟩
  · rw [UInt64.toNat_add, UInt64.toNat_ofNat']
    omega
  · rw [UInt64.toNat_add]
    omega

theorem copyPages_spec (hok : seg.Ok image) (fuel : Nat) :
    ∀ (copied : UInt64) {M : Machine}, Loading B M (ks ++ ms) → (∀ v, seg.Touches v → v ∈ ms.map Mapping.virt) →
      copied.toNat ≤ seg.filesz.toNat → seg.filesz.toNat ≤ copied.toNat + fuel →
      ∃ M', copyPages image seg fuel copied ⟨M, ms⟩ = (.ok (), ⟨M', ms⟩) ∧ Loading B M' (ks ++ ms) ∧
        ∀ f, Holds M ms f → Holds M' ms (f.write (seg.vaddr.toNat + copied.toNat)
          ((image.drop (seg.offset.toNat + copied.toNat)).take (seg.filesz.toNat - copied.toNat))) := by
  -- on the fuel: each round ends at a page boundary or at the end of the file part
  induction fuel with
  | zero =>
    intro copied M hl _ h1 h2
    refine ⟨M, rfl, hl, fun f hf => ?_⟩
    rw [show seg.filesz.toNat - copied.toNat = 0 by omega, List.take_zero, Memory.write_nil]
    exact hf
  | succ fuel ih =>
    intro copied M hl hpages h1 h2
    by_cases hlt : copied < seg.filesz
    · obtain ⟨hsum, htouch, hroom, hpos, hfit, hnext, hsrc⟩ := chunk_spec hok (UInt64.lt_iff_toNat_lt.mp hlt)
      obtain ⟨phys, hphys⟩ := mappedPhys_of_mem (hpages _ htouch)
      have hmem := mappedPhys_some hphys
      rw [copyPages_round hlt hphys]
      -- the bytes of this round and those of the rounds to come
      generalize hn : chunk seg copied = n at hroom hpos hfit hnext
      have hlen : ((image.drop (seg.offset.toNat + copied.toNat)).take n).length = n := by
        have := hok.file
        rw [List.length_take, List.length_drop]
        omega
      have hsplit : (image.drop (seg.offset.toNat + copied.toNat)).take (seg.filesz.toNat - copied.toNat) =
          (image.drop (seg.offset.toNat + copied.toNat)).take n ++
            (image.drop (seg.offset.toNat + (copied.toNat + n))).take (seg.filesz.toNat - (copied.toNat + n)) := by
        rw [show seg.filesz.toNat - copied.toNat = n + (seg.filesz.toNat - (copied.toNat + n)) by omega,
          List.take_add, List.drop_drop, Nat.add_assoc]
      have hchunk : copyChunk image seg copied phys M = ⟨M.mem.write (phys.toNat + pageOffset seg copied)
          ((image.drop (seg.offset.toNat + copied.toNat)).take n), M.cr3, M.frames⟩ := by
        rw [copyChunk, hn, hsrc]
      obtain ⟨hs, hacc⟩ := hl.accounts.write (List.mem_map_of_mem (f := Mapping.phys) (List.mem_append_right ks hmem))
        (pageOffset seg copied)
        ((image.drop (seg.offset.toNat + copied.toNat)).take n) (by omega)
      have hl' : Loading B (copyChunk image seg copied phys M) (ks ++ ms) := by
        rw [hchunk]
        exact ⟨hacc, hl.maps.same hl.accounts.paged hs⟩
      obtain ⟨M', hrun, hl'', hpost⟩ := ih (copied + UInt64.ofNat n) hl' hpages (by omega) (by omega)
      refine ⟨M', hrun, hl'', fun f hf => ?_⟩
      have hstep := hf.write hl hmem (pageOffset seg copied)
        ((image.drop (seg.offset.toNat + copied.toNat)).take n) (by omega)
      rw [← hchunk, hsum] at hstep
      have hrest := hpost _ hstep
      rw [hnext] at hrest
      rw [hsplit, ← Memory.write_append, hlen, Nat.add_assoc]
      exact hrest
    · rw [copyPages_done hlt]
      rw [UInt64.not_lt, UInt64.le_iff_toNat_le] at hlt
      refine ⟨M, rfl, hl, fun f hf => ?_⟩
      rw [show seg.filesz.toNat - copied.toNat = 0 by omega, List.take_zero, Memory.write_nil]
      exact hf

/-! ## Contents of the image -/

def fileBytes (image : Image) (seg : Segment) : List UInt8 :=
  (image.drop seg.offset.toNat).take seg.filesz.toNat

def imageMemory (image : Image) (segs : List Segment) (f : Memory) : Memory :=
  segs.foldl (fun f seg => f.write seg.vaddr.toNat (fileBytes image seg)) f

def Segment.covers (seg : Segment) (a : Nat) : Bool :=
  seg.vaddr.toNat ≤ a && a < seg.vaddr.toNat + seg.filesz.toNat

def fileByte (image : Image) (segs : List Segment) (a : Nat) : UInt8 :=
  match segs.reverse.find? (·.covers a) with
  | some seg => image.getD (seg.offset.toNat + (a - seg.vaddr.toNat)) 0
  | none => 0

theorem length_fileBytes (hok : seg.Ok image) : (fileBytes image seg).length = seg.filesz.toNat := by
  have := hok.file
  rw [fileBytes, List.length_take, List.length_drop]
  omega

theorem write_fileBytes (hok : seg.Ok image) (f : Memory) (a : Nat) :
    f.write seg.vaddr.toNat (fileBytes image seg) a =
      if seg.covers a then image.getD (seg.offset.toNat + (a - seg.vaddr.toNat)) 0 else f a := by
  have hlen := length_fileBytes hok
  have hfile := hok.file
  by_cases hc : seg.covers a = true
  · rw [if_pos hc]
    simp only [Segment.covers, Bool.and_eq_true, decide_eq_true_eq] at hc
    obtain ⟨k, rfl⟩ := Nat.exists_eq_add_of_le hc.1
    have hk : k < (fileBytes image seg).length := by omega
    rw [Memory.write_inside hk, Nat.add_sub_cancel_left, List.getD_eq_getElem _ _ (by omega)]
    simp only [fileBytes, List.getElem_take, List.getElem_drop]
  · rw [if_neg hc]
    simp only [Segment.covers, Bool.and_eq_true, decide_eq_true_eq] at hc
    exact Memory.write_outside (by omega)

theorem imageMemory_eq (segs : List Segment) (hok : ∀ seg ∈ segs, seg.Ok image) (a : Nat) :
    imageMemory image segs (fun _ => 0) a = fileByte image segs a := by
  induction segs using List.reverseRecOn with
  | nil => rfl
  | append_singleton segs seg ih =>
    have ih := ih fun seg' hm => hok seg' (List.mem_append_left _ hm)
    rw [imageMemory, List.foldl_append, List.foldl_cons, List.foldl_nil, write_fileBytes (hok seg (by simp))]
    rw [imageMemory] at ih
    rw [ih, fileByte, fileByte, List.reverse_append, List.reverse_singleton, List.singleton_append, List.find?_cons]
    cases seg.covers a <;> rfl

theorem fileByte_zero {segs : List Segment} {a : Nat} (h : ∀ seg ∈ segs, seg.covers a = false) :
    fileByte image segs a = 0 := by
  have hnone : segs.reverse.find? (·.covers a) = none := by
    rw [List.find?_eq_none]
    intro seg hm
    rw [h seg (List.mem_reverse.mp hm)]
    exact Bool.false_ne_true
  rw [fileByte, hnone]

/-! ## The whole image -/

theorem copySegments_spec (segs : List Segment) :
    ∀ {M : Machine}, Loading B M (ks ++ ms) → (∀ seg ∈ segs, seg.Ok image) →
      (∀ seg ∈ segs, ∀ v, seg.Touches v → v ∈ ms.map Mapping.virt) →
      ∃ M', forSegments (copySegment image) segs ⟨M, ms⟩ = (.ok (), ⟨M', ms⟩) ∧ Loading B M' (ks ++ ms) ∧
        ∀ f, Holds M ms f → Holds M' ms (imageMemory image segs f) := by
  induction segs with
  | nil =>
    intro M hl _ _
    exact ⟨M, rfl, hl, fun f hf => hf⟩
  | cons seg segs ih =>
    intro M hl hok hpages
    obtain ⟨M₁, hrun₁, hl₁, hf₁⟩ := copyPages_spec (hok seg List.mem_cons_self) seg.filesz.toNat 0 hl
      (hpages seg List.mem_cons_self) (Nat.zero_le _) (Nat.le_add_left _ _)
    obtain ⟨M₂, hrun₂, hl₂, hf₂⟩ := ih hl₁ (fun seg' hm => hok seg' (List.mem_cons_of_mem _ hm))
      (fun seg' hm => hpages seg' (List.mem_cons_of_mem _ hm))
    have hcopy : copySegment image seg ⟨M, ms⟩ = (.ok (), ⟨M₁, ms⟩) := hrun₁
    refine ⟨M₂, (bind_ok hcopy).trans hrun₂, hl₂, fun f hf => hf₂ _ ?_⟩
    have h := hf₁ f hf
    rwa [UInt64.toNat_zero, Nat.add_zero, Nat.add_zero, Nat.sub_zero] at h

def StackPage (v : UInt64) : Prop := v.toNat % 4096 = 0 ∧ 0x103FFC000 ≤ v.toNat ∧ v.toNat < 0x104000000

theorem stackPage_iff : (∃ i ∈ List.range stackPages, v.toNat = 0x103FFC000 + i * 4096) ↔ StackPage v := by
  unfold StackPage
  constructor
  · rintro ⟨i, hi, he⟩
    have hlt : i < 4 := List.mem_range.mp hi
    omega
  · intro h
    exact ⟨(v.toNat - 0x103FFC000) / 4096, List.mem_range.mpr (by rw [stackPages]; omega), by omega⟩

theorem loadImage_spec (hB : WindowClear B ks) {segs : List Segment} (hok : ∀ seg ∈ segs, seg.Ok image)
    (h : Loading B M ks) : ∃ r s, loadImage image segs ⟨M, []⟩ = (r, s) ∧
      ((r = .ok () ∧ Loading B s.machine (ks ++ s.mappings) ∧ Holds s.machine s.mappings (fileByte image segs) ∧
        ∀ v, v ∈ s.mappings.map Mapping.virt ↔ (∃ seg ∈ segs, seg.Touches v) ∨ StackPage v) ∨
      (∃ e, r = .error e) ∧ Loading B s.machine ks) := by
  unfold loadImage
  obtain ⟨r₁, s₁, hrun₁, ⟨u, rfl, hext₁⟩ | ⟨⟨e, rfl⟩, hl⟩⟩ := steps_mapSegments hB segs (s := ⟨M, []⟩) hok
    (by rwa [List.append_nil])
  swap
  · exact ⟨_, _, bind_error hrun₁, Or.inr ⟨⟨e, rfl⟩, hl⟩⟩
  have hv₁ : ∀ v, v ∈ s₁.mappings.map Mapping.virt ↔ ∃ seg ∈ segs, seg.Touches v := fun v => by
    rw [hext₁.virts]
    simp
  have hz₁ : Holds s₁.machine s₁.mappings fun _ => 0 := hext₁.holds _ nofun fun _ _ _ _ => rfl
  obtain ⟨M₂, hrun₂, hl₂, hf₂⟩ := copySegments_spec segs hext₁.loading hok
    fun seg hm v ht => (hv₁ v).mpr ⟨seg, hm, ht⟩
  have hf : Holds M₂ s₁.mappings (fileByte image segs) := by
    have h2 := hf₂ _ hz₁
    rwa [show imageMemory image segs (fun _ => 0) = fileByte image segs from funext (imageMemory_eq segs hok)] at h2
  rw [bind_ok hrun₁, bind_ok hrun₂]
  obtain ⟨r₃, s₃, hrun₃, ⟨u, rfl, hext₃⟩ | herr⟩ := steps_mapStack hB (List.range stackPages)
    (s := ⟨M₂, s₁.mappings⟩) (fun i hi => List.mem_range.mp hi) hl₂
  · refine ⟨_, _, hrun₃, Or.inl ⟨rfl, hext₃.loading, hext₃.holds _ hf ?_, fun v => ?_⟩⟩
    · -- segments end below the stack
      intro v hv k hk
      refine fileByte_zero fun seg hm => ?_
      obtain ⟨i, -, hi⟩ := hv
      have hhigh := (hok seg hm).high
      have hle := (hok seg hm).file_le
      simp only [Segment.covers, Bool.and_eq_false_iff, decide_eq_false_iff_not]
      omega
    · rw [hext₃.virts, hv₁, stackPage_iff]
  · exact ⟨_, _, hrun₃, Or.inr herr⟩

end Pippin.Elf
