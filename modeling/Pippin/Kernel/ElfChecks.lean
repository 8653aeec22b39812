import Pippin.Lib.Checked
import Pippin.Kernel.ElfHeaders

/-! `parse_segments` with every index and every unchecked operation as one that may fault.
No slice makes it fault, and what it accepts meets all that the loader assumes. -/

namespace Pippin.Elf
open Mem

/-- A byte slice as the language has it: its length fits `isize`. -/
structure ByteSlice where
  bytes : Image
  fits : bytes.length < 2 ^ 63

abbrev Parse (α : Type) := ExceptT LoadError Checked α

def usizeCheckedAdd (a b : Nat) : Option Nat := if a + b < 2 ^ 64 then some (a + b) else none

def usizeCheckedMul (a b : Nat) : Option Nat := if a * b < 2 ^ 64 then some (a * b) else none

namespace Parse

def checked {α : Type} (x : Checked α) : Parse α := ExceptT.mk (x.map .ok)

def add (a b : Nat) : Parse Nat := checked (if a + b < 2 ^ 64 then .ok (a + b) else .error .overflow)

def mul (a b : Nat) : Parse Nat := checked (if a * b < 2 ^ 64 then .ok (a * b) else .error .overflow)

def sub64 (a b : UInt64) : Parse UInt64 := checked (if b ≤ a then .ok (a - b) else .error .overflow)

def index (image : Image) (i : Nat) : Parse UInt8 := checked (Checked.get image i)

def orError {α : Type} (o : Option α) (e : LoadError) : Parse α := ExceptT.mk (.ok (okOr o e))

def fail {α : Type} (e : LoadError) : Parse α := ExceptT.mk (.ok (.error e))

/-- `bytes.get(at..at.checked_add(n)?)` -/
def leAt (bytes : Image) (pos n : Nat) : Option Nat :=
  (usizeCheckedAdd pos n).bind fun stop =>
    if stop ≤ bytes.length then some (Bytes.ofLE ((bytes.drop pos).take (stop - pos))) else none

def le16 (bytes : Image) (pos : Nat) : Parse UInt16 := orError ((leAt bytes pos 2).map UInt16.ofNat) .truncated
def le32 (bytes : Image) (pos : Nat) : Parse UInt32 := orError ((leAt bytes pos 4).map UInt32.ofNat) .truncated
def le64 (bytes : Image) (pos : Nat) : Parse UInt64 := orError ((leAt bytes pos 8).map UInt64.ofNat) .truncated

def fileHeader (image : Image) : Parse (UInt64 × Nat × Nat) :=
  if image.length < elfHeaderSize then fail .truncated
  else if image.take 4 ≠ [0x7F, 0x45, 0x4C, 0x46] then fail .badMagic
  else do
    if (← index image 4) ≠ 2 then fail .unsupportedClass
    else if (← index image 5) ≠ 1 then fail .unsupportedEndian
    else if (← index image 6) ≠ 1 then fail .badHeader
    else if (← le16 image 16) ≠ etExec then fail .unsupportedType
    else if (← le16 image 18) ≠ emX86 then fail .unsupportedMachine
    else if (← le32 image 20) ≠ 1 then fail .badHeader
    else
      let entry ← le64 image 24
      let phoff ← le64 image 32
      let ehsize ← le16 image 52
      let phentsize ← le16 image 54
      let phnum ← le16 image 56
      if ehsize.toNat ≠ elfHeaderSize ∨ phentsize.toNat ≠ programHeaderSize ∨ phnum.toNat = 0 then
        fail .badHeader
      else if maxProgramHeaders < phnum.toNat then fail .tooManyHeaders
      else
        let tableBytes ← orError (usizeCheckedMul phnum.toNat phentsize.toNat) .badHeader
        if ((usizeCheckedAdd phoff.toNat tableBytes).filter fun stop => stop ≤ image.length).isNone then fail .truncated
        else pure (entry, phoff.toNat, phnum.toNat)

def segment (image : Image) (pos : Nat) : Parse (Option Segment) := do
  if (← le32 image pos) ≠ ptLoad then pure none
  else
    let flags ← le32 image (← add pos 4)
    let offset ← le64 image (← add pos 8)
    let vaddr ← le64 image (← add pos 16)
    let filesz ← le64 image (← add pos 32)
    let memsz ← le64 image (← add pos 40)
    let align ← le64 image (← add pos 48)
    if memsz = 0 then pure none
    else if filesz > memsz then fail .badSegment
    else
      let stop ← orError (checkedAdd vaddr memsz) .badSegment
      if vaddr < appMin ∨ stop > appMax ∨ stop ≤ vaddr then fail .addressOutOfRange
      else
        let fileEnd ← orError (checkedAdd offset filesz) .badSegment
        if image.length < fileEnd.toNat then fail .truncated
        else if align > 1 then
          if ¬isPowerOfTwo align then fail .badSegment
          else if (vaddr - offset) &&& (← sub64 align 1) ≠ 0 then fail .badSegment
          else pure (some ⟨flags, offset, vaddr, filesz, memsz⟩)
        else pure (some ⟨flags, offset, vaddr, filesz, memsz⟩)

def segments (image : Image) (phoff : Nat) : List Nat → Parse (List Segment)
  | [] => pure []
  | header :: rest => do
    let pos ← add phoff (← mul header programHeaderSize)
    let found ← segment image pos
    let more ← segments image phoff rest
    pure (found.toList ++ more)

/-- `parse_segments`, faults included. -/
def all (image : Image) : Parse (UInt64 × List Segment) := do
  let (entry, phoff, phnum) ← fileHeader image
  let segs ← segments image phoff (List.range phnum)
  if segs.isEmpty then fail .noLoadSegments
  else if entry < appMin ∨ entry ≥ appMax then fail .badEntry
  else if !segs.any (·.holdsEntry entry) then fail .badEntry
  else pure (entry, segs)

end Parse

/-- The checked parser does not fault and returns what the plain one does. -/
def Agrees {α : Type} (x : Parse α) (y : Except LoadError α) : Prop := x.run = .ok y

section Agree

variable {α β : Type} {x : Parse α} {y : Except LoadError α} {image : Image} {pos : Nat}

theorem agrees_pure (a : α) : Agrees (pure a) (.ok a) := rfl

theorem agrees_fail (e : LoadError) : Agrees (Parse.fail e : Parse α) (.error e) := rfl

theorem agrees_orError (o : Option α) (e : LoadError) : Agrees (Parse.orError o e) (okOr o e) := rfl

theorem Agrees.bind {f : α → Parse β} {g : α → Except LoadError β} (h : Agrees x y)
    (hf : ∀ a, y = .ok a → Agrees (f a) (g a)) : Agrees (x >>= f) (y >>= g) := by
  have hx : x = ExceptT.mk (.ok y) := h
  rw [hx]
  cases y with
  | error e => rfl
  | ok a => exact hf a rfl

theorem Agrees.ite {c : Prop} [Decidable c] {x' : Parse α} {y' : Except LoadError α}
    (h : c → Agrees x y) (h' : ¬c → Agrees x' y') :
    Agrees (if c then x else x') (if c then y else y') := by
  split_ifs with hc
  · exact h hc
  · exact h' hc

theorem checked_bind (a : α) (f : α → Parse β) : (Parse.checked (.ok a) >>= f) = f a := rfl

theorem index_bind {i : Nat} (h : i < image.length) (f : UInt8 → Parse β) :
    (Parse.index image i >>= f) = f (image.getD i 0) := by
  rw [Parse.index, Checked.get_eq (List.getElem?_eq_getElem h), checked_bind,
    List.getD_eq_getElem _ _ h]

theorem add_bind {a b : Nat} (h : a + b < 2 ^ 64) (f : Nat → Parse β) : (Parse.add a b >>= f) = f (a + b) := by
  rw [Parse.add, if_pos h, checked_bind]

theorem mul_bind {a b : Nat} (h : a * b < 2 ^ 64) (f : Nat → Parse β) : (Parse.mul a b >>= f) = f (a * b) := by
  rw [Parse.mul, if_pos h, checked_bind]

theorem sub64_bind {a b : UInt64} (h : b ≤ a) (f : UInt64 → Parse β) : (Parse.sub64 a b >>= f) = f (a - b) := by
  rw [Parse.sub64, if_pos h, checked_bind]

theorem leAt_eq (hlen : image.length < 2 ^ 63) (pos n : Nat) : Parse.leAt image pos n = leAt image pos n := by
  unfold Parse.leAt leAt usizeCheckedAdd
  by_cases h : pos + n < 2 ^ 64
  · rw [if_pos h, Option.bind_some, Nat.add_sub_cancel_left]
  · rw [if_neg h, if_neg (by omega), Option.bind_none]

theorem agrees_le16 (hlen : image.length < 2 ^ 63) (pos : Nat) :
    Agrees (Parse.le16 image pos) (okOr (le16 image pos) .truncated) := by
  rw [Parse.le16, leAt_eq hlen]
  exact agrees_orError _ _

theorem agrees_le32 (hlen : image.length < 2 ^ 63) (pos : Nat) :
    Agrees (Parse.le32 image pos) (okOr (le32 image pos) .truncated) := by
  rw [Parse.le32, leAt_eq hlen]
  exact agrees_orError _ _

theorem agrees_le64 (hlen : image.length < 2 ^ 63) (pos : Nat) :
    Agrees (Parse.le64 image pos) (okOr (le64 image pos) .truncated) := by
  rw [Parse.le64, leAt_eq hlen]
  exact agrees_orError _ _

theorem agrees_fileHeader (hlen : image.length < 2 ^ 63) : Agrees (Parse.fileHeader image) (parseFileHeader image) := by
  unfold Parse.fileHeader parseFileHeader
  refine Agrees.ite (fun _ => agrees_fail _) fun h64 => ?_
  rw [elfHeaderSize, Nat.not_lt] at h64
  refine Agrees.ite (fun _ => agrees_fail _) fun _ => ?_
  rw [index_bind (by omega)]
  refine Agrees.ite (fun _ => agrees_fail _) fun _ => ?_
  rw [index_bind (by omega)]
  refine Agrees.ite (fun _ => agrees_fail _) fun _ => ?_
  rw [index_bind (by omega)]
  refine Agrees.ite (fun _ => agrees_fail _) fun _ => ?_
  refine (agrees_le16 hlen _).bind fun kind _ => Agrees.ite (fun _ => agrees_fail _) fun _ => ?_
  refine (agrees_le16 hlen _).bind fun cpu _ => Agrees.ite (fun _ => agrees_fail _) fun _ => ?_
  refine (agrees_le32 hlen _).bind fun version _ => Agrees.ite (fun _ => agrees_fail _) fun _ => ?_
  refine (agrees_le64 hlen _).bind fun entry _ => (agrees_le64 hlen _).bind fun phoff _ => ?_
  refine (agrees_le16 hlen _).bind fun ehsize _ => (agrees_le16 hlen _).bind fun phentsize _ => ?_
  refine (agrees_le16 hlen _).bind fun phnum _ => ?_
  refine Agrees.ite (fun _ => agrees_fail _) fun hsizes => Agrees.ite (fun _ => agrees_fail _) fun hnum => ?_
  rw [not_or, not_or, not_not, programHeaderSize, not_not] at hsizes
  rw [maxProgramHeaders] at hnum
  have hmul : usizeCheckedMul phnum.toNat phentsize.toNat = some (phnum.toNat * phentsize.toNat) := by
    refine if_pos ?_
    rw [hsizes.2.1]
    omega
  rw [hmul]
  show Agrees (if _ then _ else _) _
  have htable : ((usizeCheckedAdd phoff.toNat (phnum.toNat * phentsize.toNat)).filter
      fun stop => decide (stop ≤ image.length)).isNone = true ↔
      image.length < phoff.toNat + phnum.toNat * phentsize.toNat := by
    unfold usizeCheckedAdd
    split_ifs with h
    · simp
    · simp only [Option.filter_none, Option.isNone_none, true_iff]
      omega
  simp only [htable]
  exact Agrees.ite (fun _ => agrees_fail _) fun _ => agrees_pure _

theorem agrees_segment (hlen : image.length < 2 ^ 63) (hpos : pos + 56 ≤ image.length) :
    Agrees (Parse.segment image pos) (parseProgramHeader image pos) := by
  unfold Parse.segment parseProgramHeader
  refine (agrees_le32 hlen _).bind fun kind _ => Agrees.ite (fun _ => agrees_pure _) fun _ => ?_
  rw [add_bind (by omega)]
  refine (agrees_le32 hlen _).bind fun flags _ => ?_
  rw [add_bind (by omega)]
  refine (agrees_le64 hlen _).bind fun offset _ => ?_
  rw [add_bind (by omega)]
  refine (agrees_le64 hlen _).bind fun vaddr _ => ?_
  rw [add_bind (by omega)]
  refine (agrees_le64 hlen _).bind fun filesz _ => ?_
  rw [add_bind (by omega)]
  refine (agrees_le64 hlen _).bind fun memsz _ => ?_
  rw [add_bind (by omega)]
  refine (agrees_le64 hlen _).bind fun align _ => ?_
  refine Agrees.ite (fun _ => agrees_pure _) fun _ => Agrees.ite (fun _ => agrees_fail _) fun _ => ?_
  refine (agrees_orError _ _).bind fun stop _ => Agrees.ite (fun _ => agrees_fail _) fun _ => ?_
  refine (agrees_orError _ _).bind fun fileEnd _ => Agrees.ite (fun _ => agrees_fail _) fun _ => ?_
  by_cases halign : align > 1
  · have h1 : (1 : UInt64) ≤ align := UInt64.le_of_lt halign
    rw [if_pos halign]
    by_cases hpow : ¬isPowerOfTwo align
    · rw [if_pos hpow, if_pos ⟨halign, Or.inl hpow⟩]
      exact agrees_fail _
    · rw [if_neg hpow, sub64_bind h1]
      by_cases hrem : (vaddr - offset) &&& (align - 1) ≠ 0
      · rw [if_pos hrem, if_pos ⟨halign, Or.inr hrem⟩]
        exact agrees_fail _
      · rw [if_neg hrem, if_neg fun hc => hc.2.elim hpow hrem]
        exact agrees_pure _
  · rw [if_neg halign, if_neg fun hc => halign hc.1]
    exact agrees_pure _

theorem agrees_segments (hlen : image.length < 2 ^ 63) {phoff : Nat} (headers : List Nat)
    (h : ∀ i ∈ headers, phoff + i * programHeaderSize + 56 ≤ image.length) :
    Agrees (Parse.segments image phoff headers)
      (parseProgramHeaders image (headers.map fun i => phoff + i * programHeaderSize)) := by
  induction headers with
  | nil => exact agrees_pure _
  | cons i headers ih =>
    have hi := h i List.mem_cons_self
    rw [Parse.segments, List.map_cons, parseProgramHeaders, mul_bind (by omega), add_bind (by omega)]
    refine (agrees_segment hlen hi).bind fun found _ => ?_
    refine (ih fun j hj => h j (List.mem_cons_of_mem _ hj)).bind fun more _ => ?_
    exact agrees_pure _

end Agree

variable {image : Image} {pos : Nat}

def segmentAlign (image : Image) (pos : Nat) : UInt64 := (le64 image (pos + 48)).getD 0

/-- The address and the file offset agree modulo the alignment, where there is one. -/
def AlignedTo (seg : Segment) (align : UInt64) : Prop :=
  align.toNat ≤ 1 ∨
    (∃ k, align.toNat = 2 ^ k) ∧ seg.vaddr.toNat % align.toNat = seg.offset.toNat % align.toNat

theorem isPowerOfTwo_spec {a : UInt64} (h : isPowerOfTwo a = true) : ∃ k, a.toNat = 2 ^ k := by
  rw [isPowerOfTwo, Bool.and_eq_true, decide_eq_true_eq, decide_eq_true_eq] at h
  obtain ⟨hne, hand⟩ := h
  have hpos : a.toNat ≠ 0 := fun h0 => hne (UInt64.toNat_inj.mp h0)
  have hone : (1 : UInt64) ≤ a := UInt64.le_iff_toNat_le.mpr (Nat.pos_of_ne_zero hpos)
  have hzero : a.toNat &&& (a.toNat - 1) = 0 := by
    have h := congrArg UInt64.toNat hand
    rwa [UInt64.toNat_and, UInt64.toNat_sub_of_le _ _ hone] at h
  exact Nat.ne_zero_and_sub_one_eq_zero_iff_isPowerOfTwo.mp ⟨hpos, hzero⟩

theorem mod_eq_of_sub_mask {v o a : UInt64} {k : Nat} (ha : a.toNat = 2 ^ k)
    (h : (v - o) &&& (a - 1) = 0) : v.toNat % 2 ^ k = o.toNat % 2 ^ k := by
  have hk := Word.exponent_lt ha
  have hdvd : 2 ^ k ∣ 2 ^ 64 := Nat.pow_dvd_pow 2 (Nat.le_of_lt hk)
  have hzero : (2 ^ 64 - o.toNat + v.toNat) % 2 ^ k = 0 := by
    have h0 := congrArg UInt64.toNat h
    rwa [Word.toNat_and_pred ha, UInt64.toNat_sub, Nat.mod_mod_of_dvd _ hdvd] at h0
  have hsum : 2 ^ 64 - o.toNat + v.toNat + o.toNat = 2 ^ 64 + v.toNat := by
    have := o.toNat_lt
    omega
  have hv : (2 ^ 64 + v.toNat) % 2 ^ k = v.toNat % 2 ^ k := by
    rw [Nat.add_mod, Nat.mod_eq_zero_of_dvd hdvd, Nat.zero_add, Nat.mod_mod]
  rw [← hv, ← hsum, Nat.add_mod, hzero, Nat.zero_add, Nat.mod_mod]

theorem parseProgramHeader_aligned {seg : Segment} (h : parseProgramHeader image pos = .ok (some seg)) :
    (programHeader image pos).kind = ptLoad ∧ (programHeader image pos).segment = seg ∧
      AlignedTo seg (segmentAlign image pos) := by
  have hseg := (parseProgramHeader_ok h).1
  have hload : (programHeader image pos).kind = ptLoad ∧ (programHeader image pos).segment.memsz ≠ 0 := by
    by_contra hc
    rw [if_neg hc] at hseg
    cases hseg
  rw [if_pos hload, Option.some.injEq] at hseg
  refine ⟨hload.1, hseg.symm, ?_⟩
  unfold parseProgramHeader at h
  obtain ⟨kind, -, h⟩ := okOr_bind h
  by_cases hkind : kind ≠ ptLoad
  · rw [if_pos hkind] at h
    cases h
  rw [if_neg hkind] at h
  obtain ⟨flags, -, h⟩ := okOr_bind h
  obtain ⟨offset, -, h⟩ := okOr_bind h
  obtain ⟨vaddr, -, h⟩ := okOr_bind h
  obtain ⟨filesz, -, h⟩ := okOr_bind h
  obtain ⟨memsz, -, h⟩ := okOr_bind h
  obtain ⟨align, halign, h⟩ := okOr_bind h
  have ha : segmentAlign image pos = align := by rw [segmentAlign, halign, Option.getD_some]
  by_cases hmem : memsz = 0
  · rw [if_pos hmem] at h
    cases h
  rw [if_neg hmem] at h
  -- the checks before the one of the alignment
  obtain ⟨-, h⟩ := ite_error h
  obtain ⟨stop, -, h⟩ := okOr_bind h
  obtain ⟨-, h⟩ := ite_error h
  obtain ⟨fileEnd, -, h⟩ := okOr_bind h
  obtain ⟨-, h⟩ := ite_error h
  obtain ⟨hmod, h⟩ := ite_error h
  cases h
  rw [ha]
  by_cases h1 : align > 1
  · rw [not_and, not_or, not_not, not_not] at hmod
    obtain ⟨hpow, hmask⟩ := hmod h1
    obtain ⟨k, hk⟩ := isPowerOfTwo_spec hpow
    exact Or.inr ⟨⟨k, hk⟩, by rw [hk]; exact mod_eq_of_sub_mask hk hmask⟩
  · exact Or.inl (UInt64.le_iff_toNat_le.mp (UInt64.not_lt.mp h1))

theorem parseProgramHeaders_found (ps : List Nat) :
    ∀ {segs : List Segment}, parseProgramHeaders image ps = .ok segs →
      segs.length ≤ ps.length ∧ ∀ seg ∈ segs, ∃ pos ∈ ps, parseProgramHeader image pos = .ok (some seg) := by
  induction ps with
  | nil =>
    intro segs h
    cases h
    exact ⟨le_rfl, fun _ hm => absurd hm List.not_mem_nil⟩
  | cons pos ps ih =>
    intro segs h
    obtain ⟨o, ho, h⟩ := except_bind h
    obtain ⟨rest, hrest, h⟩ := except_bind h
    obtain ⟨hlen, hfound⟩ := ih hrest
    cases h
    constructor
    · have : o.toList.length ≤ 1 := by cases o <;> simp
      rw [List.length_append, List.length_cons]
      omega
    · intro seg hseg
      rcases List.mem_append.mp hseg with hseg | hseg
      · rw [Option.mem_toList] at hseg
        exact ⟨pos, List.mem_cons_self, by rw [ho, hseg]⟩
      · obtain ⟨p, hp, hparse⟩ := hfound seg hseg
        exact ⟨p, List.mem_cons_of_mem _ hp, hparse⟩

structure Validated (image : Image) (entry : UInt64) (segs : List Segment) : Prop where
  some_segment : 1 ≤ segs.length
  few : segs.length ≤ 16
  ok : ∀ seg ∈ segs, seg.Ok image
  aligned : ∀ seg ∈ segs, ∃ pos ∈ headerPositions ((le64 image 32).getD 0).toNat ((le16 image 56).getD 0).toNat,
    (programHeader image pos).kind = ptLoad ∧ (programHeader image pos).segment = seg ∧
      AlignedTo seg (segmentAlign image pos)
  entry_in : ∃ seg ∈ segs, seg.flags &&& 1 ≠ 0 ∧ seg.vaddr.toNat ≤ entry.toNat ∧
    entry.toNat < seg.vaddr.toNat + seg.memsz.toNat

theorem parseSegments_validated {entry : UInt64} {segs : List Segment}
    (h : parseSegments image = .ok (entry, segs)) : Validated image entry segs := by
  obtain ⟨-, hok⟩ := parseSegments_ok h
  unfold parseSegments at h
  obtain ⟨⟨entry', phoff, phnum⟩, hhead, h⟩ := except_bind h
  obtain ⟨segs', hsegs, h⟩ := except_bind h
  obtain ⟨hne, h⟩ := ite_error h
  obtain ⟨-, h⟩ := ite_error h
  obtain ⟨hany, h⟩ := ite_error h
  cases h
  obtain ⟨⟨hoff, hnum⟩, h1, h16, -⟩ := parseFileHeader_ok hhead
  obtain ⟨hlen, hfound⟩ := parseProgramHeaders_found _ hsegs
  rw [headerPositions, List.length_map, List.length_range] at hlen
  refine ⟨?_, hlen.trans h16, hok, ?_, ?_⟩
  · rw [List.isEmpty_iff] at hne
    exact List.length_pos_iff.mpr hne
  · intro seg hseg
    obtain ⟨pos, hpos, hparse⟩ := hfound seg hseg
    rw [hoff, hnum]
    exact ⟨pos, hpos, parseProgramHeader_aligned hparse⟩
  · rw [Bool.not_eq_true', Bool.not_eq_false, List.any_eq_true] at hany
    obtain ⟨seg, hseg, hhold⟩ := hany
    simp only [Segment.holdsEntry, Bool.and_eq_true, decide_eq_true_eq, UInt64.le_iff_toNat_le] at hhold
    exact ⟨seg, hseg, by simpa using hhold.1.1, hhold.1.2, by omega⟩

theorem agrees_all (image : ByteSlice) : Agrees (Parse.all image.bytes) (parseSegments image.bytes) := by
  unfold Parse.all parseSegments
  refine (agrees_fileHeader image.fits).bind fun head hhead => ?_
  obtain ⟨entry, phoff, phnum⟩ := head
  obtain ⟨-, -, -, htable⟩ := parseFileHeader_ok hhead
  refine (agrees_segments image.fits (List.range phnum) fun i hi => ?_).bind fun segs _ => ?_
  · have hlt := List.mem_range.mp hi
    rw [programHeaderSize] at htable ⊢
    omega
  · exact Agrees.ite (fun _ => agrees_fail _) fun _ => Agrees.ite (fun _ => agrees_fail _) fun _ =>
      Agrees.ite (fun _ => agrees_fail _) fun _ => agrees_pure _

end Pippin.Elf
