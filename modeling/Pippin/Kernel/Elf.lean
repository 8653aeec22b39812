import Pippin.Kernel.Paging
import Pippin.Kernel.Scheduler

/-! The application loader of `elf.rs`. Images are byte lists; an offset into one is a
natural number, since a slice is never longer than `usize` allows. -/

namespace Pippin.Elf
open Mem Mm Sched

def elfHeaderSize : Nat := 64
def programHeaderSize : Nat := 56
def ptLoad : UInt32 := 1
def etExec : UInt16 := 2
def emX86 : UInt16 := 62

def appMin : UInt64 := 0x100000000
def appMax : UInt64 := 0x102000000
def stackTop : UInt64 := 0x104000000
def stackPages : Nat := 4
def maxProgramHeaders : Nat := 16
def maxMappedPages : Nat := 256

def pageSize : UInt64 := 0x1000

inductive LoadError where
  | truncated | badMagic | unsupportedClass | unsupportedEndian | unsupportedType | unsupportedMachine
  | badHeader | tooManyHeaders | badSegment | addressOutOfRange | outOfMemory | mapFailed
  | noLoadSegments | badEntry | schedulerBusy
deriving DecidableEq, Repr

structure LoadReport where
  entry : UInt64
  mappedPages : Nat
  imageBytes : Nat
deriving DecidableEq, Repr

structure Segment where
  flags : UInt32
  offset : UInt64
  vaddr : UInt64
  filesz : UInt64
  memsz : UInt64
deriving DecidableEq, Repr

structure Mapping where
  virt : UInt64
  phys : UInt64
deriving DecidableEq, Repr

abbrev Image := List UInt8

def okOr {α : Type} (o : Option α) (e : LoadError) : Except LoadError α :=
  match o with
  | some a => .ok a
  | none => .error e

def checkedAdd (a b : UInt64) : Option UInt64 := if a.toNat + b.toNat < 2 ^ 64 then some (a + b) else none

def leAt (bytes : Image) (pos n : Nat) : Option Nat :=
  if pos + n ≤ bytes.length then some (Bytes.ofLE ((bytes.drop pos).take n)) else none

def le16 (bytes : Image) (pos : Nat) : Option UInt16 := (leAt bytes pos 2).map UInt16.ofNat
def le32 (bytes : Image) (pos : Nat) : Option UInt32 := (leAt bytes pos 4).map UInt32.ofNat
def le64 (bytes : Image) (pos : Nat) : Option UInt64 := (leAt bytes pos 8).map UInt64.ofNat

def alignDown (value : UInt64) : UInt64 := value &&& ~~~0xFFF

def alignUp (value : UInt64) : Option UInt64 := (checkedAdd value 0xFFF).map (· &&& ~~~0xFFF)

/-! ## Parsing -/

/-- The checks on the file header; gives the entry point and the place and length of
the program header table. -/
def parseFileHeader (image : Image) : Except LoadError (UInt64 × Nat × Nat) :=
  if image.length < elfHeaderSize then .error .truncated
  else if image.take 4 ≠ [0x7F, 0x45, 0x4C, 0x46] then .error .badMagic
  else if image.getD 4 0 ≠ 2 then .error .unsupportedClass
  else if image.getD 5 0 ≠ 1 then .error .unsupportedEndian
  else if image.getD 6 0 ≠ 1 then .error .badHeader
  else do
    if (← okOr (le16 image 16) .truncated) ≠ etExec then .error .unsupportedType
    else if (← okOr (le16 image 18) .truncated) ≠ emX86 then .error .unsupportedMachine
    else if (← okOr (le32 image 20) .truncated) ≠ 1 then .error .badHeader
    else
      let entry ← okOr (le64 image 24) .truncated
      let phoff ← okOr (le64 image 32) .truncated
      let ehsize ← okOr (le16 image 52) .truncated
      let phentsize ← okOr (le16 image 54) .truncated
      let phnum ← okOr (le16 image 56) .truncated
      if ehsize.toNat ≠ elfHeaderSize ∨ phentsize.toNat ≠ programHeaderSize ∨ phnum.toNat = 0 then
        .error .badHeader
      else if maxProgramHeaders < phnum.toNat then .error .tooManyHeaders
      else if image.length < phoff.toNat + phnum.toNat * phentsize.toNat then .error .truncated
      else .ok (entry, phoff.toNat, phnum.toNat)

def isPowerOfTwo (a : UInt64) : Bool := a ≠ 0 && a &&& (a - 1) = 0

def parseProgramHeader (image : Image) (pos : Nat) : Except LoadError (Option Segment) := do
  if (← okOr (le32 image pos) .truncated) ≠ ptLoad then .ok none
  else
    let flags ← okOr (le32 image (pos + 4)) .truncated
    let offset ← okOr (le64 image (pos + 8)) .truncated
    let vaddr ← okOr (le64 image (pos + 16)) .truncated
    let filesz ← okOr (le64 image (pos + 32)) .truncated
    let memsz ← okOr (le64 image (pos + 40)) .truncated
    let align ← okOr (le64 image (pos + 48)) .truncated
    if memsz = 0 then .ok none
    else if filesz > memsz then .error .badSegment
    else
      let stop ← okOr (checkedAdd vaddr memsz) .badSegment
      if vaddr < appMin ∨ stop > appMax ∨ stop ≤ vaddr then .error .addressOutOfRange
      else
        let fileEnd ← okOr (checkedAdd offset filesz) .badSegment
        if image.length < fileEnd.toNat then .error .truncated
        else if align > 1 ∧ (¬isPowerOfTwo align ∨ (vaddr - offset) &&& (align - 1) ≠ 0) then .error .badSegment
        else .ok (some ⟨flags, offset, vaddr, filesz, memsz⟩)

def parseProgramHeaders (image : Image) : List Nat → Except LoadError (List Segment)
  | [] => .ok []
  | pos :: rest => do
    let segment ← parseProgramHeader image pos
    let segments ← parseProgramHeaders image rest
    .ok (segment.toList ++ segments)

def headerPositions (phoff phnum : Nat) : List Nat :=
  (List.range phnum).map fun index => phoff + index * programHeaderSize

def Segment.holdsEntry (s : Segment) (entry : UInt64) : Bool :=
  s.flags &&& 1 ≠ 0 && s.vaddr ≤ entry && entry.toNat < min (s.vaddr.toNat + s.memsz.toNat) (2 ^ 64 - 1)

def parseSegments (image : Image) : Except LoadError (UInt64 × List Segment) := do
  let (entry, phoff, phnum) ← parseFileHeader image
  let segments ← parseProgramHeaders image (headerPositions phoff phnum)
  if segments.isEmpty then .error .noLoadSegments
  else if entry < appMin ∨ entry ≥ appMax then .error .badEntry
  else if !segments.any (·.holdsEntry entry) then .error .badEntry
  else .ok (entry, segments)

/-! ## Mapping -/

/-- The machine and the list of mappings the loader has built so far. -/
structure LoadState where
  machine : Machine
  mappings : List Mapping

def Load (α : Type) : Type := LoadState → Except LoadError α × LoadState

instance : Monad Load where
  pure a := fun s => (.ok a, s)
  bind x f := fun s =>
    match x s with
    | (.ok a, s') => f a s'
    | (.error e, s') => (.error e, s')

def lift {α : Type} (x : Except LoadError α) : Load α := fun s => (x, s)

def getMappings : Load (List Mapping) := fun s => (.ok s.mappings, s)

def onMachine (f : Machine → Machine) : Load Unit := fun s => (.ok (), { s with machine := f s.machine })

def mappedPhys (mappings : List Mapping) (page : UInt64) : Option UInt64 :=
  (mappings.find? fun m => m.virt = page).map Mapping.phys

def mapPage (page : UInt64) : Load UInt64 := fun s =>
  match mappedPhys s.mappings page with
  | some phys => (.ok phys, s)
  | none =>
    if maxMappedPages ≤ s.mappings.length then (.error .badSegment, s)
    else
      match allocZeroedFrame s.machine with
      | (none, m) => (.error .outOfMemory, { s with machine := m })
      | (some phys, m) =>
        match mapUserPage page phys m with
        | (none, m) => (.error .mapFailed, { s with machine := { m with frames := m.frames.freeFrames phys 1 } })
        | (some (), m) => (.ok phys, ⟨m, s.mappings ++ [⟨page, phys⟩]⟩)

def unmapOne (m : Machine) (mapping : Mapping) : Machine :=
  match unmapUserPage mapping.virt m with
  | (some phys, m) => { m with frames := m.frames.freeFrames phys 1 }
  | (none, m) => m

def rollback (mappings : List Mapping) (m : Machine) : Machine := mappings.reverse.foldl unmapOne m

def orRollback {α : Type} (x : Load α) : Load α := fun s =>
  match x s with
  | (.ok a, s) => (.ok a, s)
  | (.error e, s) => (.error e, { s with machine := rollback s.mappings s.machine })

def mapPages : Nat → UInt64 → UInt64 → Load Unit
  | 0, _, _ => pure ()
  | fuel + 1, page, stop =>
    if page < stop then do
      let _ ← orRollback (mapPage page)
      let next ← lift (okOr (checkedAdd page pageSize) .badSegment)
      mapPages fuel next stop
    else pure ()

def mapSegment (segment : Segment) : Load Unit := do
  let first := alignDown segment.vaddr
  let stop ← lift (okOr (checkedAdd segment.vaddr segment.memsz) .badSegment)
  let stop ← lift (okOr (alignUp stop) .badSegment)
  mapPages (stop.toNat / 4096 - first.toNat / 4096) first stop

def pageOffset (segment : Segment) (copied : UInt64) : Nat :=
  (segment.vaddr + copied - alignDown (segment.vaddr + copied)).toNat

def chunk (segment : Segment) (copied : UInt64) : Nat :=
  min (4096 - pageOffset segment copied) (segment.filesz - copied).toNat

def copyChunk (image : Image) (segment : Segment) (copied phys : UInt64) (m : Machine) : Machine :=
  let bytes := (image.drop (segment.offset + copied).toNat).take (chunk segment copied)
  { m with mem := m.mem.write (phys.toNat + pageOffset segment copied) bytes }

def copyPages (image : Image) (segment : Segment) : Nat → UInt64 → Load Unit
  | 0, _ => pure ()
  | fuel + 1, copied =>
    if copied < segment.filesz then do
      let phys ← lift (okOr (mappedPhys (← getMappings) (alignDown (segment.vaddr + copied))) .mapFailed)
      onMachine (copyChunk image segment copied phys)
      copyPages image segment fuel (copied + UInt64.ofNat (chunk segment copied))
    else pure ()

def copySegment (image : Image) (segment : Segment) : Load Unit :=
  copyPages image segment segment.filesz.toNat 0

def stackBase : UInt64 := stackTop - UInt64.ofNat stackPages * pageSize

def mapStack : List Nat → Load Unit
  | [] => pure ()
  | index :: rest => do
    let _ ← orRollback (mapPage (stackBase + UInt64.ofNat index * pageSize))
    mapStack rest

def forSegments (step : Segment → Load Unit) : List Segment → Load Unit
  | [] => pure ()
  | segment :: rest => do
    step segment
    forSegments step rest

def loadImage (image : Image) (segments : List Segment) : Load Unit := do
  forSegments mapSegment segments
  forSegments (copySegment image) segments
  mapStack (List.range stackPages)

/-! ## The application slot -/

/-- The machine, the scheduler and `ACTIVE_MAPPINGS`. -/
structure System where
  machine : Machine
  sched : State
  active : Option (List Mapping)

def releaseFinishedApp (s : System) : Except LoadError Unit × System :=
  match s.active with
  | none => (.ok (), s)
  | some old =>
    if !taskDead s.sched 3 then (.error .schedulerBusy, s)
    else (.ok (), { s with machine := rollback old s.machine, active := none })

def reapIfExited (s : System) : System :=
  match s.active with
  | none => s
  | some old =>
    if taskDead s.sched 3 then { s with machine := rollback old s.machine, active := none } else s

def loadAndSpawn (stackAt : Stacks) (image : Image) (eventPort : UInt16) (s : System) :
    Except LoadError LoadReport × System :=
  match releaseFinishedApp s with
  | (.error e, s) => (.error e, s)
  | (.ok (), s) =>
    match parseSegments image with
    | .error e => (.error e, s)
    | .ok (entry, segments) =>
      match loadImage image segments ⟨s.machine, []⟩ with
      | (.error e, l) => (.error e, { s with machine := l.machine })
      | (.ok (), l) =>
        match spawnUser stackAt s.sched entry (stackTop - 8) eventPort with
        | (false, _) => (.error .schedulerBusy, { s with machine := rollback l.mappings l.machine })
        | (true, sched) => (.ok ⟨entry, l.mappings.length, image.length⟩, ⟨l.machine, sched, some l.mappings⟩)

end Pippin.Elf
