import Pippin.Lib.Bytes
import Pippin.Lib.Words

/-! The Memory Manager of `mem.rs`: the boot memory map and the bitmap allocator
of physical frames over the first GiB. A set bit is a reserved or used frame. -/

namespace Pippin.Mem

def kernelLoadBase : UInt64 := 0x100000

def bootMappedEnd : Nat := 0x40000000

def frameSize : Nat := 4096

def maxFrames : Nat := bootMappedEnd / frameSize

def higherHalfBase : UInt64 := 0xFFFF800000000000

def usizeAdd (a b : Nat) : Nat := (a + b) % 2 ^ 64

def usizeSub (a b : Nat) : Nat := (a + 2 ^ 64 - b) % 2 ^ 64

/-! ## Multiboot info and memory map -/

/-- One firmware memory region; `kind` 1 is usable RAM for Multiboot, 0 for Limine. -/
structure Region where
  base : UInt64
  len : UInt64
  kind : UInt64
deriving DecidableEq, Repr

/-- Reader over the Multiboot entries: size(4) base(8) length(8) type(4), then padding. -/
structure MemoryMap where
  ptr : Nat
  remaining : Nat

def MemoryMap.fromMultiboot (m : Memory) (mbInfo : UInt32) : Option MemoryMap :=
  if mbInfo = 0 then none
  else
    let p := mbInfo.toNat
    if m.readLE p 4 &&& (1 <<< 6) = 0 then none
    else some ⟨m.readLE (p + 48) 4, m.readLE (p + 44) 4⟩

def MemoryMap.next (m : Memory) (it : MemoryMap) : Option (Region × MemoryMap) :=
  if it.remaining < 4 then none
  else
    let size := m.readLE it.ptr 4
    if size < 20 ∨ it.remaining < size + 4 then none
    else some (⟨m.read64 (it.ptr + 4), m.read64 (it.ptr + 12), UInt64.ofNat (m.readLE (it.ptr + 20) 4)⟩,
      ⟨it.ptr + (size + 4), it.remaining - (size + 4)⟩)

/-- The regions a `for` loop over the reader visits. An entry takes at least 24 bytes,
so as many steps as there are bytes left exhaust it. -/
def MemoryMap.collect (m : Memory) : Nat → MemoryMap → List Region
  | 0, _ => []
  | fuel + 1, it =>
    match it.next m with
    | none => []
    | some (r, it) => r :: MemoryMap.collect m fuel it

def MemoryMap.regions (m : Memory) (it : MemoryMap) : List Region := it.collect m it.remaining

def multibootUpperMemory (m : Memory) (mbInfo : UInt32) : UInt64 :=
  if mbInfo = 0 then 0 else UInt64.ofNat (m.readLE (mbInfo.toNat + 8) 4) * 1024

/-! ## Frame bitmap -/

structure Frames where
  bitmap : Nat → UInt64
  total : Nat
  free : Nat
  hint : Nat

structure InitReport where
  regionCount : Nat
  usableKib : UInt64
  freeFrames : Nat
  totalFrames : Nat
deriving DecidableEq, Repr

namespace Frames

def bitIsUsed (s : Frames) (frame : Nat) : Bool :=
  s.bitmap (frame / 64) &&& Word.bit (frame % 64) != 0

def bitSet (s : Frames) (frame : Nat) (used : Bool) : Frames :=
  let w := s.bitmap (frame / 64)
  let mask := Word.bit (frame % 64)
  { s with bitmap := Function.update s.bitmap (frame / 64) (if used then w ||| mask else w &&& ~~~mask) }

def bitSetRange (s : Frames) (first last : Nat) (used : Bool) : Frames :=
  (List.range' first (last - first)).foldl (fun s f => s.bitSet f used) s

/-- Mark the frames of `[base, base + len)`, clamped to the bitmap. Freeing takes only
whole frames, reserving takes every frame touched; frame 0 stays reserved. -/
def paintRange (s : Frames) (base len : UInt64) (used : Bool) : Frames :=
  let stop := min (base.toNat + len.toNat) (2 ^ 64 - 1)
  let first := if used then base.toNat / frameSize else (base.toNat + (frameSize - 1)) / frameSize
  let last := if used then (stop + (frameSize - 1)) / frameSize else stop / frameSize
  s.bitSetRange (min (max first 1) maxFrames) (min last maxFrames) used

def reserved : Frames := ⟨fun _ => 0xFFFFFFFFFFFFFFFF, maxFrames, 0, 1⟩

def paintUsable (usable : Region → Bool) (s : Frames) (regions : List Region) : Frames :=
  regions.foldl (fun s r => if usable r then s.paintRange r.base r.len false else s) s

def usableKib (usable : Region → Bool) (regions : List Region) : UInt64 :=
  regions.foldl (fun n r => if usable r then n + r.len / 1024 else n) 0

@[irreducible] def countFree (s : Frames) : Nat :=
  (List.range' 1 (maxFrames - 1)).countP fun f => !s.bitIsUsed f

def counted (s : Frames) : Frames := { s with free := s.countFree }

/-- The reservations `init` makes after freeing the usable regions: low memory and the
kernel image, whose end the linker gives as a higher-half address. -/
def reserveBoot (s : Frames) (bssEnd : UInt64) : Frames :=
  let kend := bssEnd - higherHalfBase
  ((((s.paintRange 0x0 0x1000 true).paintRange 0x9000 0xA000 true).paintRange 0xA0000 0x100000
    true).paintRange 0x100000 0x200000 true).paintRange kernelLoadBase (kend - kernelLoadBase) true

def init (m : Memory) (mbInfo : UInt32) (bssEnd : UInt64) : Frames × InitReport :=
  let usable := fun r : Region => r.kind = 1
  let (count, kib, painted) :=
    match MemoryMap.fromMultiboot m mbInfo with
    | some map => ((map.regions m).length, usableKib usable (map.regions m),
        reserved.paintUsable usable (map.regions m))
    | none =>
      let upper := multibootUpperMemory m mbInfo
      (1, upper, reserved.paintRange kernelLoadBase upper false)
  let s := painted.reserveBoot bssEnd
  (s.counted, ⟨count, kib, s.countFree, s.total⟩)

def initLimine (regions : List Region) : Frames × InitReport :=
  let usable := fun r : Region => r.kind = 0
  let s := reserved.paintUsable usable regions
  (s.counted, ⟨regions.length, usableKib usable regions, s.countFree, s.total⟩)

/-- The search loop of `alloc_frames`, with the iterations left as its first argument.
A run never crosses the end of the bitmap: wrapping around starts a new one. -/
def scan (s : Frames) (count : Nat) : Nat → Nat → Nat → Nat → Option Nat
  | 0, _, _, _ => none
  | n + 1, frame, run, start =>
    let (frame, run) := if maxFrames ≤ frame then (1, 0) else (frame, run)
    if s.bitIsUsed frame then scan s count n (frame + 1) 0 start
    else
      let start := if run = 0 then frame else start
      if run + 1 = count then some start else scan s count n (frame + 1) (run + 1) start

def allocFrames (s : Frames) (count : Nat) : Option (UInt64 × Frames) :=
  match s.scan count (usizeAdd maxFrames count) (max s.hint 1) 0 1 with
  | none => none
  | some start => some (UInt64.ofNat (start * frameSize),
      { s.bitSetRange start (start + count) true with
        free := usizeSub s.free count, hint := start + count })

def freeFrames (s : Frames) (phys : UInt64) (count : Nat) : Frames :=
  let first := phys.toNat / frameSize
  { s.bitSetRange first (first + count) false with free := usizeAdd s.free count }

end Frames

end Pippin.Mem
