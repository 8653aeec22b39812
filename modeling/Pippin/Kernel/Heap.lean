import Pippin.Lib.Bytes

/-! The zone heap of `heap.rs`: a first-fit free list threaded through the
4 MiB static array it manages. Pointers and sizes are machine words, and their
arithmetic wraps as in the release build. Masking interrupts around the
critical section has no effect on this state. -/

namespace Pippin.Heap

def heapSize : Nat := 4 * 1024 * 1024

def align : UInt64 := 16

def blockBytes : UInt64 := 16

def wordBytes : UInt64 := 8

/-- Where the linker placed the static array: 16-byte aligned, not at the null
address, and with its one-past-the-end address representable. -/
structure HeapArray where
  base : UInt64
  aligned : base.toNat % 16 = 0
  nonnull : 0 < base.toNat
  fits : base.toNat + heapSize < 2 ^ 64

/-- `core::alloc::Layout`: the alignment is a power of two, and the size rounded
up to it does not exceed `isize::MAX`. -/
structure Layout where
  size : UInt64
  align : UInt64
  align_pow : ∃ k, align.toNat = 2 ^ k
  size_le : size.toNat + align.toNat ≤ 2 ^ 63

/-- The statics of the allocator and the memory the array lives in. -/
structure State where
  mem : Memory
  freeHead : UInt64
  ready : Bool

def alignUp (v a : UInt64) : UInt64 := (v + a - 1) &&& ~~~(a - 1)

def payload (block : UInt64) : UInt64 := block + blockBytes

def blockSize (m : Memory) (block : UInt64) : UInt64 := m.read64 block.toNat

def blockNext (m : Memory) (block : UInt64) : UInt64 := m.read64 (block.toNat + 8)

def writeBlock (m : Memory) (block size next : UInt64) : Memory :=
  (m.write64 block.toNat size).write64 (block.toNat + 8) next

def init (arr : HeapArray) (m : Memory) : State where
  mem := writeBlock m arr.base (UInt64.ofNat heapSize) 0
  freeHead := arr.base
  ready := true

/-- Unlink `cur`, which follows `prev` on the free list. -/
def unlink (s : State) (prev cur : UInt64) : State :=
  let next := blockNext s.mem cur
  if prev = 0 then { s with freeHead := next }
  else { s with mem := s.mem.write64 (prev.toNat + 8) next }

def splitTail (s : State) (tail size used : UInt64) : State :=
  if blockBytes ≤ size - used then
    { s with mem := writeBlock s.mem tail (size - used) s.freeHead, freeHead := tail }
  else s

/-- The body of the `used <= size` branch: `cur` becomes an allocated block whose
header address is stored in the word below the returned pointer `pa`. -/
def carve (s : State) (prev cur pa want used size : UInt64) : State :=
  let s := splitTail (unlink s prev cur) (pa + want) size used
  { s with mem := (s.mem.write64 cur.toNat used).write64 (pa - wordBytes).toNat cur }

/-- The first-fit scan. Fuel bounds the number of blocks visited; `none` stands for
a scan that has not ended by then. -/
def allocLoop (want align : UInt64) : Nat → State → UInt64 → UInt64 → Option (UInt64 × State)
  | 0, _, _, _ => none
  | fuel + 1, s, prev, cur =>
    if cur = 0 then some (0, s)
    else
      let size := blockSize s.mem cur
      let pa := alignUp (payload cur + wordBytes) align
      let used := pa + want - cur
      if used ≤ size then some (pa, carve s prev cur pa want used size)
      else allocLoop want align fuel s cur (blockNext s.mem cur)

def wantOf (layout : Layout) : UInt64 := max (alignUp layout.size align) align

def alignOf (layout : Layout) : UInt64 := max layout.align align

def scanFuel : Nat := heapSize / 16 + 1

def alloc (s : State) (layout : Layout) : Option (UInt64 × State) :=
  if s.ready then allocLoop (wantOf layout) (alignOf layout) scanFuel s 0 s.freeHead
  else some (0, s)

def dealloc (s : State) (ptr : UInt64) : State :=
  if ptr = 0 ∨ s.ready = false then s
  else
    let header := s.mem.read64 (ptr - wordBytes).toNat
    let size := blockSize s.mem header
    { s with mem := writeBlock s.mem header size s.freeHead, freeHead := header }

end Pippin.Heap
