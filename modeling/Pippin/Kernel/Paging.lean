import Pippin.Kernel.Frames

/-! Page-table edits of `mm.rs` on the machine: physical memory, the root register and
the frame allocator. Tables live in the direct map, so a physical address is
dereferenced as it is; TLB flushes are not modelled. -/

namespace Pippin.Mm
open Mem

structure Machine where
  mem : Memory
  cr3 : UInt64
  frames : Frames

def Kernel (α : Type) : Type := Machine → Option α × Machine

instance : Monad Kernel where
  pure a := fun m => (some a, m)
  bind x f := fun m =>
    match x m with
    | (some a, m') => f a m'
    | (none, m') => (none, m')

namespace Kernel

def fail {α : Type} : Kernel α := fun m => (none, m)

def load (a : Nat) : Kernel UInt64 := fun m => (some (m.mem.read64 a), m)

def store (a : Nat) (v : UInt64) : Kernel Unit := fun m => (some (), { m with mem := m.mem.write64 a v })

def readCr3 : Kernel UInt64 := fun m => (some m.cr3, m)

end Kernel

open Pippin.Mm.Kernel

def PRESENT : UInt64 := 1
def WRITABLE : UInt64 := 2
def USER : UInt64 := 4
def UNCACHED : UInt64 := 8 ||| 16
def HUGE : UInt64 := 128

def initialMapSize : UInt64 := 0x40000000
def userTop : UInt64 := 0x800000000000

def levelShift : Nat → UInt64
  | 0 => 39
  | 1 => 30
  | 2 => 21
  | _ => 12

def levelIndex (v : UInt64) (level : Nat) : Nat := ((v >>> levelShift level) &&& 0x1FF).toNat

def slotOf (entry : UInt64) (v : UInt64) (level : Nat) : Nat :=
  (entry &&& ~~~0xFFF).toNat + 8 * levelIndex v level

def allocZeroedFrame : Kernel UInt64 := fun m =>
  match m.frames.allocFrames 1 with
  | none => (none, m)
  | some (phys, frames) =>
    (some phys, { m with frames, mem := m.mem.write phys.toNat (List.replicate frameSize 0) })

/-- The table an entry points to, by its address field alone; a zero field gets a
fresh table. -/
def followTable (slot : Nat) : Kernel UInt64 := do
  let table := (← load slot) &&& ~~~0xFFF
  if table = 0 then
    let table ← allocZeroedFrame
    store slot (table ||| PRESENT ||| WRITABLE)
    return table
  else return table

def mapMmioPage (phys : UInt64) : Kernel UInt64 := do
  if phys &&& 0xFFF ≠ 0 ∨ phys < initialMapSize then fail
  else
    let root ← readCr3
    let pdpt := (← load (root.toNat + 8 * levelIndex phys 0)) &&& ~~~0xFFF
    if pdpt = 0 then fail
    else
      let pd ← followTable (pdpt.toNat + 8 * levelIndex phys 1)
      let pt ← followTable (pd.toNat + 8 * levelIndex phys 2)
      store (pt.toNat + 8 * levelIndex phys 3) (phys ||| PRESENT ||| WRITABLE ||| UNCACHED)
      return phys

def linkTable (slot : Nat) : Kernel Unit := do
  if (← load slot) &&& PRESENT = 0 then
    let table ← allocZeroedFrame
    store slot (table ||| PRESENT ||| WRITABLE ||| USER)
  else
    store slot ((← load slot) ||| USER)

/-- The 512 entries of a table that maps the memory from `base` on in pages of `step`. -/
def fillTable (table base step flags : UInt64) : Kernel Unit := fun m =>
  (some (), { m with mem := (List.range 512).foldl (fun mem i =>
    mem.write64 (table.toNat + 8 * i) ((base + UInt64.ofNat i * step) ||| flags)) m.mem })

def splitHuge (slot : Nat) (size step flags : UInt64) : Kernel Unit := do
  let old ← load slot
  if old &&& HUGE ≠ 0 then
    let base := old &&& ~~~(size - 1)
    let table ← allocZeroedFrame
    fillTable table base step flags
    store slot (table ||| PRESENT ||| WRITABLE ||| USER)

/-- The block of the two middle levels: no large page is left, then the table is open. -/
def openTable (slot : Nat) (size step flags : UInt64) : Kernel Unit := do
  splitHuge slot size step flags
  linkTable slot

def mapUserPage (virt phys : UInt64) : Kernel Unit := do
  if virt ≥ userTop ∨ virt &&& 0xFFF ≠ 0 ∨ phys &&& 0xFFF ≠ 0 ∨ phys ≥ initialMapSize then fail
  else
    let pml4e := slotOf (← readCr3) virt 0
    linkTable pml4e
    let pdpte := slotOf (← load pml4e) virt 1
    openTable pdpte (Word.bit 30) (Word.bit 21) (PRESENT ||| WRITABLE ||| HUGE)
    let pde := slotOf (← load pdpte) virt 2
    openTable pde (Word.bit 21) (Word.bit 12) (PRESENT ||| WRITABLE)
    store (slotOf (← load pde) virt 3) (phys ||| PRESENT ||| WRITABLE ||| USER)

def userPageMapped (m : Machine) (virt : UInt64) : Bool :=
  if virt ≥ userTop then false
  else
    let pml4e := m.mem.read64 (slotOf m.cr3 virt 0)
    if pml4e &&& (PRESENT ||| USER) ≠ PRESENT ||| USER then false
    else
      let pdpte := m.mem.read64 (slotOf pml4e virt 1)
      if pdpte &&& (PRESENT ||| USER) ≠ PRESENT ||| USER then false
      else if pdpte &&& HUGE ≠ 0 then true
      else
        let pde := m.mem.read64 (slotOf pdpte virt 2)
        if pde &&& (PRESENT ||| USER) ≠ PRESENT ||| USER then false
        else if pde &&& HUGE ≠ 0 then true
        else m.mem.read64 (slotOf pde virt 3) &&& (PRESENT ||| USER) = PRESENT ||| USER

/-- Remove one normal 4 KiB user mapping and return its physical frame. Intermediate
tables are retained. -/
def unmapUserPage (virt : UInt64) : Kernel UInt64 := do
  if virt &&& 0xFFF ≠ 0 then fail
  else
    let pml4e ← load (slotOf (← readCr3) virt 0)
    if pml4e &&& PRESENT = 0 then fail
    else
      let pdpte ← load (slotOf pml4e virt 1)
      if pdpte &&& PRESENT = 0 ∨ pdpte &&& HUGE ≠ 0 then fail
      else
        let pde ← load (slotOf pdpte virt 2)
        if pde &&& PRESENT = 0 ∨ pde &&& HUGE ≠ 0 then fail
        else
          let slot := slotOf pde virt 3
          let pte ← load slot
          if pte &&& (PRESENT ||| USER) ≠ PRESENT ||| USER then fail
          else
            store slot 0
            return pte &&& ~~~0xFFF

end Pippin.Mm
