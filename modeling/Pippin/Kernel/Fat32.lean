import Pippin.Lib.Bytes
import Pippin.Lib.Device
import Pippin.Lib.Text

/-! The File Manager of `file.rs`: the FAT32 reader of `HELLO.PIP` and the bundle parser.
The disk answers each call on its own, with a sector or a failure; the state logs every
access. Arithmetic on u32 wraps, as in the release build. -/

namespace Pippin.File
open Program

structure Sector where
  bytes : List UInt8
  length : bytes.length = 512

/-- What the disk does at each call of `read_sector`: the calls are numbered. -/
structure Disk where
  read : Nat → UInt64 → Option Sector

/-- The calls of `read_sector`, by what they are for. -/
inductive Site where
  | boot
  | fat
  | directory
  | file
deriving DecidableEq, Repr

inductive Access where
  | read (site : Site) (lba : UInt64)
  | copy (start amount : Nat)
deriving DecidableEq, Repr

/-- `FAT_BUNDLE` and what was done, the last access first. -/
structure Io where
  log : List Access
  bundle : Memory

abbrev FileIo (α : Type) : Type := Program Disk Io α

def readSector (site : Site) (lba : UInt64) : FileIo Sector := fun disk s =>
  let s' := { s with log := .read site lba :: s.log }
  match disk.read s.log.length lba with
  | some sector => (.returned sector, s')
  | none => (.gaveUp, s')

def copyToBundle (start : Nat) (bytes : List UInt8) : FileIo Unit := fun _ s =>
  (.returned (), ⟨.copy start bytes.length :: s.log, s.bundle.write start bytes⟩)

def bundleBytes (size : Nat) : FileIo (List UInt8) := fun _ s => (.returned (s.bundle.read 0 size), s)

def byteAt (bytes : List UInt8) (pos : Nat) : UInt8 := bytes.getD pos 0

def le16 (bytes : List UInt8) (pos : Nat) : UInt16 := UInt16.ofNat (Bytes.ofLE ((bytes.drop pos).take 2))

def le32 (bytes : List UInt8) (pos : Nat) : UInt32 := UInt32.ofNat (Bytes.ofLE ((bytes.drop pos).take 4))

def checkedAdd32 (a b : UInt32) : Option UInt32 := if a.toNat + b.toNat < 2 ^ 32 then some (a + b) else none

def checkedMul32 (a b : UInt32) : Option UInt32 := if a.toNat * b.toNat < 2 ^ 32 then some (a * b) else none

def isPowerOfTwo (n : UInt32) : Bool := n != 0 && n &&& (n - 1) == 0

/-! ## The bundle -/

structure Bundle where
  name : Str
  message : Str
deriving DecidableEq, Repr

def parse (contents : List UInt8) : Option Bundle := do
  let contents ← Str.fromUtf8 contents
  let lines := Str.lines contents
  if (← lines[0]?) ≠ "PIPPIN-BUNDLE/1".toList then none
  else
    let name ← Str.stripPrefix "name=".toList (← lines[1]?)
    let message ← Str.stripPrefix "message=".toList (← lines[2]?)
    if name = [] ∨ Str.len name > 64 ∨ Str.len message > 256 then none else some ⟨name, message⟩

/-! ## The volume -/

structure Fat32 where
  reserved : UInt32
  fatSize : UInt32
  firstData : UInt32
  sectorsPerCluster : UInt32
  root : UInt32
  clusters : UInt32
deriving DecidableEq, Repr

def totalSectors (sector : Sector) : UInt32 := le32 sector.bytes 32

/-- The checks of `mount` on the boot sector. -/
def Fat32.ofBootSector (sector : Sector) : Option Fat32 := do
  if sector.bytes.drop 510 ≠ [0x55, 0xaa] ∨ le16 sector.bytes 11 ≠ 512 ∨ le16 sector.bytes 17 ≠ 0 then none
  else
    let spc := (byteAt sector.bytes 13).toUInt32
    let reserved := (le16 sector.bytes 14).toUInt32
    let fats := (byteAt sector.bytes 16).toUInt32
    let fatSize := le32 sector.bytes 36
    let total := totalSectors sector
    let firstData ← checkedAdd32 reserved (← checkedMul32 fats fatSize)
    if spc = 0 ∨ !isPowerOfTwo spc ∨ spc > 64 ∨ fats = 0 ∨ fatSize = 0 ∨ firstData ≥ total then none
    else
      let clusters := (total - firstData) / spc
      let root := le32 sector.bytes 44
      if root < 2 ∨ root ≥ clusters + 2 then none
      else some ⟨reserved, fatSize, firstData, spc, root, clusters⟩

def mount : FileIo Fat32 := do
  let sector ← readSector .boot 0
  ofOption (Fat32.ofBootSector sector)

namespace Fat32

def firstSector (fat : Fat32) (cluster : UInt32) : Option UInt64 :=
  if cluster < 2 ∨ cluster ≥ fat.clusters + 2 then none
  else some (fat.firstData + (cluster - 2) * fat.sectorsPerCluster).toUInt64

def linkAt (sector : Sector) (pos : Nat) : Option UInt32 :=
  let next := le32 sector.bytes pos &&& 0x0fffffff
  if next ≥ 0x0ffffff8 then none else some next

def next (fat : Fat32) (cluster : UInt32) : FileIo UInt32 := do
  let byte ← ofOption (checkedMul32 cluster 4)
  if byte / 512 ≥ fat.fatSize then giveUp
  else
    let sector ← readSector .fat (fat.reserved + byte / 512).toUInt64
    ofOption (linkAt sector (byte % 512).toNat)

end Fat32

/-! ## The directory -/

/-- A directory row: the end mark, the entry looked for, or another one. -/
inductive Scan where
  | stop
  | found (start : UInt32) (size : Nat)
  | more
deriving DecidableEq, Repr

def rows (bytes : List UInt8) : List (List UInt8) :=
  (List.range (bytes.length / 32)).map fun i => (bytes.drop (32 * i)).take 32

def helloPip : List UInt8 := Str.bytes "HELLO   PIP".toList

def scanRow (row : List UInt8) : Scan :=
  if byteAt row 0 = 0 then .stop
  else if byteAt row 0 = 0xe5 ∨ byteAt row 11 = 0x0f ∨ byteAt row 11 &&& 0x18 ≠ 0 then .more
  else if row.take 11 = helloPip then
    .found ((le16 row 20).toUInt32 <<< 16 ||| (le16 row 26).toUInt32) (le32 row 28).toNat
  else .more

def scanRows : List (List UInt8) → Scan
  | [] => .more
  | row :: rest =>
    match scanRow row with
    | .more => scanRows rest
    | r => r

def scanSectors (first : UInt64) : List Nat → FileIo (Option (UInt32 × Nat))
  | [] => pure none
  | i :: rest => do
    let sector ← readSector .directory (first + UInt64.ofNat i)
    match scanRows (rows sector.bytes) with
    | .stop => giveUp
    | .found start size => return some (start, size)
    | .more => scanSectors first rest

/-- The loop over the clusters of the root directory; without an entry the caller gives up. -/
def findEntry (fat : Fat32) : Nat → UInt32 → FileIo (UInt32 × Nat)
  | 0, _ => giveUp
  | n + 1, cluster => do
    let first ← ofOption (fat.firstSector cluster)
    match ← scanSectors first (List.range fat.sectorsPerCluster.toNat) with
    | some entry => return entry
    | none => do
      let cluster ← fat.next cluster
      findEntry fat n cluster

/-! ## The file -/

def copySectors (first : UInt64) (size : Nat) : List Nat → Nat → FileIo Nat
  | [], copied => pure copied
  | i :: rest, copied => do
    let sector ← readSector .file (first + UInt64.ofNat i)
    let amount := min 512 (size - copied)
    copyToBundle copied (sector.bytes.take amount)
    let copied := copied + amount
    if copied = size then return copied else copySectors first size rest copied

/-- `while copied < size`, with a bound on the iterations. -/
def copyFile (fat : Fat32) (size : Nat) : Nat → UInt32 → Nat → FileIo Unit
  | 0, _, copied => if copied < size then cutOff else pure ()
  | fuel + 1, cluster, copied =>
    if copied < size then do
      let first ← ofOption (fat.firstSector cluster)
      let copied ← copySectors first size (List.range fat.sectorsPerCluster.toNat) copied
      let cluster ← (if copied < size then fat.next cluster else pure cluster)
      copyFile fat size fuel cluster copied
    else pure ()

/-- Load `HELLO.PIP` from the root of a FAT32 volume. -/
def fatBundle (fuel : Nat) : FileIo Bundle := do
  let fat ← mount
  let (cluster, size) ← findEntry fat 16 fat.root
  if size = 0 ∨ size > 4096 then giveUp
  else
    copyFile fat size fuel cluster 0
    ofOption (parse (← bundleBytes size))

end Pippin.File
