import Pippin.Kernel.Ipc
import Pippin.Kernel.Lifecycle
import Pippin.Lib.Text

/-! The syscalls of `syscall.rs`, on the system of the loader with the ports, the `mmap` flag
and the serial output. User memory is read and written through the page tables. -/

namespace Pippin.Syscall
open Mem Mm Sched Elf PageTable

/-- `USER_MAPPED` is set once an application has got its page. -/
structure World extends System where
  userMapped : Bool
  ports : Ipc.Ports
  output : Str

def userMmap : UInt64 := 0x108000000

def failure : UInt64 := 0xFFFFFFFFFFFFFFFF

/-- The loop of `user_range_mapped`, one page a round. -/
def userPagesMapped (m : Machine) (lastPage : UInt64) : Nat → UInt64 → Bool
  | 0, _ => false -- not reached, the rounds last to `lastPage`
  | rounds + 1, page =>
    if !userPageMapped m page then false
    else if page = lastPage then true
    else (checkedAdd page pageSize).any fun next => userPagesMapped m lastPage rounds next

def userRangeMapped (m : Machine) (ptr len : UInt64) : Bool :=
  if len = 0 then true
  else (checkedAdd ptr (len - 1)).any fun last =>
    let page := alignDown ptr
    let lastPage := alignDown last
    userPagesMapped m lastPage (lastPage.toNat / 4096 - page.toNat / 4096 + 1) page

def physicalOf (m : Machine) (a : UInt64) : Option Nat := (m.pageAt a).map fun page => page * 4096 + a.toNat % 4096

def readUser (m : Machine) (a : UInt64) : Nat → List UInt8
  | 0 => []
  | n + 1 => ((physicalOf m a).map m.mem).getD 0 :: readUser m (a + 1) n

def writeUser (m : Machine) (a : UInt64) : List UInt8 → Machine
  | [] => m
  | b :: bs =>
    match physicalOf m a with
    | some p => writeUser { m with mem := m.mem.write p [b] } (a + 1) bs
    | none => writeUser m (a + 1) bs

def eventBytes : UInt64 := 16

def writeEvent (m : Machine) (a : UInt64) (event : Ipc.Event) : Machine :=
  let m := writeUser m a (Bytes.toLE 2 event.kind.toNat)
  let m := writeUser m (a + 4) (Bytes.toLE 4 event.sourcePid.toNat)
  writeUser m (a + 8) (Bytes.toLE 8 event.value.toNat)

namespace World

def log (w : World) (a0 a1 : UInt64) : UInt64 × World :=
  if a1 > 256 || !userRangeMapped w.machine a0 a1 then (failure, w)
  else
    match Str.fromUtf8 (readUser w.machine a0 a1.toNat) with
    | some message => (0, { w with output := w.output ++ message })
    | none => (failure, w)

def mmap (w : World) (a0 : UInt64) : UInt64 × World :=
  if a0 ≠ userMmap ∨ w.userMapped then (failure, w)
  else
    match allocZeroedFrame w.machine with
    | (none, m) => (failure, { w with machine := m })
    | (some phys, m) =>
      match mapUserPage userMmap phys m with
      | (none, m) => (failure, { w with machine := { m with frames := m.frames.freeFrames phys 1 } })
      | (some (), m) => (userMmap, { w with machine := m, userMapped := true })

def send (w : World) (a0 a1 a2 : UInt64) : UInt64 × World :=
  if a0 ≤ 0xFFFF ∧ a1 ≤ 0xFFFF then
    match Ipc.send w.ports (currentPid w.sched) a0.toUInt16 a1.toUInt16 a2 with
    | (true, ports) => (0, { w with ports })
    | (false, ports) => (failure, { w with ports })
  else (failure, w)

def recv (w : World) (a0 a1 : UInt64) : UInt64 × World :=
  if !userRangeMapped w.machine a1 eventBytes then (failure, w)
  else
    match Ipc.recv w.ports (currentPid w.sched) a0.toUInt16 with
    | (some event, ports) => (0, { w with machine := writeEvent w.machine a1 event, ports })
    | (none, ports) => (failure, { w with ports })

/-- `pippin_syscall_dispatch`. Syscall 0 does not return: it raises the exit interrupt, whose
frame is `frame`. -/
def dispatch (w : World) (frame number a0 a1 a2 : UInt64) : Except Stop (Option UInt64 × World) :=
  if number = 0 then (onExit w.sched frame).map fun (_, sched) => (none, { w with sched })
  else .ok <| (fun (r, w) => (some r, w)) <|
    if number = 1 then w.log a0 a1
    else if number = 2 then w.mmap a0
    else if number = 3 then w.send a0 a1 a2
    else if number = 4 then w.recv a0 a1
    else (failure, w)

end World

variable {B M : Machine} {ms : List Mapping} {v ptr len : UInt64}

/-! ## User memory -/

theorem userPageMapped_lt {M : Machine} (h : userPageMapped M v = true) : v < userTop := by
  unfold userPageMapped at h
  by_cases hv : v ≥ userTop
  · rw [if_pos hv] at h
    cases h
  · exact UInt64.not_le.mp hv

theorem userPagesMapped_spec {lastPage : UInt64} (hlast : lastPage.toNat % 4096 = 0) (rounds : Nat) :
    ∀ {page : UInt64}, page.toNat % 4096 = 0 → userPagesMapped M lastPage rounds page = true →
      ∀ v : UInt64, v.toNat % 4096 = 0 → page.toNat ≤ v.toNat → v.toNat ≤ lastPage.toNat →
        userPageMapped M v = true := by
  induction rounds with
  | zero =>
    intro page _ h
    cases h
  | succ rounds ih =>
    intro page hpage h v hv h1 h2
    rw [userPagesMapped] at h
    cases hm : userPageMapped M page with
    | false =>
      rw [hm] at h
      cases h
    | true =>
      by_cases he : v = page
      · rw [he]
        exact hm
      · have hne : v.toNat ≠ page.toNat := fun hc => he (UInt64.toNat_inj.mp hc)
        have hlast' : page ≠ lastPage := fun hc => by
          rw [hc] at hne h1
          omega
        obtain ⟨hnext, hnat⟩ := next_page hpage hv (by omega)
        have hstep : userPagesMapped M lastPage rounds (page + pageSize) = true := by
          rw [hm, Bool.not_true, if_neg Bool.false_ne_true, if_neg hlast', hnext] at h
          exact h
        exact ih (by omega) hstep v hv (by omega) h2

theorem userRangeMapped_spec (hP : Paged M) (h : userRangeMapped M ptr len = true) {k : Nat} (hk : k < len.toNat) :
    ptr + UInt64.ofNat k < userTop ∧ M.userAt (ptr + UInt64.ofNat k) = true := by
  have hlen : len ≠ 0 := by
    rintro rfl
    exact Nat.not_lt_zero k hk
  have hlen1 : (len - 1).toNat = len.toNat - 1 := UInt64.toNat_sub_of_le _ _ (UInt64.le_iff_toNat_le.mpr (by
    show 1 ≤ len.toNat
    omega))
  rw [userRangeMapped, if_neg hlen] at h
  by_cases hsum : ptr.toNat + (len - 1).toNat < 2 ^ 64
  · obtain ⟨hadd, hnat⟩ := toNat_checkedAdd hsum
    rw [hadd] at h
    have hdown : ∀ x : UInt64, (alignDown x).toNat = x.toNat / 4096 * 4096 := toNat_mask
    have ha : (ptr + UInt64.ofNat k).toNat = ptr.toNat + k := by
      rw [UInt64.toNat_add, UInt64.toNat_ofNat']
      omega
    have hd := hdown (ptr + UInt64.ofNat k)
    have hp := hdown ptr
    have hl := hdown (ptr + (len - 1))
    have hmapped := userPagesMapped_spec (by omega) _ (by omega) h (alignDown (ptr + UInt64.ofNat k)) (by omega)
      (by omega) (by omega)
    have hlt := userPageMapped_lt hmapped
    have htop : userTop.toNat = 0x800000000000 := by decide
    have hlt' : ptr + UInt64.ofNat k < userTop := by
      rw [UInt64.lt_iff_toNat_lt] at hlt ⊢
      omega
    refine ⟨hlt', ?_⟩
    rw [userPageMapped_eq hP hlt] at hmapped
    rw [Machine.userAt, (indices_eq_iff hlt' hlt).mpr (by omega)]
    exact hmapped
  · rw [checkedAdd, if_neg hsum] at h
    cases h

theorem pageAt_mapping {m : Mapping} (h : Loading B M ms) (hm : m ∈ ms) (hv : v < userTop)
    (he : v.toNat / 4096 = m.virt.toNat / 4096) : M.pageAt v = some (m.phys.toNat / 4096) := by
  rw [Machine.pageAt, (indices_eq_iff hv (h.maps.free m hm).1).mpr he]
  exact (h.translates hm).1

theorem physicalOf_mapping {m : Mapping} (h : Loading B M ms) (hm : m ∈ ms) (hv : v < userTop)
    (he : v.toNat / 4096 = m.virt.toNat / 4096) : physicalOf M v = some (m.phys.toNat + v.toNat % 4096) := by
  have hal := (h.accounts.owned _ (List.mem_map_of_mem hm)).aligned
  rw [physicalOf, pageAt_mapping h hm hv he, Option.map_some]
  congr 2
  omega

theorem exists_mapping (h : Loading B M ms) (hB : ∀ w, w < userTop → B.userAt w = false) (hv : v < userTop)
    (hu : M.userAt v = true) : ∃ m ∈ ms, v.toNat / 4096 = m.virt.toNat / 4096 := by
  rcases (h.maps.users v hv).mp hu with hb | hm
  · rw [hB v hv] at hb
    cases hb
  · exact hm

theorem writeUser_loading (hB : ∀ w, w < userTop → B.userAt w = false) (bs : List UInt8) :
    ∀ {M : Machine} {a : UInt64}, Loading B M ms →
      (∀ k < bs.length, a + UInt64.ofNat k < userTop ∧ M.userAt (a + UInt64.ofNat k) = true) →
      Loading B (writeUser M a bs) ms ∧ ∀ w, w < userTop → (writeUser M a bs).userAt w = M.userAt w := by
  induction bs with
  | nil => exact fun h _ => ⟨h, fun _ _ => rfl⟩
  | cons b bs ih =>
    intro M a h hrange
    obtain ⟨ha, hu⟩ := hrange 0 (Nat.succ_pos _)
    rw [show a + UInt64.ofNat 0 = a from UInt64.add_zero a] at ha hu
    obtain ⟨m, hm, he⟩ := exists_mapping h hB ha hu
    have hp := physicalOf_mapping h hm ha he
    obtain ⟨hs, hacc⟩ := h.accounts.write (List.mem_map_of_mem (f := Mapping.phys) hm) (a.toNat % 4096) [b] (by
      rw [List.length_singleton]
      omega)
    have hl : Loading B { M with mem := M.mem.write (m.phys.toNat + a.toNat % 4096) [b] } ms :=
      ⟨hacc, h.maps.same h.accounts.paged hs⟩
    have huser := fun w hw => SameTables.userAt_eq (v := w) hs h.accounts.paged hw
    rw [writeUser, hp]
    obtain ⟨hl', huser'⟩ := ih (a := a + 1) hl fun k hk => by
      obtain ⟨h1, h2⟩ := hrange (k + 1) (Nat.succ_lt_succ hk)
      have hstep : a + 1 + UInt64.ofNat k = a + UInt64.ofNat (k + 1) := by
        rw [UInt64.ofNat_add, UInt64.add_comm (UInt64.ofNat k), ← UInt64.add_assoc]
        rfl
      rw [hstep, huser _ h1]
      exact ⟨h1, h2⟩
    exact ⟨hl', fun w hw => (huser' w hw).trans (huser w hw)⟩

theorem writeEvent_loading (hB : ∀ w, w < userTop → B.userAt w = false) (h : Loading B M ms)
    (hr : userRangeMapped M ptr eventBytes = true) (event : Ipc.Event) : Loading B (writeEvent M ptr event) ms := by
  have hopen := fun k hk => @userRangeMapped_spec M ptr eventBytes h.accounts.paged hr k hk
  have hmove : ∀ (n k : Nat), ptr + UInt64.ofNat n + UInt64.ofNat k = ptr + UInt64.ofNat (n + k) := fun n k => by
    rw [UInt64.add_assoc, UInt64.ofNat_add]
  -- the three fields one after the other, each within the range
  obtain ⟨hl₁, hu₁⟩ := writeUser_loading hB (Bytes.toLE 2 event.kind.toNat) h fun k hk => by
    rw [Bytes.length_toLE] at hk
    exact hopen k (Nat.lt_trans hk (by decide))
  obtain ⟨hl₂, hu₂⟩ := writeUser_loading hB (Bytes.toLE 4 event.sourcePid.toNat) (a := ptr + 4) hl₁ fun k hk => by
    rw [Bytes.length_toLE] at hk
    obtain ⟨h1, h2⟩ := hopen (4 + k) (Nat.lt_trans (Nat.add_lt_add_left hk 4) (by decide))
    rw [show ptr + 4 + UInt64.ofNat k = ptr + UInt64.ofNat (4 + k) from hmove 4 k, hu₁ _ h1]
    exact ⟨h1, h2⟩
  obtain ⟨hl₃, -⟩ := writeUser_loading hB (Bytes.toLE 8 event.value.toNat) (a := ptr + 8) hl₂ fun k hk => by
    rw [Bytes.length_toLE] at hk
    obtain ⟨h1, h2⟩ := hopen (8 + k) (Nat.add_lt_add_left hk 8)
    rw [show ptr + 8 + UInt64.ofNat k = ptr + UInt64.ofNat (8 + k) from hmove 8 k, hu₂ _ h1, hu₁ _ h1]
    exact ⟨h1, h2⟩
  exact hl₃

end Pippin.Syscall
