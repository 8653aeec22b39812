import Mathlib.Logic.Relation
import Pippin.Kernel.Syscall

/-! Runs of the whole kernel: applications are loaded, run, make syscalls, write their memory
and exit. What is left of an application once its mappings are reclaimed. -/

namespace Pippin.Syscall
open Mem Mm Sched Elf PageTable

/-- One step. Syscalls and stores are those of the application, which is task 3; the ports are
also used by the kernel threads. -/
inductive Step (stackAt : Stacks) : World → World → Prop
  | kernel {w : World} {s : System} (h : AppStep stackAt w.toSystem s) : Step stackAt w { w with toSystem := s }
  | ports (w : World) (ports : Ipc.Ports) : Step stackAt w { w with ports }
  | syscall {w w' : World} {frame number a0 a1 a2 : UInt64} {r : Option UInt64} (hc : w.sched.current = 3)
      (h : w.dispatch frame number a0 a1 a2 = .ok (r, w')) : Step stackAt w w'
  | store {w : World} (a : UInt64) (b : UInt8) (hc : w.sched.current = 3) (ha : a < userTop)
      (hu : w.machine.userAt a = true) : Step stackAt w { w with machine := writeUser w.machine a [b] }

inductive Run (stackAt : Stacks) (B : Machine) : World → Prop
  | start (bootRsp first second : UInt64) :
      Run stackAt B ⟨⟨B, init stackAt bootRsp first second, none⟩, false, fun _ => Ipc.Port.empty, []⟩
  | step {w w' : World} (h : Run stackAt B w) (hs : Step stackAt w w') : Run stackAt B w'

def Idle (stackAt : Stacks) : World → World → Prop :=
  Relation.ReflTransGen fun w w' => Step stackAt w w' ∧ w'.active = none

def World.reclaimed (w : World) : World := { w with toSystem := reapIfExited w.toSystem }

/-- What an application finds when it starts: its image and zeros, and an `mmap` that is as
good as new. -/
structure Fresh (image : Image) (w : World) : Prop where
  bytes : ∀ v, v < userTop → w.machine.userAt v = true → ∃ p, physicalOf w.machine v = some p ∧
    w.machine.mem p = fileByte image ((loadHeaders image).filter fun seg => seg.memsz ≠ 0) v.toNat
  mmap : ∀ a0, w.mmap a0 = World.mmap { w with userMapped := false } a0
  zeroed : ∀ w', w.mmap userMmap = (userMmap, w') → ∀ v, v < userTop → v.toNat / 4096 = userMmap.toNat / 4096 →
    ∃ p, physicalOf w'.machine v = some p ∧ w'.machine.mem p = 0

/-- Nothing of the application of `w` is left in `w'`. -/
structure TornDown (stackAt : Stacks) (w w' : World) : Prop where
  users : ∀ v, v < userTop → w'.machine.userAt v = false
  frames : ∀ v f, v < userTop → w.machine.userAt v = true → w.machine.pageAt v = some f →
    w'.machine.frames.bitIsUsed f = false
  next : ∀ w₁, Idle stackAt w' w₁ → ∀ image eventPort report s,
    loadAndSpawn stackAt image eventPort w₁.toSystem = (.ok report, s) → Fresh image { w₁ with toSystem := s }

/-- The page of the `mmap` syscall, once it is there. -/
inductive MmapPage : Bool → List Mapping → Prop
  | absent : MmapPage false []
  | present (phys : UInt64) : MmapPage true [⟨userMmap, phys⟩]

/-- The mappings of the loader are those of images and stacks. -/
def Windowed (s : System) : Prop := ∀ m ∈ s.active.getD [], InWindow m.virt

structure Inv (B : Machine) (w : World) : Prop where
  app : ∃ ks, MmapPage w.userMapped ks ∧ AppInv B ks w.toSystem
  windowed : Windowed w.toSystem

variable {stackAt : Stacks} {B M : Machine} {w w' : World} {s s' : System} {ks : List Mapping} {b : Bool}

theorem MmapPage.windowClear (hk : MmapPage b ks) (hB : Ready B) : WindowClear B ks := by
  have hout : ¬InWindow userMmap := by
    rw [inWindow_iff]
    decide
  refine ⟨hB.windowClear.base, fun k hmem => ?_⟩
  cases hk with
  | absent => cases hmem
  | present phys =>
    rw [List.mem_singleton.mp hmem]
    exact hout

/-! ## Loads and reaps -/

theorem Segment.Touches.inWindow {image : Image} {seg : Segment} {v : UInt64} (hok : seg.Ok image)
    (h : seg.Touches v) : InWindow v := by
  have hlow := hok.low
  have hhigh := hok.high
  obtain ⟨h1, h2, h3⟩ := h
  exact inWindow_iff.mpr (Or.inl (by omega))

theorem loaded_windowed {image : Image} {ms : List Mapping} (h : Loaded B ks image s s' ms) : Windowed s' := by
  intro m hm
  rw [h.active] at hm
  rcases (h.virts m.virt).mp (List.mem_map_of_mem hm) with ⟨seg, hseg, ht⟩ | hstack
  · exact Segment.Touches.inWindow (h.segments seg hseg) ht
  · exact inWindow_iff.mpr (Or.inr ⟨hstack.2.1, hstack.2.2⟩)

theorem AppStep.windowed (hs : AppStep stackAt s s') (hB : WindowClear B ks) (hinv : AppInv B ks s)
    (h : Windowed s) : Windowed s' := by
  cases hs with
  | load image eventPort =>
    rcases hres : loadAndSpawn stackAt image eventPort s with ⟨e | report, s'⟩
    · rcases releaseFinishedApp_spec hinv with ⟨s₁, hrel, hl, -, hact, -⟩ | hbusy
      · obtain ⟨-, -, hact'⟩ := loadAndSpawn_undone hres hrel hl hB
        intro m hm
        rw [hact', hact] at hm
        cases hm
      · rcases loadAndSpawn_error hres with herr | ⟨s₁, hrel, -⟩
        · rw [hbusy] at herr
          cases herr
          exact h
        · rw [hbusy] at hrel
          cases hrel
    · obtain ⟨ms, hloaded⟩ := hinv.loaded hB hres
      exact loaded_windowed hloaded
  | interrupt op hh => exact h
  | reap =>
    unfold reapIfExited
    split
    · exact h
    · split_ifs
      · exact nofun
      · exact h

/-! ## Syscalls -/

theorem mmap_cases (hB : Ready B) (hinv : Inv B w) (a0 : UInt64) :
    (w.mmap a0).1 = failure ∧ Inv B (w.mmap a0).2 ∧ (w.mmap a0).2.userMapped = w.userMapped ∨
    w.userMapped = false ∧ ∃ w' phys, w.mmap a0 = (userMmap, w') ∧ w'.userMapped = true ∧
      AppInv B [⟨userMmap, phys⟩] w'.toSystem ∧ Windowed w'.toSystem ∧
      Holds w'.machine [⟨userMmap, phys⟩] fun _ => 0 := by
  unfold World.mmap
  split_ifs with hno
  · exact Or.inl ⟨rfl, hinv, rfl⟩
  rw [not_or, not_not, Bool.not_eq_true] at hno
  obtain ⟨-, hflag⟩ := hno
  obtain ⟨⟨ks, hk, happ⟩, hwin⟩ := hinv
  rw [hflag] at hk
  cases hk
  have hl : Loading B w.machine (w.active.getD []) := happ.loading
  -- the page lies outside the ranges of images and stacks
  have hnew : userMmap ∉ (w.active.getD []).map Mapping.virt := by
    intro hm
    obtain ⟨m, hm, he⟩ := List.mem_map.mp hm
    exact (MmapPage.present 0).windowClear hB |>.kept _ List.mem_cons_self (he ▸ hwin m hm)
  have hfree : userMmap < userTop ∧ B.userAt userMmap = false := ⟨by decide, hB.clear _ (by decide)⟩
  rcases ha : allocZeroedFrame w.machine with ⟨_ | phys, M₁⟩
  · have hM : M₁ = w.machine := by
      rcases allocZeroedFrame_cases w.machine with ⟨hrun, -⟩ | ⟨phys, frames, -, hrun⟩
      · rw [hrun] at ha
        cases ha
        rfl
      · rw [hrun] at ha
        cases ha
    subst hM
    exact Or.inl ⟨rfl, ⟨⟨[], hflag ▸ .absent, happ⟩, hwin⟩, rfl⟩
  dsimp only
  rcases hmap : mapUserPage userMmap phys M₁ with ⟨_ | _, M₂⟩
  · have hl' := (hl.fresh_page hfree (by decide) hnew ha hmap).1 rfl
    exact Or.inl ⟨rfl, ⟨⟨[], hflag ▸ .absent, ⟨hl', happ.sched, happ.slot⟩⟩, hwin⟩, rfl⟩
  · obtain ⟨hl', hholds⟩ := (hl.fresh_page hfree (by decide) hnew ha hmap).2 rfl
    have hzero := hholds (fun _ => 0) [] nofun nofun fun _ _ => rfl
    exact Or.inr ⟨hflag, _, phys, rfl, rfl, ⟨hl'.perm List.perm_append_comm, happ.sched, happ.slot⟩, hwin, hzero⟩

theorem mmap_inv (hB : Ready B) (hinv : Inv B w) (a0 : UInt64) : Inv B (w.mmap a0).2 := by
  rcases mmap_cases hB hinv a0 with ⟨-, hinv', -⟩ | ⟨-, w', phys, hrun, hflag, happ, hwin, -⟩
  · exact hinv'
  · rw [hrun]
    exact ⟨⟨_, hflag ▸ .present phys, happ⟩, hwin⟩

theorem Inv.memory (hinv : Inv B w) {M : Machine} {ports : Ipc.Ports}
    (hM : ∀ ms, Loading B w.machine ms → Loading B M ms) : Inv B { w with machine := M, ports } := by
  obtain ⟨⟨ks, hk, happ⟩, hwin⟩ := hinv
  exact ⟨⟨ks, hk, ⟨hM _ happ.loading, happ.sched, happ.slot⟩⟩, hwin⟩

theorem Inv.interrupt (hinv : Inv B w) {sched : State} {frame frame' : UInt64} {op : Interrupt}
    (h : handle op w.sched frame = .ok (frame', sched)) : Inv B { w with sched } := by
  obtain ⟨⟨ks, hk, happ⟩, hwin⟩ := hinv
  obtain ⟨hsched, halive⟩ := handle_alive happ.sched h
  exact ⟨⟨ks, hk, ⟨happ.loading, hsched, fun ha => happ.slot (halive ha)⟩⟩, hwin⟩

theorem log_inv (hinv : Inv B w) (a0 a1 : UInt64) : Inv B (w.log a0 a1).2 := by
  unfold World.log
  split
  · exact hinv
  · split
    · exact ⟨hinv.app, hinv.windowed⟩
    · exact hinv

theorem send_inv (hinv : Inv B w) (a0 a1 a2 : UInt64) : Inv B (w.send a0 a1 a2).2 := by
  unfold World.send
  split
  · split
    · exact ⟨hinv.app, hinv.windowed⟩
    · exact ⟨hinv.app, hinv.windowed⟩
  · exact hinv

theorem recv_inv (hB : Ready B) (hinv : Inv B w) (a0 a1 : UInt64) : Inv B (w.recv a0 a1).2 := by
  unfold World.recv
  cases hr : userRangeMapped w.machine a1 eventBytes with
  | false => exact hinv
  | true =>
    rw [if_neg (by decide)]
    split
    · rename_i event ports _
      exact hinv.memory fun ms hl => writeEvent_loading hB.clear hl hr event
    · exact ⟨hinv.app, hinv.windowed⟩

theorem dispatch_inv (hB : Ready B) (hinv : Inv B w) {frame number a0 a1 a2 : UInt64} {r : Option UInt64}
    (h : w.dispatch frame number a0 a1 a2 = .ok (r, w')) : Inv B w' := by
  unfold World.dispatch at h
  split_ifs at h with h0 h1 h2 h3 h4
  · rcases hexit : onExit w.sched frame with e | ⟨frame', sched⟩
    · rw [hexit] at h
      cases h
    · rw [hexit] at h
      cases h
      exact @Inv.interrupt B w hinv sched frame frame' .exit hexit
  · cases h
    exact log_inv hinv a0 a1
  · cases h
    exact mmap_inv hB hinv a0
  · cases h
    exact send_inv hinv a0 a1 a2
  · cases h
    exact recv_inv hB hinv a0 a1
  · cases h
    exact hinv

/-! ## Runs -/

theorem Step.inv (hB : Ready B) (hinv : Inv B w) (hs : Step stackAt w w') : Inv B w' := by
  cases hs with
  | kernel h =>
    obtain ⟨⟨ks, hk, happ⟩, hwin⟩ := hinv
    have hclear := hk.windowClear hB
    exact ⟨⟨ks, hk, h.inv happ hclear⟩, AppStep.windowed h hclear happ hwin⟩
  | ports => exact ⟨hinv.app, hinv.windowed⟩
  | syscall _ h => exact dispatch_inv hB hinv h
  | store a b _ ha hu =>
    refine @Inv.memory B w hinv _ w.ports fun ms hl => (writeUser_loading hB.clear [b] hl fun k hk => ?_).1
    obtain rfl : k = 0 := Nat.lt_one_iff.mp hk
    rw [show a + UInt64.ofNat 0 = a from UInt64.add_zero a]
    exact ⟨ha, hu⟩

theorem Run.inv (hB : Ready B) (h : Run stackAt B w) : Inv B w := by
  induction h with
  | start bootRsp first second => exact ⟨⟨[], .absent, init_inv_app stackAt hB bootRsp first second⟩, nofun⟩
  | step _ hs ih => exact hs.inv hB ih

theorem Step.userMapped (hinv : Inv B w) (hact : w.active = none) (hs : Step stackAt w w') :
    w'.userMapped = w.userMapped := by
  -- syscalls and stores are task 3's, which does not run without an image
  have hcur : w.sched.current ≠ 3 := by
    intro hc
    obtain ⟨⟨ks, -, happ⟩, -⟩ := hinv
    exact happ.slot (Or.inr ((happ.sched.running 3).mpr hc.symm)) hact
  cases hs with
  | kernel | ports => rfl
  | syscall hc => exact absurd hc hcur
  | store a b hc => exact absurd hc hcur

theorem Idle.keeps (hB : Ready B) (hinv : Inv B w) (hact : w.active = none) (h : Idle stackAt w w') :
    Inv B w' ∧ w'.active = none ∧ w'.userMapped = w.userMapped := by
  induction h with
  | refl => exact ⟨hinv, hact, rfl⟩
  | tail _ hs ih => exact ⟨hs.1.inv hB ih.1, hs.2, (hs.1.userMapped ih.1 ih.2.1).trans ih.2.2⟩

/-! ## Teardown -/

theorem Holds.byte {ms ns : List Mapping} {m : Mapping} {f : Memory} {v : UInt64} (hf : Holds M ns f)
    (hl : Loading B M ms) (hm : m ∈ ns) (hsub : m ∈ ms) (hv : v < userTop)
    (he : v.toNat / 4096 = m.virt.toNat / 4096) : ∃ p, physicalOf M v = some p ∧ M.mem p = f v.toNat := by
  have hal := hl.maps.aligned m hsub
  refine ⟨_, physicalOf_mapping hl hsub hv he, (hf m hm _ (Nat.mod_lt _ (by decide))).trans ?_⟩
  congr 1
  omega

theorem fresh_of_load (hB : Ready B) (hinv : Inv B w) (hflag : w.userMapped = false) {image : Image}
    {eventPort : UInt16} {report : LoadReport} (h : loadAndSpawn stackAt image eventPort w.toSystem = (.ok report, s)) :
    Fresh image { w with toSystem := s } := by
  have hinv' : Inv B { w with toSystem := s } := by
    have hs := Step.inv hB hinv (.kernel (.load w.toSystem image eventPort) : Step stackAt w _)
    rwa [h] at hs
  obtain ⟨⟨ks, hk, happ⟩, -⟩ := hinv
  rw [hflag] at hk
  cases hk
  obtain ⟨ms, hloaded⟩ := happ.loaded hB.windowClear h
  have hl' : Loading B s.machine ms := hloaded.after
  refine ⟨fun v hv hu => ?_, fun a0 => ?_, fun w' hmmap v hv he => ?_⟩
  · obtain ⟨m, hm, he⟩ := exists_mapping hl' hB.clear hv hu
    exact Holds.byte hloaded.holds hl' hm hm hv he
  · rw [← hflag]
  · rcases mmap_cases hB hinv' userMmap with ⟨hfail, -⟩ | ⟨-, w₂, phys, hrun, -, happ', -, hzero⟩
    · have hne : userMmap ≠ failure := by decide
      rw [hmmap] at hfail
      exact absurd hfail hne
    · rw [hrun] at hmmap
      cases hmmap
      exact Holds.byte hzero happ'.loading List.mem_cons_self List.mem_cons_self hv he

theorem reclaimed_eq {old : List Mapping} (hdead : taskDead w.sched 3 = true) (hold : w.active = some old) :
    w.reclaimed.toSystem = ⟨rollback old w.machine, w.sched, none⟩ := by
  unfold World.reclaimed reapIfExited
  rw [hold]
  exact if_pos hdead

theorem reclaimed_loading {old : List Mapping} (hdead : taskDead w.sched 3 = true) (hold : w.active = some old)
    (h : AppInv B ks w.toSystem) : Loading B w.machine (ks ++ old) ∧ Loading B w.reclaimed.machine ks := by
  have hl := h.loading
  rw [hold, Option.getD_some] at hl
  rw [reclaimed_eq hdead hold]
  exact ⟨hl, hl.rollback⟩

theorem TornDown.userMapped (ht : TornDown stackAt w w.reclaimed) (hinv : Inv B w)
    (hdead : taskDead w.sched 3 = true) (hact : w.active ≠ none) : w.userMapped = false := by
  obtain ⟨old, hold⟩ := Option.ne_none_iff_exists'.mp hact
  obtain ⟨⟨ks, hk, happ⟩, -⟩ := hinv
  obtain ⟨-, hl⟩ := reclaimed_loading hdead hold happ
  cases hb : w.userMapped with
  | false => rfl
  | true =>
    rw [hb] at hk
    cases hk with
    | present phys =>
      have hu := (hl.translates List.mem_cons_self).2
      rw [ht.users userMmap (by decide)] at hu
      cases hu

/-- App teardown: reaping an exited application and releasing it before the next load are the
same, and nothing is left of it exactly when no application has got the `mmap` page. -/
theorem app_teardown (hB : Ready B) (hr : Run stackAt B w) (hdead : taskDead w.sched 3 = true)
    (hact : w.active ≠ none) :
    releaseFinishedApp w.toSystem = (.ok (), w.reclaimed.toSystem) ∧
    (TornDown stackAt w w.reclaimed ↔ w.userMapped = false) := by
  obtain ⟨old, hold⟩ := Option.ne_none_iff_exists'.mp hact
  have hreap := reclaimed_eq hdead hold
  have hinv := hr.inv hB
  refine ⟨?_, fun ht => ht.userMapped hinv hdead hact, fun hflag => ?_⟩
  · unfold releaseFinishedApp
    rw [hold, hreap]
    exact if_neg (by rw [hdead]; decide)
  · have hinv' : Inv B w.reclaimed := Step.inv hB hinv (.kernel (.reap w.toSystem) : Step stackAt w _)
    obtain ⟨⟨ks, hk, happ⟩, -⟩ := hinv
    rw [hflag] at hk
    cases hk
    obtain ⟨hl, hl'⟩ := reclaimed_loading hdead hold happ
    refine ⟨fun v hv => ?_, fun v f hv hu hp => ?_, fun w₁ hidle image eventPort report s hload => ?_⟩
    · rw [← Bool.not_eq_true, hl'.maps.users v hv, hB.clear v hv]
      simp
    · obtain ⟨m, hm, he⟩ := exists_mapping hl hB.clear hv hu
      rw [pageAt_mapping hl hm hv he] at hp
      cases hp
      rw [hreap]
      exact hl.rollback_frames.2 m hm
    · obtain ⟨hinv₁, -, hflag₁⟩ := hidle.keeps hB hinv' (congrArg System.active hreap)
      exact fresh_of_load hB hinv₁ (hflag₁.trans hflag) hload

/-! ## Two applications -/

theorem run_boot : Run (fun _ => 0) bootMachine ⟨bootSystem, false, fun _ => Ipc.Port.empty, []⟩ := .start 0 0 0

def loadedSystem : System := (loadAndSpawn (fun _ => 0) haltImage 1 bootSystem).2

theorem loadedSystem_eq : loadAndSpawn (fun _ => 0) haltImage 1 bootSystem =
    (.ok ⟨0x100000000, 5, 123⟩, loadedSystem) := by
  unfold loadedSystem
  rw [← bootSystem_load]

theorem run_loaded : Run (fun _ => 0) bootMachine ⟨loadedSystem, false, fun _ => Ipc.Port.empty, []⟩ ∧
    loadedSystem.active ≠ none := by
  have hstep := run_boot.step (.kernel (.load bootSystem haltImage 1))
  rw [loadedSystem_eq] at hstep
  dsimp only at hstep
  obtain ⟨s₁, entry, segs, l, -, -, -, -, hact, -⟩ := loadAndSpawn_ok loadedSystem_eq
  refine ⟨hstep, ?_⟩
  rw [hact]
  exact nofun

theorem loadedSystem_exits : (do
    let r ← handle .yield loadedSystem.sched 0
    let r ← handle .yield r.2 0
    let r ← handle .yield r.2 0
    let e ← onExit r.2 0
    return (r.2.current, taskDead e.2 3)) = Except.ok (3, true) := by
  decide +kernel

theorem loadedSystem_maps : ((allocZeroedFrame >>= fun phys => mapUserPage userMmap phys) loadedSystem.machine).1 =
    some () := by
  decide +kernel

theorem stop_bind {α β : Type} {x : Except Stop α} {f : α → Except Stop β} {b : β} (h : (x >>= f) = .ok b) :
    ∃ a, x = .ok a ∧ f a = .ok b := by
  cases x with
  | error e => cases h
  | ok a => exact ⟨a, rfl, h⟩

theorem Run.exit {frame : UInt64} {σ : State} (hr : Run stackAt B w)
    (hc : w.sched.current = 3) (h : onExit w.sched 0 = .ok (frame, σ)) : Run stackAt B { w with sched := σ } := by
  have hrun : w.dispatch 0 0 0 0 0 = .ok (none, { w with sched := σ }) := by
    unfold World.dispatch
    rw [if_pos rfl, h]
    rfl
  exact hr.step (.syscall hc hrun)

theorem Run.mmap (hr : Run stackAt B w) (hc : w.sched.current = 3)
    (hflag : w.userMapped = false)
    (h : ((allocZeroedFrame >>= fun phys => mapUserPage userMmap phys) w.machine).1 = some ()) :
    ∃ m, Run stackAt B { w with machine := m, userMapped := true } := by
  rcases ha : allocZeroedFrame w.machine with ⟨_ | phys, M₁⟩
  · rw [Kernel.bind_none ha] at h
    cases h
  rw [Kernel.bind_some ha] at h
  rcases hm : mapUserPage userMmap phys M₁ with ⟨_ | _, M₂⟩
  · rw [hm] at h
    cases h
  have hmmap : w.mmap userMmap = (userMmap, { w with machine := M₂, userMapped := true }) := by
    unfold World.mmap
    rw [if_neg (by rw [hflag]; decide), ha]
    dsimp only
    rw [hm]
  have hrun : w.dispatch 0 2 userMmap 0 0 = .ok (some userMmap, { w with machine := M₂, userMapped := true }) := by
    unfold World.dispatch
    rw [if_neg (by decide), if_neg (by decide), if_pos rfl, hmmap]
  exact ⟨M₂, hr.step (.syscall hc hrun)⟩

theorem run_exited (mapped : Bool) : ∃ w, Run (fun _ => 0) bootMachine w ∧ taskDead w.sched 3 = true ∧
    w.active ≠ none ∧ w.userMapped = mapped := by
  have hexits := loadedSystem_exits
  have hmaps := loadedSystem_maps
  obtain ⟨h₁, hact⟩ := run_loaded
  generalize loadedSystem = s at hexits hmaps h₁ hact
  obtain ⟨⟨f₁, σ₁⟩, hy₁, hexits⟩ := stop_bind hexits
  obtain ⟨⟨f₂, σ₂⟩, hy₂, hexits⟩ := stop_bind hexits
  obtain ⟨⟨f₃, σ₃⟩, hy₃, hexits⟩ := stop_bind hexits
  obtain ⟨⟨f₄, σ₄⟩, hexit, hexits⟩ := stop_bind hexits
  have hcur : σ₃.current = 3 := congrArg Prod.fst (Except.ok.inj hexits)
  have hdead : taskDead σ₄ 3 = true := congrArg Prod.snd (Except.ok.inj hexits)
  have h₂ := h₁.step (.kernel (.interrupt .yield hy₁))
  have h₃ := h₂.step (.kernel (.interrupt .yield hy₂))
  have h₄ := h₃.step (.kernel (.interrupt .yield hy₃))
  cases mapped with
  | false => exact ⟨_, h₄.exit hcur hexit, hdead, hact, rfl⟩
  | true =>
    obtain ⟨m, h₅⟩ := h₄.mmap hcur rfl hmaps
    exact ⟨_, h₅.exit hcur hexit, hdead, hact, rfl⟩

theorem app_teardown_exited : ∃ w, Run (fun _ => 0) bootMachine w ∧ taskDead w.sched 3 = true ∧ w.active ≠ none ∧
    TornDown (fun _ => 0) w w.reclaimed := by
  obtain ⟨w, hr, hdead, hact, hflag⟩ := run_exited false
  exact ⟨w, hr, hdead, hact, (app_teardown bootMachine_ready hr hdead hact).2.mpr hflag⟩

theorem mmap_page_stays : ∃ w, Run (fun _ => 0) bootMachine w ∧ taskDead w.sched 3 = true ∧ w.active ≠ none ∧
    ¬TornDown (fun _ => 0) w w.reclaimed := by
  obtain ⟨w, hr, hdead, hact, hflag⟩ := run_exited true
  refine ⟨w, hr, hdead, hact, fun ht => ?_⟩
  rw [ht.userMapped (hr.inv bootMachine_ready) hdead hact] at hflag
  cases hflag

end Pippin.Syscall
