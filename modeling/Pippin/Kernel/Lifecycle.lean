import Pippin.Kernel.LoaderImage
import Pippin.Kernel.SchedulerInvariant

/-! The life of an application over whole runs of loads, interrupts and reaps: its pages
stay where they were loaded while it can run, and every frame is accounted for. -/

namespace Pippin.Elf
open Mem Mm Sched PageTable

variable {stackAt : Stacks} {B : Machine} {ks : List Mapping} {s s' s₁ : System} {image : Image} {eventPort : UInt16}

def Alive (s : State) : Prop := (s.tasks 3).state = .ready ∨ (s.tasks 3).state = .running

/-- One step of the system. A handler that halts ends the run. -/
inductive AppStep (stackAt : Stacks) : System → System → Prop
  | load (s : System) (image : Image) (eventPort : UInt16) :
      AppStep stackAt s (loadAndSpawn stackAt image eventPort s).2
  | interrupt {s : System} {sched : State} {frame frame' : UInt64} (op : Interrupt)
      (h : handle op s.sched frame = .ok (frame', sched)) : AppStep stackAt s { s with sched }
  | reap (s : System) : AppStep stackAt s (reapIfExited s)

/-- Runs from the machine `B` and a scheduler just started. -/
inductive AppRun (stackAt : Stacks) (B : Machine) : System → Prop
  | start (bootRsp first second : UInt64) : AppRun stackAt B ⟨B, init stackAt bootRsp first second, none⟩
  | step {s s' : System} (h : AppRun stackAt B s) (hs : AppStep stackAt s s') : AppRun stackAt B s'

inductive AliveRun (stackAt : Stacks) (s : System) : System → Prop
  | refl : AliveRun stackAt s s
  | step {s' s'' : System} (h : AliveRun stackAt s s') (hs : AppStep stackAt s' s'') (ha : Alive s''.sched) :
      AliveRun stackAt s s''

/-- A machine ready for applications: good tables and no user page. -/
structure Ready (B : Machine) : Prop where
  paged : Paged B
  closed : UserClosed B.entries B.root
  clear : ∀ v, v < userTop → B.userAt v = false
  counted : B.frames.Counted

theorem Ready.windowClear (h : Ready B) : WindowClear B [] := ⟨fun v hv => h.clear v hv.lt_userTop, nofun⟩

/-- What every step keeps, next to user pages `ks` that are not the loader's. -/
structure AppInv (B : Machine) (ks : List Mapping) (s : System) : Prop where
  loading : Loading B s.machine (ks ++ s.active.getD [])
  sched : Inv s.sched
  slot : Alive s.sched → s.active ≠ none

/-! ## The scheduler and the application task -/

theorem handle_alive {σ σ' : State} {frame frame' : UInt64} {op : Interrupt} (hinv : Inv σ)
    (h : handle op σ frame = .ok (frame', σ')) : Inv σ' ∧ (Alive σ' → Alive σ) := by
  rcases handle_cases hinv op frame with h0 | ⟨σ₁, h1, hk⟩ | ⟨σ₁, requeue, next, rest, h1, hw⟩
  · rw [h0] at h
    cases h
  · rw [h1] at h
    cases h
    refine ⟨hinv.of_kept hk, fun ha => ?_⟩
    rwa [Alive, hk.state] at ha
  · rw [h1] at h
    cases h
    refine ⟨hinv.of_switched hw, fun ha => ?_⟩
    have hn : next ∈ σ.pending := hw.head ▸ List.mem_cons_self
    rw [Alive, hw.state] at ha
    split_ifs at ha with hnext hcur
    · rw [← hnext, hinv.ready] at hn
      exact Or.inl hn
    · exact Or.inr ((hinv.running 3).mpr hcur)
    · exact Or.inr ((hinv.running 3).mpr hcur)
    · exact ha

theorem spawnUser_alive (stackAt : Stacks) {σ : State} (rip userRsp : UInt64) (eventPort : UInt16) (hinv : Inv σ)
    (h : ¬Alive σ) :
    (spawnUser stackAt σ rip userRsp eventPort).1 = true ∧ Inv (spawnUser stackAt σ rip userRsp eventPort).2 ∧
      Alive (spawnUser stackAt σ rip userRsp eventPort).2 := by
  obtain ⟨hready, hrunning⟩ := not_or.mp h
  have hfree : ¬((σ.tasks 3).state ≠ .unused ∧ (σ.tasks 3).state ≠ .dead) := by
    rintro ⟨h1, h2⟩
    cases hs : (σ.tasks 3).state with
    | unused => exact h1 hs
    | ready => exact hready hs
    | running => exact hrunning hs
    | dead => exact h2 hs
  have hi : (3 : Index) ∉ σ.pending := by
    rw [hinv.ready]
    exact hready
  unfold spawnUser
  rw [if_neg hfree]
  refine ⟨rfl, hinv.of_started hi hrunning, Or.inl ?_⟩
  rw [startTask_state, if_pos rfl]

theorem alive_of_not_dead {σ : State} (h : taskDead σ 3 = true) : ¬Alive σ := by
  have hd : (σ.tasks 3).state = .dead := of_decide_eq_true h
  rw [Alive, hd]
  exact nofun

/-! ## The operations -/

theorem releaseFinishedApp_spec (hinv : AppInv B ks s) :
    (∃ s₁, releaseFinishedApp s = (.ok (), s₁) ∧ Loading B s₁.machine ks ∧ s₁.sched = s.sched ∧
      s₁.active = none ∧ ¬Alive s.sched) ∨
    releaseFinishedApp s = (.error .schedulerBusy, s) := by
  unfold releaseFinishedApp
  have hl := hinv.loading
  cases hact : s.active with
  | none =>
    rw [hact, Option.getD_none, List.append_nil] at hl
    exact Or.inl ⟨s, rfl, hl, rfl, hact, fun ha => hinv.slot ha hact⟩
  | some old =>
    rw [hact] at hl
    cases hd : taskDead s.sched 3 with
    | false => exact Or.inr rfl
    | true => exact Or.inl ⟨_, rfl, hl.rollback, rfl, rfl, alive_of_not_dead hd⟩

theorem reapIfExited_inv (hinv : AppInv B ks s) : AppInv B ks (reapIfExited s) := by
  unfold reapIfExited
  have hl := hinv.loading
  cases hact : s.active with
  | none => exact hinv
  | some old =>
    rw [hact] at hl
    dsimp only
    split_ifs with hd
    · refine ⟨?_, hinv.sched, fun ha => absurd ha (alive_of_not_dead hd)⟩
      show Loading B _ (ks ++ [])
      rw [List.append_nil]
      exact hl.rollback
    · exact hinv

theorem loadAndSpawn_ok {report : LoadReport} (h : loadAndSpawn stackAt image eventPort s = (.ok report, s')) :
    ∃ s₁ entry segs l, releaseFinishedApp s = (.ok (), s₁) ∧ parseSegments image = .ok (entry, segs) ∧
      loadImage image segs ⟨s₁.machine, []⟩ = (.ok (), l) ∧ s'.machine = l.machine ∧
      s'.active = some l.mappings ∧ s'.sched = (spawnUser stackAt s₁.sched entry (stackTop - 8) eventPort).2 := by
  unfold loadAndSpawn at h
  rcases hrel : releaseFinishedApp s with ⟨_ | _, s₁⟩
  · rw [hrel] at h
    cases h
  rw [hrel] at h
  dsimp only at h
  rcases hparse : parseSegments image with _ | ⟨entry, segs⟩
  · rw [hparse] at h
    cases h
  rw [hparse] at h
  dsimp only at h
  rcases hload : loadImage image segs ⟨s₁.machine, []⟩ with ⟨_ | _, l⟩
  · rw [hload] at h
    cases h
  rw [hload] at h
  dsimp only at h
  rcases hspawn : spawnUser stackAt s₁.sched entry (stackTop - 8) eventPort with ⟨_ | _, sched⟩
  · rw [hspawn] at h
    cases h
  rw [hspawn] at h
  cases h
  exact ⟨s₁, entry, segs, l, rfl, rfl, hload, rfl, rfl, by rw [hspawn]⟩

/-- Where a load can fail: the old application still runs, the image is refused, or the
mappings made so far were undone. -/
theorem loadAndSpawn_error {e : LoadError} (h : loadAndSpawn stackAt image eventPort s = (.error e, s')) :
    releaseFinishedApp s = (.error e, s') ∨ ∃ s₁, releaseFinishedApp s = (.ok (), s₁) ∧
      (s' = s₁ ∨ ∃ entry segs r l, parseSegments image = .ok (entry, segs) ∧
        loadImage image segs ⟨s₁.machine, []⟩ = (r, l) ∧ (r = .error e ∧ s' = { s₁ with machine := l.machine } ∨
          r = .ok () ∧ s' = { s₁ with machine := rollback l.mappings l.machine })) := by
  unfold loadAndSpawn at h
  rcases hrel : releaseFinishedApp s with ⟨_ | _, s₁⟩
  · rw [hrel] at h
    cases h
    exact Or.inl rfl
  rw [hrel] at h
  dsimp only at h
  refine Or.inr ⟨s₁, rfl, ?_⟩
  rcases hparse : parseSegments image with _ | ⟨entry, segs⟩
  · rw [hparse] at h
    cases h
    exact Or.inl rfl
  rw [hparse] at h
  dsimp only at h
  refine Or.inr ⟨entry, segs, ?_⟩
  rcases hload : loadImage image segs ⟨s₁.machine, []⟩ with ⟨e' | u, l⟩
  · rw [hload] at h
    cases h
    exact ⟨_, l, rfl, rfl, Or.inl ⟨rfl, rfl⟩⟩
  rw [hload] at h
  dsimp only at h
  rcases hspawn : spawnUser stackAt s₁.sched entry (stackTop - 8) eventPort with ⟨_ | _, sched⟩
  · rw [hspawn] at h
    cases h
    exact ⟨_, l, rfl, rfl, Or.inr ⟨rfl, rfl⟩⟩
  · rw [hspawn] at h
    cases h

theorem loadAndSpawn_undone {e : LoadError} (h : loadAndSpawn stackAt image eventPort s = (.error e, s'))
    (hrel : releaseFinishedApp s = (.ok (), s₁)) (hl : Loading B s₁.machine ks) (hB : WindowClear B ks) :
    Loading B s'.machine ks ∧ s'.sched = s₁.sched ∧ s'.active = s₁.active := by
  rcases loadAndSpawn_error h with herr | ⟨s₁', hrel', hcase⟩
  · rw [hrel] at herr
    cases herr
  · rw [hrel] at hrel'
    cases hrel'
    rcases hcase with rfl | ⟨entry, segs, r, l, hparse, hload, hres⟩
    · exact ⟨hl, rfl, rfl⟩
    · obtain ⟨r', l', hload', hpost⟩ := loadImage_spec hB (parseSegments_ok hparse).2 hl
      rw [hload] at hload'
      cases hload'
      rcases hres with ⟨rfl, rfl⟩ | ⟨rfl, rfl⟩
      · rcases hpost with ⟨hc, -⟩ | ⟨-, hl'⟩
        · cases hc
        · exact ⟨hl', rfl, rfl⟩
      · rcases hpost with ⟨-, hl', -⟩ | ⟨⟨_, hc⟩, -⟩
        · exact ⟨hl'.rollback, rfl, rfl⟩
        · cases hc

theorem loadAndSpawn_loaded {report : LoadReport} (h : loadAndSpawn stackAt image eventPort s = (.ok report, s'))
    (hrel : releaseFinishedApp s = (.ok (), s₁)) (hl : Loading B s₁.machine ks) (hB : WindowClear B ks) :
    ∃ ms, s'.active = some ms ∧ Loading B s'.machine (ks ++ ms) ∧
      Holds s'.machine ms (fileByte image ((loadHeaders image).filter fun seg => seg.memsz ≠ 0)) ∧
      ∀ v, v ∈ ms.map Mapping.virt ↔
        (∃ seg ∈ (loadHeaders image).filter (fun seg => seg.memsz ≠ 0), seg.Touches v) ∨ StackPage v := by
  obtain ⟨s₁', entry, segs, l, hrel', hparse, hload, hm, hact, -⟩ := loadAndSpawn_ok h
  rw [hrel] at hrel'
  cases hrel'
  obtain ⟨hsegs, hok⟩ := parseSegments_ok hparse
  obtain ⟨r, l', hload', hpost⟩ := loadImage_spec hB hok hl
  rw [hload] at hload'
  cases hload'
  rcases hpost with ⟨-, hl', hholds, hvirts⟩ | ⟨⟨_, hc⟩, -⟩
  · rw [← hm, hsegs] at hholds
    rw [← hm] at hl'
    rw [hsegs] at hvirts
    exact ⟨l.mappings, hact, hl', hholds, hvirts⟩
  · cases hc

/-- What a successful load has done, next to the user pages `ks`. -/
structure Loaded (B : Machine) (ks : List Mapping) (image : Image) (s s' : System) (ms : List Mapping) : Prop where
  before : Loading B (releaseFinishedApp s).2.machine ks
  active : s'.active = some ms
  after : Loading B s'.machine (ks ++ ms)
  holds : Holds s'.machine ms (fileByte image ((loadHeaders image).filter fun seg => seg.memsz ≠ 0))
  virts : ∀ v, v ∈ ms.map Mapping.virt ↔
    (∃ seg ∈ (loadHeaders image).filter (fun seg => seg.memsz ≠ 0), seg.Touches v) ∨ StackPage v
  segments : ∀ seg ∈ (loadHeaders image).filter (fun seg => seg.memsz ≠ 0), seg.Ok image
  sched : Inv s'.sched
  alive : Alive s'.sched

theorem AppInv.loaded {report : LoadReport} (hinv : AppInv B ks s) (hB : WindowClear B ks)
    (h : loadAndSpawn stackAt image eventPort s = (.ok report, s')) : ∃ ms, Loaded B ks image s s' ms := by
  obtain ⟨s₁, entry, segs, l, hrel, hparse, -, -, -, hspawn⟩ := loadAndSpawn_ok h
  obtain ⟨rfl, hok⟩ := parseSegments_ok hparse
  rcases releaseFinishedApp_spec hinv with ⟨s₁', hrel', hl, hsched, -, hna⟩ | hbusy
  · rw [hrel] at hrel'
    cases hrel'
    obtain ⟨ms, hact, hl', hholds, hvirts⟩ := loadAndSpawn_loaded h hrel hl hB
    rw [hsched] at hspawn
    obtain ⟨-, hinv', halive⟩ := spawnUser_alive stackAt entry (stackTop - 8) eventPort hinv.sched hna
    rw [← hspawn] at hinv' halive
    exact ⟨ms, hrel ▸ hl, hact, hl', hholds, hvirts, hok, hinv', halive⟩
  · rw [hrel] at hbusy
    cases hbusy

theorem loadAndSpawn_inv (stackAt : Stacks) (image : Image) (eventPort : UInt16) (hinv : AppInv B ks s)
    (hB : WindowClear B ks) : AppInv B ks (loadAndSpawn stackAt image eventPort s).2 := by
  rcases hres : loadAndSpawn stackAt image eventPort s with ⟨e | report, s'⟩
  · rcases releaseFinishedApp_spec hinv with ⟨s₁, hrel, hl, hsched, hact, hna⟩ | hbusy
    · obtain ⟨hl', hsched', hact'⟩ := loadAndSpawn_undone hres hrel hl hB
      show AppInv B ks s'
      refine ⟨?_, ?_, fun ha => ?_⟩
      · rw [hact', hact, Option.getD_none, List.append_nil]
        exact hl'
      · rw [hsched', hsched]
        exact hinv.sched
      · rw [hsched', hsched] at ha
        exact absurd ha hna
    · rcases loadAndSpawn_error hres with herr | ⟨s₁, hrel, -⟩
      · rw [hbusy] at herr
        cases herr
        exact hinv
      · rw [hbusy] at hrel
        cases hrel
  · obtain ⟨ms, hloaded⟩ := hinv.loaded hB hres
    show AppInv B ks s'
    refine ⟨?_, hloaded.sched, fun _ => ?_⟩
    · rw [hloaded.active]
      exact hloaded.after
    · rw [hloaded.active]
      exact nofun

/-! ## Runs -/

theorem AppStep.inv (hs : AppStep stackAt s s') (hinv : AppInv B ks s) (hB : WindowClear B ks) :
    AppInv B ks s' := by
  cases hs with
  | load image eventPort => exact loadAndSpawn_inv stackAt image eventPort hinv hB
  | interrupt op h =>
    obtain ⟨hsched, halive⟩ := handle_alive hinv.sched h
    exact ⟨hinv.loading, hsched, fun ha => hinv.slot (halive ha)⟩
  | reap => exact reapIfExited_inv hinv

theorem init_inv_app (stackAt : Stacks) (hB : Ready B) (bootRsp first second : UInt64) :
    AppInv B [] ⟨B, init stackAt bootRsp first second, none⟩ := by
  refine ⟨⟨Accounts.start hB.paged, Maps.start hB.closed⟩, (init_inv stackAt bootRsp first second).1, ?_⟩
  rintro (ha | ha) <;> cases ha

theorem AppRun.inv (hB : Ready B) (h : AppRun stackAt B s) : AppInv B [] s := by
  induction h with
  | start bootRsp first second => exact init_inv_app stackAt hB bootRsp first second
  | step _ hs ih => exact hs.inv ih hB.windowClear

theorem AppStep.alive (hs : AppStep stackAt s s') (hinv : AppInv B ks s) (ha : Alive s.sched) :
    s'.machine = s.machine ∧ s'.active = s.active := by
  have hdead : taskDead s.sched 3 = false := by
    rw [← Bool.not_eq_true]
    exact fun hd => alive_of_not_dead hd ha
  obtain ⟨old, hact⟩ := Option.ne_none_iff_exists'.mp (hinv.slot ha)
  cases hs with
  | load image eventPort =>
    have hrel : releaseFinishedApp s = (.error .schedulerBusy, s) := by
      unfold releaseFinishedApp
      rw [hact, hdead]
      rfl
    unfold loadAndSpawn
    rw [hrel]
    exact ⟨rfl, rfl⟩
  | interrupt op h => exact ⟨rfl, rfl⟩
  | reap =>
    unfold reapIfExited
    rw [hact]
    dsimp only
    rw [hdead, if_neg Bool.false_ne_true]
    exact ⟨rfl, hact⟩

theorem AliveRun.keeps (h : AliveRun stackAt s s') (hinv : AppInv B ks s) (hB : WindowClear B ks)
    (ha : Alive s.sched) : AppInv B ks s' ∧ Alive s'.sched ∧ s'.machine = s.machine ∧ s'.active = s.active := by
  induction h with
  | refl => exact ⟨hinv, ha, rfl, rfl⟩
  | step _ hs ha' ih =>
    obtain ⟨hinv', halive, hm, hact⟩ := ih
    obtain ⟨hm', hact'⟩ := hs.alive hinv' halive
    exact ⟨hs.inv hinv' hB, ha', hm'.trans hm, hact'.trans hact⟩

/-- Every frame in use has one use: it was in use from the start, is a table, or backs
exactly one page of the application. -/
structure Conserved (B : Machine) (s : System) : Prop where
  used : ∀ f, s.machine.frames.bitIsUsed f = true ↔ B.frames.bitIsUsed f = true ∨
    s.machine.HasTable (f * 4096) ∨ ∃ m ∈ s.active.getD [], m.phys.toNat = f * 4096
  counted : s.machine.frames.Counted
  distinct : ((s.active.getD []).map Mapping.phys).Nodup
  mapped : ∀ m ∈ s.active.getD [], s.machine.pageAt m.virt = some (m.phys.toNat / 4096) ∧
    s.machine.userAt m.virt = true ∧ s.machine.frames.bitIsUsed (m.phys.toNat / 4096) = true ∧
    B.frames.bitIsUsed (m.phys.toNat / 4096) = false ∧ ¬s.machine.HasTable m.phys.toNat
  users : ∀ v, v < userTop →
    (s.machine.userAt v = true ↔ ∃ m ∈ s.active.getD [], v.toNat / 4096 = m.virt.toNat / 4096)
  frees : rollbackFrees (s.active.getD []).reverse s.machine = (s.active.getD []).reverse.map fun m => (m.phys, true)

/-- A failed load leaves the user pages and their frames as they were in `s₁`; at most
the tables have grown. -/
structure Restored (s₁ s' : System) : Prop where
  active : s'.active = s₁.active
  users : ∀ v, v < userTop → s'.machine.userAt v = s₁.machine.userAt v ∧
    (s₁.machine.userAt v = true → s'.machine.pageAt v = s₁.machine.pageAt v)
  used : ∀ f, s'.machine.frames.bitIsUsed f = true ↔
    s₁.machine.frames.bitIsUsed f = true ∨ s'.machine.HasTable (f * 4096)
  mem : ∀ a, s₁.machine.frames.bitIsUsed (a / 4096) = true → ¬s'.machine.HasTable (a / 4096 * 4096) →
    s'.machine.mem a = s₁.machine.mem a

theorem AppInv.conserved (hinv : AppInv B [] s) (hB : Ready B) : Conserved B s := by
  have hl : Loading B s.machine (s.active.getD []) := hinv.loading
  have hfrees := Loading.rollbackFrees_eq (show Loading B s.machine ([] ++ s.active.getD []) from hl)
  refine ⟨fun f => ?_, hl.accounts.counted hB.counted, hl.accounts.nodup, fun m hm => ?_, fun v hv => ?_, hfrees⟩
  · rw [hl.accounts.used]
    simp only [List.mem_map, exists_exists_and_eq_and]
  · obtain ⟨h1, h2⟩ := hl.translates hm
    have hp := List.mem_map_of_mem (f := Mapping.phys) hm
    have hown := hl.accounts.owned _ hp
    exact ⟨h1, h2, hl.accounts.used_owned hp, hown.free, hown.apart⟩
  · rw [hl.maps.users v hv, hB.clear v hv]
    simp

theorem loadAndSpawn_restored (hinv : AppInv B [] s) (hB : Ready B) {e : LoadError}
    (h : loadAndSpawn stackAt image eventPort s = (.error e, s')) : Restored (releaseFinishedApp s).2 s' := by
  rcases releaseFinishedApp_spec hinv with ⟨s₁, hrel, hl, -, -, -⟩ | hbusy
  · -- nothing is loaded in `s₁`, which can serve as a base of its own
    have hno : ∀ v, v < userTop → s₁.machine.userAt v = false := fun v hv => by
      rw [← Bool.not_eq_true, hl.maps.users v hv, hB.clear v hv]
      simp
    have hself : Loading s₁.machine s₁.machine [] := ⟨Accounts.start hl.accounts.paged, Maps.start hl.maps.closed⟩
    obtain ⟨hl', -, hact⟩ := loadAndSpawn_undone h hrel hself ⟨fun v hv => hno v hv.lt_userTop, nofun⟩
    rw [hrel]
    refine ⟨hact, fun v hv => ⟨?_, fun hu => ?_⟩, fun f => ?_, hl'.accounts.mem⟩
    · rw [hno v hv, ← Bool.not_eq_true, hl'.maps.users v hv, hno v hv]
      simp
    · rw [hno v hv] at hu
      cases hu
    · rw [hl'.accounts.used]
      simp
  · rcases loadAndSpawn_error h with herr | ⟨s₁, hrel, -⟩
    · rw [hbusy] at herr ⊢
      cases herr
      exact ⟨rfl, fun v _ => ⟨rfl, fun _ => rfl⟩, fun f => hinv.loading.accounts.paged.used_table f,
        fun _ _ _ => rfl⟩
    · rw [hbusy] at hrel
      cases hrel

/-! ## A sample run -/

def ProgramHeader.encode (h : ProgramHeader) : List UInt8 :=
  Bytes.toLE 4 h.kind.toNat ++ Bytes.toLE 4 h.segment.flags.toNat ++ Bytes.toLE 8 h.segment.offset.toNat ++
    Bytes.toLE 8 h.segment.vaddr.toNat ++ Bytes.toLE 8 h.segment.vaddr.toNat ++
    Bytes.toLE 8 h.segment.filesz.toNat ++ Bytes.toLE 8 h.segment.memsz.toNat ++ Bytes.toLE 8 1

def elfImage (entry : Nat) (headers : List ProgramHeader) (rest : List UInt8) : Image :=
  [0x7F, 0x45, 0x4C, 0x46, 2, 1, 1] ++ List.replicate 9 0 ++ Bytes.toLE 2 2 ++ Bytes.toLE 2 62 ++ Bytes.toLE 4 1 ++
    Bytes.toLE 8 entry ++ Bytes.toLE 8 64 ++ Bytes.toLE 12 0 ++ Bytes.toLE 2 64 ++ Bytes.toLE 2 56 ++
    Bytes.toLE 2 headers.length ++ Bytes.toLE 6 0 ++ headers.flatMap ProgramHeader.encode ++ rest

/-- One segment of 16 bytes, three of them from the file: `hlt` and a jump back to it. -/
def haltImage : Image := elfImage 0x100000000 [⟨1, 5, 120, 0x100000000, 3, 16⟩] [0xF4, 0xEB, 0xFD]

def bootMachine : Machine := Machine.blank (Boot.limine [⟨0x2000, 0x20000, 0⟩]).frames

theorem bootMachine_ready : Ready bootMachine := by
  obtain ⟨hP, hu, -, hno⟩ := blank_tables (Boot.limine [⟨0x2000, 0x20000, 0⟩]).frames (by decide +kernel)
  exact ⟨hP, hu, fun v _ => hno v, boot_counted _⟩

def bootSystem : System := ⟨bootMachine, init (fun _ => 0) 0 0 0, none⟩

theorem bootSystem_load : (loadAndSpawn (fun _ => 0) haltImage 1 bootSystem).1 = .ok ⟨0x100000000, 5, 123⟩ := by
  decide +kernel

/-- App lifecycle conservation: in every run all frames are accounted for, a failed load
changes no user page, and while the application can run its image and stack stay mapped
to the frames they were loaded into. -/
theorem app_lifecycle (hB : Ready B) {s : System} (h : AppRun stackAt B s) :
    Conserved B s ∧
    (∀ image eventPort e s', loadAndSpawn stackAt image eventPort s = (.error e, s') →
      Restored (releaseFinishedApp s).2 s') ∧
    ∀ image eventPort report s₁, loadAndSpawn stackAt image eventPort s = (.ok report, s₁) →
      ∃ ms, s₁.active = some ms ∧
        (∀ v, v ∈ ms.map Mapping.virt ↔ (∃ seg ∈ (loadHeaders image).filter (fun seg => seg.memsz ≠ 0),
          seg.Touches v) ∨ StackPage v) ∧
        ∀ s₂, AliveRun stackAt s₁ s₂ → ∀ m ∈ ms, s₂.machine.pageAt m.virt = some (m.phys.toNat / 4096) ∧
          s₂.machine.userAt m.virt = true := by
  have hinv := h.inv hB
  refine ⟨hinv.conserved hB, fun image eventPort e s' herr => loadAndSpawn_restored hinv hB herr,
    fun image eventPort report s₁ hok => ?_⟩
  obtain ⟨ms, hloaded⟩ := hinv.loaded hB.windowClear hok
  refine ⟨ms, hloaded.active, hloaded.virts, fun s₂ hrun m hm => ?_⟩
  have hinv₁ : AppInv B [] s₁ := by
    have hi := loadAndSpawn_inv stackAt image eventPort hinv hB.windowClear
    rwa [hok] at hi
  obtain ⟨-, -, hmach, -⟩ := hrun.keeps hinv₁ hB.windowClear hloaded.alive
  rw [hmach]
  exact hloaded.after.translates hm

/-- The halting application, loaded after boot: every frame is accounted for, and its
first page is mapped. -/
theorem app_lifecycle_boot : ∃ s ms, AppRun (fun _ => 0) bootMachine s ∧ Conserved bootMachine s ∧
    s.active = some ms ∧ 0x100000000 ∈ ms.map Mapping.virt := by
  have hboot : AppRun (fun _ => 0) bootMachine bootSystem := .start 0 0 0
  have hload : loadAndSpawn (fun _ => 0) haltImage 1 bootSystem =
      (.ok ⟨0x100000000, 5, 123⟩, (loadAndSpawn (fun _ => 0) haltImage 1 bootSystem).2) := by
    rw [← bootSystem_load]
  obtain ⟨ms, hact, hvirts, -⟩ := (app_lifecycle bootMachine_ready hboot).2.2 _ _ _ _ hload
  have hrun := hboot.step (.load bootSystem haltImage 1)
  refine ⟨_, ms, hrun, (app_lifecycle bootMachine_ready hrun).1, hact, (hvirts _).mpr (Or.inl ?_)⟩
  refine ⟨⟨5, 120, 0x100000000, 3, 16⟩, by decide +kernel, ?_⟩
  exact ⟨by decide, by decide, by decide⟩

end Pippin.Elf
