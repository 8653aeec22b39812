import Pippin.Kernel.ElfChecks
import Pippin.Kernel.LoaderImage

/-! The loader with its assumptions made explicit: each word operation, each copied range
and each exit that leaves mappings behind is a guard. For an image `parse_segments`
accepts no guard ever fires, on any machine. -/

namespace Pippin.Elf
open Mem Mm Sched

inductive LoadFault where
  /-- a 64-bit sum or difference that wraps -/
  | wraps
  /-- a copy that reads past the end of the image -/
  | source
  /-- a copy that leaves the frame it writes to -/
  | frame
  /-- an error returned while pages stay mapped -/
  | unrolled
  /-- a loop that needs more rounds than its range has -/
  | rounds
deriving DecidableEq, Repr

def Guarded (α : Type) : Type := LoadState → Except LoadFault (Except LoadError α × LoadState)

instance : Monad Guarded where
  pure a := fun s => .ok (.ok a, s)
  bind x f := fun s =>
    match x s with
    | .error fault => .error fault
    | .ok (.ok a, s') => f a s'
    | .ok (.error e, s') => .ok (.error e, s')

namespace Guarded

def step {α : Type} (x : Load α) : Guarded α := fun s => .ok (x s)

def require {α : Type} (o : Option α) (fault : LoadFault) : Guarded α := fun s =>
  match o with
  | some a => .ok (.ok a, s)
  | none => .error fault

def guard (c : Prop) [Decidable c] (fault : LoadFault) : Guarded Unit :=
  require (if c then some () else none) fault

def add (a b : UInt64) : Guarded UInt64 := require (if a.toNat + b.toNat < 2 ^ 64 then some (a + b) else none) .wraps

def sub (a b : UInt64) : Guarded UInt64 := require (if b ≤ a then some (a - b) else none) .wraps

def mapPages : Nat → UInt64 → UInt64 → Guarded Unit
  | 0, page, stop => guard (¬page < stop) .rounds
  | fuel + 1, page, stop =>
    if page < stop then do
      let _ ← step (orRollback (mapPage page))
      let next ← require (checkedAdd page pageSize) .unrolled
      mapPages fuel next stop
    else pure ()

def mapSegment (segment : Segment) : Guarded Unit := do
  let first := alignDown segment.vaddr
  let stop ← require (checkedAdd segment.vaddr segment.memsz) .unrolled
  let stop ← require (alignUp stop) .unrolled
  mapPages (stop.toNat / 4096 - first.toNat / 4096) first stop

def copyPages (image : Image) (segment : Segment) : Nat → UInt64 → Guarded Unit
  | 0, copied => guard (¬copied < segment.filesz) .rounds
  | fuel + 1, copied =>
    if copied < segment.filesz then do
      let virt ← add segment.vaddr copied
      let page := alignDown virt
      let pageOffset ← sub virt page
      let phys ← require (mappedPhys (← step getMappings) page) .unrolled
      let remainingPage ← sub pageSize pageOffset
      let remainingFile ← sub segment.filesz copied
      let amount := min remainingPage.toNat remainingFile.toNat
      let sourceAt ← add segment.offset copied
      guard (sourceAt.toNat + amount ≤ image.length) .source
      guard (phys.toNat % 4096 = 0 ∧ pageOffset.toNat + amount ≤ 4096) .frame
      step (onMachine fun m => { m with
        mem := m.mem.write (phys.toNat + pageOffset.toNat) ((image.drop sourceAt.toNat).take amount) })
      let copied ← add copied (UInt64.ofNat amount)
      copyPages image segment fuel copied
    else pure ()

def mapStack (base : UInt64) : List Nat → Guarded Unit
  | [] => pure ()
  | index :: rest => do
    let virt ← add base (UInt64.ofNat index * pageSize)
    let _ ← step (orRollback (mapPage virt))
    mapStack base rest

def forSegments (f : Segment → Guarded Unit) : List Segment → Guarded Unit
  | [] => pure ()
  | segment :: rest => do
    f segment
    forSegments f rest

def loadImage (image : Image) (segments : List Segment) : Guarded Unit := do
  forSegments mapSegment segments
  forSegments (fun segment => copyPages image segment segment.filesz.toNat 0) segments
  let base ← sub stackTop (UInt64.ofNat stackPages * pageSize)
  mapStack base (List.range stackPages)

end Guarded

/-- `load_and_spawn` with its guards. -/
def loadAndSpawnGuarded (stackAt : Stacks) (image : Image) (eventPort : UInt16) (s : System) :
    Except LoadFault (Except LoadError LoadReport × System) :=
  match releaseFinishedApp s with
  | (.error e, s) => .ok (.error e, s)
  | (.ok (), s) =>
    match parseSegments image with
    | .error e => .ok (.error e, s)
    | .ok (entry, segments) =>
      match Guarded.loadImage image segments ⟨s.machine, []⟩ with
      | .error fault => .error fault
      | .ok (.error e, l) => .ok (.error e, { s with machine := l.machine })
      | .ok (.ok (), l) =>
        if stackTop < 8 then .error .wraps
        else
          match spawnUser stackAt s.sched entry (stackTop - 8) eventPort with
          | (false, _) => .ok (.error .schedulerBusy, { s with machine := rollback l.mappings l.machine })
          | (true, sched) => .ok (.ok ⟨entry, l.mappings.length, image.length⟩, ⟨l.machine, sched, some l.mappings⟩)

/-- From `s` the guarded step does what the plain one does, and where that succeeds the
state it leaves satisfies `Q`. -/
def Runs {α : Type} (g : Guarded α) (x : Load α) (s : LoadState) (Q : LoadState → Prop) : Prop :=
  g s = .ok (x s) ∧ ∀ a s', x s = (.ok a, s') → Q s'

section Run

variable {α β : Type} {g : Guarded α} {x : Load α} {s : LoadState} {P Q : LoadState → Prop}

theorem Runs.bind {f : α → Guarded β} {k : α → Load β} (h : Runs g x s P)
    (hf : ∀ a s', P s' → Runs (f a) (k a) s' Q) : Runs (g >>= f) (x >>= k) s Q := by
  obtain ⟨hg, hP⟩ := h
  have hgf : (g >>= f) s = match g s with
    | .error fault => .error fault
    | .ok (.ok a, s') => f a s'
    | .ok (.error e, s') => .ok (.error e, s') := rfl
  unfold Runs
  rw [hgf, hg]
  rcases hx : x s with ⟨e | a, s'⟩
  · rw [bind_error hx]
    exact ⟨rfl, fun a s' h => (nomatch h)⟩
  · rw [bind_ok hx]
    exact hf a s' (hP a s' hx)

theorem Runs.mono (h : Runs g x s P) (hPQ : ∀ s', P s' → Q s') : Runs g x s Q :=
  ⟨h.1, fun a s' hx => hPQ s' (h.2 a s' hx)⟩

theorem runs_pure {a : α} (h : Q s) : Runs (pure a) (pure a) s Q := by
  refine ⟨rfl, fun b s' hx => ?_⟩
  cases hx
  exact h

theorem runs_step (h : ∀ a s', x s = (.ok a, s') → Q s') : Runs (Guarded.step x) x s Q := ⟨rfl, h⟩

theorem require_bind {a : α} {fault : LoadFault} (f : α → Guarded β) :
    (Guarded.require (some a) fault >>= f) = f a := rfl

theorem guard_eq {c : Prop} [Decidable c] (hc : c) (fault : LoadFault) : Guarded.guard c fault = pure () := by
  rw [Guarded.guard, if_pos hc]
  rfl

theorem guard_bind {c : Prop} [Decidable c] (hc : c) {fault : LoadFault} (f : Unit → Guarded β) :
    (Guarded.guard c fault >>= f) = f () := by
  rw [Guarded.guard, if_pos hc, require_bind]

theorem guarded_add_bind {a b : UInt64} (h : a.toNat + b.toNat < 2 ^ 64) (f : UInt64 → Guarded β) :
    (Guarded.add a b >>= f) = f (a + b) := by
  rw [Guarded.add, if_pos h, require_bind]

theorem guarded_sub_bind {a b : UInt64} (h : b ≤ a) (f : UInt64 → Guarded β) :
    (Guarded.sub a b >>= f) = f (a - b) := by
  rw [Guarded.sub, if_pos h, require_bind]

theorem Runs.of_value {k : α → Load β} {g : Guarded β} {a : α} (h : ∀ s, x s = (.ok a, s))
    (hk : Runs g (k a) s Q) : Runs g (x >>= k) s Q := by
  unfold Runs at hk ⊢
  rwa [bind_ok (h s)]

theorem step_bind {a : α} {s' : LoadState} {f : α → Guarded β} (h : x s = (.ok a, s')) :
    (Guarded.step x >>= f) s = f a s' := by
  have hbind : (Guarded.step x >>= f) s = match Guarded.step x s with
    | .error fault => .error fault
    | .ok (.ok a, s') => f a s'
    | .ok (.error e, s') => .ok (.error e, s') := rfl
  rw [hbind, Guarded.step, h]

theorem getMappings_run (s : LoadState) : getMappings s = (.ok s.mappings, s) := rfl

theorem lift_some (a : α) (e : LoadError) (s : LoadState) : lift (okOr (some a) e) s = (.ok a, s) := rfl

end Run

/-! ## The mappings made so far -/

def LoadState.Has (s : LoadState) (v : UInt64) : Prop := v ∈ s.mappings.map Mapping.virt

/-- Mappings are to whole frames, and those of `s` are still there. -/
structure Grows (s s' : LoadState) : Prop where
  aligned : (∀ m ∈ s.mappings, m.phys.toNat % 4096 = 0) → ∀ m ∈ s'.mappings, m.phys.toNat % 4096 = 0
  keeps : ∀ v, s.Has v → s'.Has v

theorem Grows.refl (s : LoadState) : Grows s s := ⟨fun h => h, fun _ h => h⟩

theorem Grows.trans {s s' s'' : LoadState} (h : Grows s s') (h' : Grows s' s'') : Grows s s'' :=
  ⟨fun ha => h'.aligned (h.aligned ha), fun v hv => h'.keeps v (h.keeps v hv)⟩

theorem mapPage_grows {v p : UInt64} {s s' : LoadState} (h : mapPage v s = (.ok p, s')) :
    Grows s s' ∧ s'.Has v := by
  unfold mapPage at h
  cases hfind : mappedPhys s.mappings v with
  | some phys =>
    rw [hfind] at h
    cases h
    exact ⟨Grows.refl _, List.mem_map_of_mem (f := Mapping.virt) (mappedPhys_some hfind)⟩
  | none =>
    rw [hfind] at h
    dsimp only at h
    by_cases hfull : maxMappedPages ≤ s.mappings.length
    · rw [if_pos hfull] at h
      cases h
    rw [if_neg hfull] at h
    rcases ha : allocZeroedFrame s.machine with ⟨_ | phys, M₁⟩
    · rw [ha] at h
      cases h
    rw [ha] at h
    dsimp only at h
    rcases hm : mapUserPage v phys M₁ with ⟨_ | _, M₂⟩
    · rw [hm] at h
      cases h
    rw [hm] at h
    cases h
    -- a fresh frame is aligned, so the mapping that is added is
    have hal : p.toNat % 4096 = 0 := by
      rcases allocZeroedFrame_cases s.machine with ⟨hrun, -⟩ | ⟨phys, frames, halloc, hrun⟩
      · rw [hrun] at ha
        cases ha
      · rw [hrun] at ha
        cases ha
        obtain ⟨q, hq, -⟩ := Frames.allocFrames_spec halloc
        rw [hq, frameSize, Nat.mul_mod_left]
    refine ⟨⟨fun hs m hmem => ?_, fun w hw => ?_⟩, ?_⟩
    · rcases List.mem_append.mp hmem with hmem | hmem
      · exact hs m hmem
      · rw [List.mem_singleton.mp hmem]
        exact hal
    · rw [LoadState.Has, List.map_append]
      exact List.mem_append_left _ hw
    · rw [LoadState.Has, List.map_append]
      exact List.mem_append_right _ List.mem_cons_self

theorem runs_mapPage (v : UInt64) (s : LoadState) :
    Runs (Guarded.step (orRollback (mapPage v))) (orRollback (mapPage v)) s fun s' => Grows s s' ∧ s'.Has v := by
  refine runs_step fun p s' h => ?_
  unfold orRollback at h
  rcases hm : mapPage v s with ⟨e | p', s₁⟩
  · rw [hm] at h
    cases h
  · rw [hm] at h
    cases h
    exact mapPage_grows hm

theorem guarded_mapPages_zero (page stop : UInt64) :
    Guarded.mapPages 0 page stop = Guarded.guard (¬page < stop) .rounds := by rfl

theorem guarded_mapPages_succ (fuel : Nat) (page stop : UInt64) : Guarded.mapPages (fuel + 1) page stop =
    if page < stop then
      Guarded.step (orRollback (mapPage page)) >>= fun _ =>
        Guarded.require (checkedAdd page pageSize) .unrolled >>= fun next => Guarded.mapPages fuel next stop
    else pure () := by rfl

theorem runs_mapPages {stop : UInt64} (hstop : stop.toNat % 4096 = 0) (fuel : Nat) :
    ∀ (page : UInt64) (s : LoadState), page.toNat % 4096 = 0 → stop.toNat ≤ page.toNat + 4096 * fuel →
      Runs (Guarded.mapPages fuel page stop) (mapPages fuel page stop) s fun s' => Grows s s' ∧
        ∀ v : UInt64, v.toNat % 4096 = 0 → page.toNat ≤ v.toNat → v.toNat < stop.toNat → s'.Has v := by
  induction fuel with
  | zero =>
    intro page s _ hf
    have hge : ¬page < stop := by
      rw [UInt64.not_lt, UInt64.le_iff_toNat_le]
      exact hf
    rw [guarded_mapPages_zero, guard_eq hge]
    exact runs_pure ⟨Grows.refl s, fun v _ h1 h2 => by omega⟩
  | succ fuel ih =>
    intro page s hal hf
    rw [mapPages_succ, guarded_mapPages_succ]
    by_cases hlt : page < stop
    · rw [if_pos hlt, if_pos hlt]
      have hlt' : page.toNat < stop.toNat := UInt64.lt_iff_toNat_lt.mp hlt
      obtain ⟨hnext, hnat⟩ := next_page hal hstop hlt'
      refine (runs_mapPage page s).bind fun p s₁ hs₁ => ?_
      rw [hnext, require_bind]
      refine Runs.of_value (lift_some _ _) ((ih (page + pageSize) s₁ (by omega) (by omega)).mono fun s' hs' => ?_)
      refine ⟨hs₁.1.trans hs'.1, fun v hv h1 h2 => ?_⟩
      by_cases he : v.toNat = page.toNat
      · rw [UInt64.toNat_inj.mp he]
        exact hs'.1.keeps page hs₁.2
      · exact hs'.2 v hv (by omega) h2
    · rw [if_neg hlt, if_neg hlt]
      rw [UInt64.not_lt, UInt64.le_iff_toNat_le] at hlt
      exact runs_pure ⟨Grows.refl s, fun v _ h1 h2 => by omega⟩

variable {image : Image} {seg : Segment}

theorem runs_mapSegment (hok : seg.Ok image) (s : LoadState) :
    Runs (Guarded.mapSegment seg) (mapSegment seg) s fun s' => Grows s s' ∧ ∀ v, seg.Touches v → s'.Has v := by
  have hne := hok.nonempty
  have hlow := hok.low
  have hhigh := hok.high
  obtain ⟨hadd, hfirst, stop, hup, hstop⟩ := hok.pages
  unfold Guarded.mapSegment mapSegment
  dsimp only
  rw [hadd, require_bind]
  refine Runs.of_value (lift_some _ _) ?_
  rw [hup, require_bind]
  refine Runs.of_value (lift_some _ _) ?_
  refine (runs_mapPages (by omega) _ (alignDown seg.vaddr) s (by omega) (by omega)).mono fun s' hs' => ?_
  refine ⟨hs'.1, fun v hv => hs'.2 v hv.1 ?_ ?_⟩
  · have h1 := hv.1
    have h2 := hv.2.2
    omega
  · have h1 := hv.1
    have h2 := hv.2.1
    omega

theorem runs_mapSegments (segs : List Segment) : ∀ (s : LoadState), (∀ seg ∈ segs, seg.Ok image) →
    Runs (Guarded.forSegments Guarded.mapSegment segs) (forSegments mapSegment segs) s fun s' =>
      Grows s s' ∧ ∀ seg ∈ segs, ∀ v, seg.Touches v → s'.Has v := by
  induction segs with
  | nil => exact fun s _ => runs_pure ⟨Grows.refl s, fun seg hm => absurd hm List.not_mem_nil⟩
  | cons seg segs ih =>
    intro s hok
    refine (runs_mapSegment (hok seg List.mem_cons_self) s).bind fun _ s₁ h₁ => ?_
    refine (ih s₁ fun seg' hm => hok seg' (List.mem_cons_of_mem _ hm)).mono fun s₂ h₂ => ?_
    refine ⟨h₁.1.trans h₂.1, fun seg' hm v hv => ?_⟩
    rcases List.mem_cons.mp hm with rfl | hm
    · exact h₂.1.keeps v (h₁.2 v hv)
    · exact h₂.2 seg' hm v hv

theorem guarded_copyPages_round (hok : seg.Ok image) {copied phys : UInt64} (fuel : Nat) {s : LoadState}
    (hlt : copied < seg.filesz) (hphys : mappedPhys s.mappings (alignDown (seg.vaddr + copied)) = some phys)
    (hal : phys.toNat % 4096 = 0) :
    Guarded.copyPages image seg (fuel + 1) copied s = Guarded.copyPages image seg fuel
      (copied + UInt64.ofNat (chunk seg copied)) ⟨copyChunk image seg copied phys s.machine, s.mappings⟩ := by
  have hlow := hok.low
  have hhigh := hok.high
  have hle := hok.file_le
  have hfile := hok.file
  have hend := hok.file_end
  obtain ⟨hsum, htouch, hroom, hpos, hfit, hnext, hsrc⟩ := chunk_spec hok (UInt64.lt_iff_toNat_lt.mp hlt)
  have hvirt : (seg.vaddr + copied).toNat = seg.vaddr.toNat + copied.toNat := by
    rw [UInt64.toNat_add, Nat.mod_eq_of_lt (by omega)]
  have hdown : alignDown (seg.vaddr + copied) ≤ seg.vaddr + copied := by
    rw [UInt64.le_iff_toNat_le]
    omega
  have hoff : (seg.vaddr + copied - alignDown (seg.vaddr + copied)).toNat = pageOffset seg copied := rfl
  have hoffle : seg.vaddr + copied - alignDown (seg.vaddr + copied) ≤ pageSize := by
    rw [UInt64.le_iff_toNat_le, hoff]
    exact (Nat.le_add_right _ _).trans hroom
  have hamount : min (pageSize - (seg.vaddr + copied - alignDown (seg.vaddr + copied))).toNat
      (seg.filesz - copied).toNat = chunk seg copied := by
    rw [UInt64.toNat_sub_of_le _ _ hoffle]
    rfl
  have hnext64 : (UInt64.ofNat (chunk seg copied)).toNat = chunk seg copied := by
    rw [UInt64.toNat_ofNat', Nat.mod_eq_of_lt (by omega)]
  have hsource : (seg.offset + copied).toNat + chunk seg copied ≤ image.length := by omega
  have hframe : phys.toNat % 4096 = 0 ∧
      (seg.vaddr + copied - alignDown (seg.vaddr + copied)).toNat + chunk seg copied ≤ 4096 := ⟨hal, hroom⟩
  have hcopy : onMachine (fun m => { m with
      mem := m.mem.write (phys.toNat + (seg.vaddr + copied - alignDown (seg.vaddr + copied)).toNat)
        ((image.drop (seg.offset + copied).toNat).take (chunk seg copied)) }) s =
      (.ok (), ⟨copyChunk image seg copied phys s.machine, s.mappings⟩) := rfl
  conv_lhs => unfold Guarded.copyPages
  rw [if_pos hlt, guarded_add_bind (by omega), guarded_sub_bind hdown, step_bind (getMappings_run s), hphys,
    require_bind, guarded_sub_bind hoffle, guarded_sub_bind (UInt64.le_of_lt hlt)]
  rw [hamount, guarded_add_bind (by omega), guard_bind hsource, guard_bind hframe, step_bind hcopy,
    guarded_add_bind (by omega)]

theorem runs_copyPages (hok : seg.Ok image) (fuel : Nat) : ∀ (copied : UInt64) (s : LoadState),
    (∀ m ∈ s.mappings, m.phys.toNat % 4096 = 0) → (∀ v, seg.Touches v → s.Has v) →
    copied.toNat ≤ seg.filesz.toNat → seg.filesz.toNat ≤ copied.toNat + fuel →
    Runs (Guarded.copyPages image seg fuel copied) (copyPages image seg fuel copied) s
      fun s' => s'.mappings = s.mappings := by
  induction fuel with
  | zero =>
    intro copied s _ _ h1 h2
    have hge : ¬copied < seg.filesz := by
      rw [UInt64.not_lt, UInt64.le_iff_toNat_le]
      exact h2
    unfold Guarded.copyPages
    rw [guard_eq hge]
    exact runs_pure rfl
  | succ fuel ih =>
    intro copied s hal hhas h1 h2
    unfold Runs
    by_cases hlt : copied < seg.filesz
    · obtain ⟨-, htouch, -, hpos, hfit, hnext, -⟩ := chunk_spec hok (UInt64.lt_iff_toNat_lt.mp hlt)
      obtain ⟨phys, hphys⟩ := mappedPhys_of_mem (hhas _ htouch)
      rw [copyPages_round hlt hphys, guarded_copyPages_round hok fuel hlt hphys (hal _ (mappedPhys_some hphys))]
      exact ih _ ⟨copyChunk image seg copied phys s.machine, s.mappings⟩ hal hhas (by omega) (by omega)
    · rw [copyPages_done hlt]
      unfold Guarded.copyPages
      rw [if_neg hlt]
      refine ⟨rfl, fun a s' h => ?_⟩
      cases h
      rfl

theorem runs_copySegments (segs : List Segment) : ∀ (s : LoadState), (∀ seg ∈ segs, seg.Ok image) →
    (∀ m ∈ s.mappings, m.phys.toNat % 4096 = 0) → (∀ seg ∈ segs, ∀ v, seg.Touches v → s.Has v) →
    Runs (Guarded.forSegments (fun segment => Guarded.copyPages image segment segment.filesz.toNat 0) segs)
      (forSegments (copySegment image) segs) s fun _ => True := by
  induction segs with
  | nil => exact fun s _ _ _ => runs_pure trivial
  | cons seg segs ih =>
    intro s hok hal hhas
    have hcopy := runs_copyPages (hok seg List.mem_cons_self) seg.filesz.toNat 0 s hal
      (hhas seg List.mem_cons_self) (Nat.zero_le _) (Nat.le_add_left _ _)
    refine hcopy.bind fun _ s₁ h₁ => ?_
    refine ih s₁ (fun seg' hm => hok seg' (List.mem_cons_of_mem _ hm)) (h₁ ▸ hal) fun seg' hm v hv => ?_
    rw [LoadState.Has, h₁]
    exact hhas seg' (List.mem_cons_of_mem _ hm) v hv

theorem runs_mapStack (idx : List Nat) : ∀ (s : LoadState), (∀ i ∈ idx, i < 4) →
    Runs (Guarded.mapStack stackBase idx) (mapStack idx) s fun _ => True := by
  induction idx with
  | nil => exact fun s _ => runs_pure trivial
  | cons i idx ih =>
    intro s hlt
    have hi := hlt i List.mem_cons_self
    have hbase : stackBase.toNat = 0x103FFC000 := by decide
    have hpage : (UInt64.ofNat i * pageSize).toNat = i * 4096 := by
      have hsize : pageSize.toNat = 4096 := by decide
      rw [UInt64.toNat_mul, UInt64.toNat_ofNat', hsize]
      omega
    rw [Guarded.mapStack, mapStack, guarded_add_bind (by omega)]
    refine (runs_mapPage _ s).bind fun _ s₁ _ => ?_
    exact ih s₁ fun j hj => hlt j (List.mem_cons_of_mem _ hj)

theorem runs_loadImage {segs : List Segment} (hok : ∀ seg ∈ segs, seg.Ok image) (machine : Machine) :
    Runs (Guarded.loadImage image segs) (loadImage image segs) ⟨machine, []⟩ fun _ => True := by
  unfold Guarded.loadImage loadImage
  refine (runs_mapSegments segs ⟨machine, []⟩ hok).bind fun _ s₁ h₁ => ?_
  refine (runs_copySegments segs s₁ hok (h₁.1.aligned fun m hm => absurd hm List.not_mem_nil) h₁.2).bind
    fun _ s₂ _ => ?_
  rw [guarded_sub_bind (by decide)]
  exact runs_mapStack (List.range stackPages) s₂ fun i hi => List.mem_range.mp hi

theorem loadAndSpawnGuarded_eq (stackAt : Stacks) (image : Image) (eventPort : UInt16) (s : System) :
    loadAndSpawnGuarded stackAt image eventPort s = .ok (loadAndSpawn stackAt image eventPort s) := by
  unfold loadAndSpawnGuarded loadAndSpawn
  rcases releaseFinishedApp s with ⟨e | _, s⟩
  · rfl
  dsimp only
  cases hparse : parseSegments image with
  | error e => rfl
  | ok parsed =>
    obtain ⟨entry, segs⟩ := parsed
    dsimp only
    rw [(runs_loadImage (parseSegments_ok hparse).2 s.machine).1]
    rcases loadImage image segs ⟨s.machine, []⟩ with ⟨e | _, l⟩
    · rfl
    have h8 : ¬stackTop < 8 := by decide
    dsimp only
    rw [if_neg h8]
    rcases spawnUser stackAt s.sched entry (stackTop - 8) eventPort with ⟨_ | _, sched⟩ <;> rfl

/-- ELF validation covers the loader: parsing a slice never faults, an accepted image meets
`Validated`, and loading any image on any machine fires no guard. -/
theorem elf_validation (image : ByteSlice) :
    (Parse.all image.bytes).run = .ok (parseSegments image.bytes) ∧
    (∀ entry segs, parseSegments image.bytes = .ok (entry, segs) → Validated image.bytes entry segs) ∧
    ∀ stackAt eventPort s, loadAndSpawnGuarded stackAt image.bytes eventPort s =
      .ok (loadAndSpawn stackAt image.bytes eventPort s) :=
  ⟨agrees_all image, fun _ _ h => parseSegments_validated h,
    fun stackAt eventPort s => loadAndSpawnGuarded_eq stackAt image.bytes eventPort s⟩

end Pippin.Elf
