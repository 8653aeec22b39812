import Pippin.Kernel.ElfHeaders
import Pippin.Kernel.PagingUser

/-! What the loader does to the frames and to the user pages of the machine: every frame
taken is a table, a mapping or in hand, and every step that fails can be undone. The
machine is compared throughout with a base `B`, as it was when no application was loaded. -/

namespace Pippin.Elf
open Mem Mm PageTable

variable {B M M' : Machine} {own : List UInt64} {ks ms : List Mapping} {m : Mapping} {phys v : UInt64}

/-- A frame taken from the allocator since `B` and not used as a table. -/
structure Owned (B M : Machine) (phys : UInt64) : Prop where
  aligned : phys.toNat % 4096 = 0
  pos : 0 < phys.toNat
  low : phys.toNat < 2 ^ 30
  apart : ¬M.HasTable phys.toNat
  free : B.frames.bitIsUsed (phys.toNat / 4096) = false

/-- The frames in use are those of `B`, the tables and the owned frames, once each. -/
structure Accounts (B M : Machine) (own : List UInt64) : Prop where
  paged : Paged M
  cr3 : M.cr3 = B.cr3
  tables : ∀ t, B.HasTable t → M.HasTable t
  fresh : ∀ t, M.HasTable t → B.HasTable t ∨ B.frames.bitIsUsed (t / 4096) = false
  owned : ∀ p ∈ own, Owned B M p
  nodup : own.Nodup
  used : ∀ f, M.frames.bitIsUsed f = true ↔
    B.frames.bitIsUsed f = true ∨ M.HasTable (f * 4096) ∨ ∃ p ∈ own, p.toNat = f * 4096
  mem : ∀ a, B.frames.bitIsUsed (a / 4096) = true → ¬M.HasTable (a / 4096 * 4096) → M.mem a = B.mem a
  counted : B.frames.Counted → M.frames.Counted

theorem Accounts.start (hP : Paged B) : Accounts B B [] where
  paged := hP
  cr3 := rfl
  tables := fun _ h => h
  fresh := fun _ h => Or.inl h
  owned := nofun
  nodup := List.nodup_nil
  used := fun f => by
    have h := hP.used_table f
    simpa using h
  mem := fun _ _ _ => rfl
  counted := fun h => h

theorem Accounts.perm {own' : List UInt64} (h : Accounts B M own) (hp : own.Perm own') : Accounts B M own' :=
  { h with
    owned := fun p hm => h.owned p (hp.mem_iff.mpr hm)
    nodup := hp.nodup_iff.mp h.nodup
    used := fun f => by
      rw [h.used]
      simp only [hp.mem_iff] }

theorem Accounts.used_owned (h : Accounts B M own) {p : UInt64} (hp : p ∈ own) :
    M.frames.bitIsUsed (p.toNat / 4096) = true := by
  have hal := (h.owned p hp).aligned
  exact (h.used _).mpr (Or.inr (Or.inr ⟨p, hp, by omega⟩))

theorem Accounts.apart (h : Accounts B M own) {X : List Nat → Prop} (hev : Evolves X M M') {p : UInt64}
    (hp : p ∈ own) : ¬M'.HasTable p.toNat := by
  intro ht
  rcases hev.fresh _ ht with h1 | h1
  · exact (h.owned p hp).apart h1
  · rw [h.used_owned hp] at h1
    cases h1.2

theorem Accounts.evolves (h : Accounts B M own) {X : List Nat → Prop} (hev : Evolves X M M') :
    Accounts B M' own where
  paged := hev.paged
  cr3 := hev.cr3.trans h.cr3
  tables := fun t ht => hev.hasTable (h.tables t ht)
  fresh := fun t ht => by
    rcases hev.fresh t ht with h1 | h1
    · exact h.fresh t h1
    · refine Or.inr ?_
      rw [← Bool.not_eq_true]
      intro hb
      rw [(h.used _).mpr (Or.inl hb)] at h1
      cases h1.2
  owned := fun p hp => { h.owned p hp with apart := h.apart hev hp }
  nodup := h.nodup
  used := fun f => by
    rw [hev.used, h.used]
    constructor
    · rintro ((h1 | h1 | h1) | h1)
      · exact Or.inl h1
      · exact Or.inr (Or.inl (hev.hasTable h1))
      · exact Or.inr (Or.inr h1)
      · exact Or.inr (Or.inl h1)
    · rintro (h1 | h1 | h1)
      · exact Or.inl (Or.inl h1)
      · exact Or.inr h1
      · exact Or.inl (Or.inr (Or.inr h1))
  mem := fun a hb hn => (hev.mem a hn).trans (h.mem a hb fun ht => hn (hev.hasTable ht))
  counted := fun hc => hev.counted (h.counted hc)

theorem Accounts.of_same (h : Accounts B M own) {own' : List UInt64} (hs : SameTables M M')
    (howned : ∀ p ∈ own', Owned B M p) (hnodup : own'.Nodup)
    (hused : ∀ f, M'.frames.bitIsUsed f = true ↔
      B.frames.bitIsUsed f = true ∨ M.HasTable (f * 4096) ∨ ∃ p ∈ own', p.toNat = f * 4096)
    (hmem : ∀ a, B.frames.bitIsUsed (a / 4096) = true → M'.mem a = M.mem a)
    (hcounted : M.frames.Counted → M'.frames.Counted) : Accounts B M' own' where
  paged := hs.paged h.paged
  cr3 := hs.cr3.trans h.cr3
  tables := fun t ht => (hs.hasTable h.paged t).mpr (h.tables t ht)
  fresh := fun t ht => h.fresh t ((hs.hasTable h.paged t).mp ht)
  owned := fun p hp => { howned p hp with apart := mt (hs.hasTable h.paged _).mp (howned p hp).apart }
  nodup := hnodup
  used := fun f => by rw [hused, hs.hasTable h.paged]
  mem := fun a hb hn => (hmem a hb).trans (h.mem a hb (mt (hs.hasTable h.paged _).mpr hn))
  counted := fun hc => hcounted (h.counted hc)

theorem Accounts.alloc (h : Accounts B M own) {frames : Frames} {mem : Memory}
    (ha : M.frames.allocFrames 1 = some (phys, frames))
    (hm : mem = M.mem.write phys.toNat (List.replicate frameSize 0)) :
    SameTables M ⟨mem, M.cr3, frames⟩ ∧ Accounts B ⟨mem, M.cr3, frames⟩ (phys :: own) := by
  obtain ⟨hal, hpos, hlow, hnew, hfree, hbits⟩ := h.paged.fresh_frame ha
  have hout : ∀ a, a / 4096 * 4096 ≠ phys.toNat → mem a = M.mem a := fun a hne => by
    rw [hm]
    refine Memory.write_outside ?_
    rw [List.length_replicate, frameSize]
    omega
  -- a frame in use at the start is still in use, so the new one was free then
  have hB : B.frames.bitIsUsed (phys.toNat / 4096) = false := by
    rw [← Bool.not_eq_true]
    intro hb
    rw [(h.used _).mpr (Or.inl hb)] at hfree
    cases hfree
  have hs : SameTables M ⟨mem, M.cr3, frames⟩ := by
    refine ⟨rfl, fun a ht => hout a fun he => hnew (he ▸ ht), fun t ht => ?_⟩
    exact (hbits _).mpr (Or.inl (h.paged.used t ht))
  refine ⟨hs, h.of_same hs ?_ ?_ ?_ ?_ fun hc => hc.alloc ha⟩
  · intro p hp
    rcases List.mem_cons.mp hp with rfl | hp
    · exact ⟨hal, hpos, hlow, hnew, hB⟩
    · exact h.owned p hp
  · refine List.nodup_cons.mpr ⟨fun hp => ?_, h.nodup⟩
    rw [h.used_owned hp] at hfree
    cases hfree
  · intro f
    have hcons : (∃ p ∈ phys :: own, p.toNat = f * 4096) ↔ f * 4096 = phys.toNat ∨ ∃ p ∈ own, p.toNat = f * 4096 := by
      simp only [List.mem_cons, exists_eq_or_imp]
      rw [eq_comm]
    rw [hcons]
    show frames.bitIsUsed f = true ↔ _
    -- in use is what was in use at the start, the tables and the owned frames
    rw [hbits, h.used]
    constructor
    · rintro ((h1 | h1 | h1) | h1)
      · exact Or.inl h1
      · exact Or.inr (Or.inl h1)
      · exact Or.inr (Or.inr (Or.inr h1))
      · exact Or.inr (Or.inr (Or.inl h1))
    · rintro (h1 | h1 | h1 | h1)
      · exact Or.inl (Or.inl h1)
      · exact Or.inl (Or.inr (Or.inl h1))
      · exact Or.inr h1
      · exact Or.inl (Or.inr (Or.inr h1))
  · intro a hb
    refine hout a fun he => ?_
    rw [show a / 4096 = phys.toNat / 4096 by omega, hB] at hb
    cases hb

theorem Accounts.release (h : Accounts B M (phys :: own)) :
    SameTables M { M with frames := M.frames.freeFrames phys 1 } ∧
      Accounts B { M with frames := M.frames.freeFrames phys 1 } own := by
  have ho := h.owned phys List.mem_cons_self
  have hal := ho.aligned
  have hpos := ho.pos
  have hlow := ho.low
  obtain ⟨hnew, hnodup⟩ := List.nodup_cons.mp h.nodup
  have hbits : ∀ f, (M.frames.freeFrames phys 1).bitIsUsed f = true ↔
      M.frames.bitIsUsed f = true ∧ f * 4096 ≠ phys.toNat := by
    intro f
    rw [Frames.freeFrames_bits, frameSize]
    split_ifs with hf
    · simp only [false_iff, not_and, not_not]
      omega
    · refine ⟨fun hu => ⟨hu, by omega⟩, fun hu => hu.1⟩
  have hs : SameTables M { M with frames := M.frames.freeFrames phys 1 } := by
    refine ⟨rfl, fun _ _ => rfl, fun t ht => (hbits _).mpr ⟨h.paged.used t ht, fun he => ho.apart ?_⟩⟩
    have hta := (h.paged.aligned ht).1
    rwa [← he, show t / 4096 * 4096 = t by omega]
  refine ⟨hs, h.of_same hs (fun p hp => h.owned p (List.mem_cons_of_mem _ hp)) hnodup ?_ (fun _ _ => rfl) ?_⟩
  · intro f
    show (M.frames.freeFrames phys 1).bitIsUsed f = true ↔ _
    rw [hbits, h.used]
    constructor
    · rintro ⟨h1 | h1 | ⟨p, hp, he⟩, hne⟩
      · exact Or.inl h1
      · exact Or.inr (Or.inl h1)
      · rcases List.mem_cons.mp hp with rfl | hp
        · exact absurd he.symm hne
        · exact Or.inr (Or.inr ⟨p, hp, he⟩)
    · rintro (h1 | h1 | ⟨p, hp, he⟩)
      · refine ⟨Or.inl h1, fun he => ?_⟩
        rw [show f = phys.toNat / 4096 by omega, ho.free] at h1
        cases h1
      · exact ⟨Or.inr (Or.inl h1), fun he => ho.apart (he ▸ h1)⟩
      · refine ⟨Or.inr (Or.inr ⟨p, List.mem_cons_of_mem _ hp, he⟩), fun hc => hnew ?_⟩
        rwa [UInt64.toNat_inj.mp (he.trans hc)] at hp
  -- the count goes up because the frame was in use and below the end
  · intro hc
    refine hc.free ?_ ?_ fun f h1 h2 => ?_
    · rw [frameSize]
      omega
    · rw [frameSize, maxFrames, bootMappedEnd, frameSize]
      omega
    · rw [frameSize] at h1 h2
      rw [show f = phys.toNat / 4096 by omega]
      exact h.used_owned List.mem_cons_self

theorem Accounts.write (h : Accounts B M own) (hp : phys ∈ own) (off : Nat) (bs : List UInt8)
    (hlen : off + bs.length ≤ 4096) :
    SameTables M { M with mem := M.mem.write (phys.toNat + off) bs } ∧
      Accounts B { M with mem := M.mem.write (phys.toNat + off) bs } own := by
  have ho := h.owned phys hp
  have hal := ho.aligned
  have hout : ∀ a, a / 4096 * 4096 ≠ phys.toNat → M.mem.write (phys.toNat + off) bs a = M.mem a := fun a hne =>
    Memory.write_outside (by omega)
  have hs : SameTables M { M with mem := M.mem.write (phys.toNat + off) bs } :=
    ⟨rfl, fun a ht => hout a fun he => ho.apart (he ▸ ht), h.paged.used⟩
  refine ⟨hs, h.of_same hs h.owned h.nodup h.used (fun a hb => hout a fun he => ?_) fun hc => hc⟩
  rw [show a / 4096 = phys.toNat / 4096 by omega, ho.free] at hb
  cases hb

/-! ## User pages -/

def InWindow (v : UInt64) : Prop := appMin ≤ v ∧ v < appMax ∨ stackBase ≤ v ∧ v < stackTop

theorem InWindow.lt_userTop (h : InWindow v) : v < userTop := by
  rcases h with ⟨-, h⟩ | ⟨-, h⟩
  · exact UInt64.lt_trans h (by decide)
  · exact UInt64.lt_trans h (by decide)

theorem inWindow_iff : InWindow v ↔ 0x100000000 ≤ v.toNat ∧ v.toNat < 0x102000000 ∨
    0x103FFC000 ≤ v.toNat ∧ v.toNat < 0x104000000 := by
  have hbase : stackBase.toNat = 0x103FFC000 := by decide
  unfold InWindow
  rw [UInt64.le_iff_toNat_le, UInt64.lt_iff_toNat_lt, UInt64.le_iff_toNat_le, UInt64.lt_iff_toNat_lt, hbase]
  rfl

/-- The mappings are in the tables, and the user pages are those of `B` and theirs. -/
structure Maps (B M : Machine) (ms : List Mapping) : Prop where
  closed : UserClosed M.entries M.root
  virts : (ms.map Mapping.virt).Nodup
  aligned : ∀ m ∈ ms, m.virt.toNat % 4096 = 0
  free : ∀ m ∈ ms, m.virt < userTop ∧ B.userAt m.virt = false
  walks : ∀ m ∈ ms, walk M.entries M.root (indices m.virt) = some ⟨userEntry m.phys, [], true⟩
  users : ∀ v, v < userTop →
    (M.userAt v = true ↔ B.userAt v = true ∨ ∃ m ∈ ms, v.toNat / 4096 = m.virt.toNat / 4096)

theorem Maps.start (hu : UserClosed B.entries B.root) : Maps B B [] where
  closed := hu
  virts := List.nodup_nil
  aligned := nofun
  free := nofun
  walks := nofun
  users := fun v _ => by simp

theorem SameTables.userAt_eq (hs : SameTables M M') (hP : Paged M) (hv : v < userTop) : M'.userAt v = M.userAt v := by
  unfold Machine.userAt accessible
  rw [hs.walk_eq hP (pagePath_indices hv)]

theorem Maps.same (h : Maps B M ms) (hP : Paged M) (hs : SameTables M M') : Maps B M' ms where
  closed := hs.userClosed hP h.closed
  virts := h.virts
  aligned := h.aligned
  free := h.free
  walks := fun m hm => by
    rw [hs.walk_eq hP (pagePath_indices (h.free m hm).1)]
    exact h.walks m hm
  users := fun v hv => by
    rw [SameTables.userAt_eq hs hP hv]
    exact h.users v hv

theorem page_inj {a b : UInt64} (ha : a.toNat % 4096 = 0) (hb : b.toNat % 4096 = 0)
    (h : a.toNat / 4096 = b.toNat / 4096) : a = b :=
  UInt64.toNat_inj.mp (by omega)

section Step

variable {X : List Nat → Prop} (hev : Evolves X M M')

include hev

theorem Maps.walk_keep (h : Maps B M ms) (hm : m ∈ ms) (hn : ¬X (indices m.virt)) :
    walk M'.entries M'.root (indices m.virt) = some ⟨userEntry m.phys, [], true⟩ := by
  rw [hev.root]
  exact hev.leaves _ _ (pagePath_indices (h.free m hm).1) hn (h.walks m hm) rfl rfl

end Step

theorem Maps.grown (h : Maps B M ms) (hg : Grown M M') : Maps B M' ms where
  closed := Evolves.userClosed hg h.closed
  virts := h.virts
  aligned := h.aligned
  free := h.free
  walks := fun m hm => h.walk_keep hg hm id
  users := fun v hv => by
    rw [Evolves.userAt hg h.closed hv id]
    exact h.users v hv

theorem Maps.add (h : Maps B M ms) (hlt : v < userTop) (hB : B.userAt v = false) (hal : v.toNat % 4096 = 0)
    (hnew : v ∉ ms.map Mapping.virt) (hev : Evolves (· = indices v) M M')
    (hw : walk M'.entries M'.root (indices v) = some ⟨userEntry phys, [], true⟩) :
    Maps B M' (ms ++ [⟨v, phys⟩]) := by
  have hmem : ∀ m, m ∈ ms ++ [⟨v, phys⟩] ↔ m ∈ ms ∨ m = ⟨v, phys⟩ := fun m => by simp
  refine ⟨hev.userClosed h.closed, ?_, fun m hm => ?_, fun m hm => ?_, fun m hm => ?_, fun w hwlt => ?_⟩
  · rw [List.map_append, List.nodup_append]
    refine ⟨h.virts, List.nodup_singleton _, fun a ha b hb => ?_⟩
    rw [List.map_singleton, List.mem_singleton] at hb
    intro he
    rw [he, hb] at ha
    exact hnew ha
  · rcases (hmem m).mp hm with hm | rfl
    · exact h.aligned m hm
    · exact hal
  · rcases (hmem m).mp hm with hm | rfl
    · exact h.free m hm
    · exact ⟨hlt, hB⟩
  · rcases (hmem m).mp hm with hm | rfl
    · refine h.walk_keep hev hm fun hi => hnew ?_
      rw [page_inj hal (h.aligned m hm) ((indices_eq_iff (h.free m hm).1 hlt).mp hi).symm]
      exact List.mem_map_of_mem hm
    · exact hw
  -- a page is the user's when it was before or is the new one
  · have hsplit : (∃ m ∈ ms ++ [⟨v, phys⟩], w.toNat / 4096 = m.virt.toNat / 4096) ↔
        (∃ m ∈ ms, w.toNat / 4096 = m.virt.toNat / 4096) ∨ w.toNat / 4096 = v.toNat / 4096 := by
      simp only [hmem]
      constructor
      · rintro ⟨m, hm | rfl, he⟩
        · exact Or.inl ⟨m, hm, he⟩
        · exact Or.inr he
      · rintro (⟨m, hm, he⟩ | he)
        · exact ⟨m, Or.inl hm, he⟩
        · exact ⟨_, Or.inr rfl, he⟩
    rw [hsplit]
    by_cases he : w.toNat / 4096 = v.toNat / 4096
    · refine ⟨fun _ => Or.inr (Or.inr he), fun _ => ?_⟩
      rw [Machine.userAt, accessible, (indices_eq_iff hwlt hlt).mpr he, hw]
      rfl
    · rw [hev.userAt h.closed hwlt (mt (indices_eq_iff hwlt hlt).mp he), h.users w hwlt]
      simp only [he, or_false]

theorem Maps.remove (h : Maps B M (ms ++ [m])) (hev : Evolves (· = indices m.virt) M M')
    (hw : walk M'.entries M'.root (indices m.virt) = none) : Maps B M' ms := by
  have hmem : ∀ m' ∈ ms, m' ∈ ms ++ [m] := fun m' hm' => List.mem_append_left _ hm'
  have hal := h.aligned m (by simp)
  obtain ⟨hlt, hB⟩ := h.free m (by simp)
  have hnodup := h.virts
  rw [List.map_append, List.nodup_append] at hnodup
  obtain ⟨hvirts, -, hdiff⟩ := hnodup
  have hne : ∀ m' ∈ ms, m'.virt.toNat / 4096 ≠ m.virt.toNat / 4096 := fun m' hm' he =>
    hdiff _ (List.mem_map_of_mem hm') _ (by simp) (page_inj (h.aligned m' (hmem m' hm')) hal he)
  refine ⟨hev.userClosed h.closed, hvirts, fun m' hm' => h.aligned m' (hmem m' hm'),
    fun m' hm' => h.free m' (hmem m' hm'), fun m' hm' => ?_, fun w hwlt => ?_⟩
  · have hlt' := (h.free m' (hmem m' hm')).1
    exact h.walk_keep hev (hmem m' hm') fun hi => hne m' hm' ((indices_eq_iff hlt' hlt).mp hi)
  · by_cases he : w.toNat / 4096 = m.virt.toNat / 4096
    · have hi : indices w = indices m.virt := (indices_eq_iff hwlt hlt).mpr he
      have hno : B.userAt w = false := by
        rw [Machine.userAt, hi]
        exact hB
      rw [Machine.userAt, accessible, hi, hw, hno]
      simp only [Option.any_none, Bool.false_eq_true, false_or, false_iff]
      rintro ⟨m', hm', he'⟩
      exact hne m' hm' (he'.symm.trans he)
    · rw [hev.userAt h.closed hwlt (mt (indices_eq_iff hwlt hlt).mp he), h.users w hwlt]
      constructor
      · rintro (h1 | ⟨m', hm', he'⟩)
        · exact Or.inl h1
        · rcases List.mem_append.mp hm' with hm' | hm'
          · exact Or.inr ⟨m', hm', he'⟩
          · rw [List.mem_singleton.mp hm'] at he'
            exact absurd he' he
      · rintro (h1 | ⟨m', hm', he'⟩)
        · exact Or.inl h1
        · exact Or.inr ⟨m', hmem m' hm', he'⟩

/-! ## The operations -/

structure Loading (B M : Machine) (ms : List Mapping) : Prop where
  accounts : Accounts B M (ms.map Mapping.phys)
  maps : Maps B M ms

/-- Room for a load: no page of the window is open to users in `B` or taken by the
mappings `ks`. -/
structure WindowClear (B : Machine) (ks : List Mapping) : Prop where
  base : ∀ v, InWindow v → B.userAt v = false
  kept : ∀ k ∈ ks, ¬InWindow k.virt

theorem userEntry_mask (h : phys.toNat % 4096 = 0) : userEntry phys &&& ~~~0xFFF = phys := by
  have hassoc : userEntry phys = phys ||| (PRESENT ||| WRITABLE ||| USER) := by
    rw [userEntry, UInt64.or_assoc, UInt64.or_assoc, UInt64.or_assoc]
  have hlow := Word.toNat_or_low (c := PRESENT ||| WRITABLE ||| USER) (k := 12) h (by decide)
  have hflags : (PRESENT ||| WRITABLE ||| USER).toNat = 7 := by decide
  rw [← UInt64.toNat_inj, toNat_mask, hassoc, hlow]
  omega

theorem Maps.perm {ms' : List Mapping} (h : Maps B M ms) (hp : ms.Perm ms') : Maps B M ms' where
  closed := h.closed
  virts := (hp.map Mapping.virt).nodup_iff.mp h.virts
  aligned := fun m hm => h.aligned m (hp.mem_iff.mpr hm)
  free := fun m hm => h.free m (hp.mem_iff.mpr hm)
  walks := fun m hm => h.walks m (hp.mem_iff.mpr hm)
  users := fun v hv => by
    rw [h.users v hv]
    simp only [hp.mem_iff]

theorem Loading.perm {ms' : List Mapping} (h : Loading B M ms) (hp : ms.Perm ms') : Loading B M ms' :=
  ⟨h.accounts.perm (hp.map Mapping.phys), h.maps.perm hp⟩

theorem Loading.translates (h : Loading B M ms) (hm : m ∈ ms) :
    M.pageAt m.virt = some (m.phys.toNat / 4096) ∧ M.userAt m.virt = true := by
  have hwalk := h.maps.walks m hm
  have hown := h.accounts.owned m.phys (List.mem_map_of_mem hm)
  have hlow := hown.low
  refine ⟨?_, ?_⟩
  · rw [Machine.pageAt, pageOf, hwalk, Option.map_some]
    unfold Leaf.page
    dsimp only
    rw [(userEntry_flags hown.aligned).2.2.2]
    simp only [frameNumber, offset, List.length_nil, List.foldl_nil, Option.some.injEq]
    omega
  · rw [Machine.userAt, accessible, hwalk]
    rfl

theorem Loading.unmap_run (h : Loading B M (ms ++ [m])) : ∃ M₁, unmapUserPage m.virt M = (some m.phys, M₁) ∧
    Evolves (· = indices m.virt) M M₁ ∧ M₁.frames = M.frames ∧
      walk M₁.entries M₁.root (indices m.virt) = none := by
  have hwalk := h.maps.walks m (by simp)
  have hown := h.accounts.owned m.phys (by simp)
  rcases unmapUserPage_spec h.accounts.paged h.maps.closed (h.maps.free m (by simp)).1
    (h.maps.aligned m (by simp)) with
    ⟨-, hno⟩ | ⟨M₁, pte, hrun, hpte, hev, hframes, hnone⟩
  · rw [accessible, hwalk] at hno
    cases hno
  · rw [hwalk] at hpte
    cases hpte
    rw [userEntry_mask hown.aligned] at hrun
    exact ⟨M₁, hrun, hev, hframes, hev.root.symm ▸ hnone⟩

theorem Loading.unmapOne (h : Loading B M (ms ++ [m])) : Loading B (unmapOne M m) ms := by
  obtain ⟨M₁, hrun, hev, -, hnone⟩ := h.unmap_run
  have hacc : Accounts B M₁ (m.phys :: ms.map Mapping.phys) := by
    refine (h.accounts.evolves hev).perm ?_
    rw [List.map_append, List.map_singleton]
    exact List.perm_append_singleton _ _
  obtain ⟨hs, hacc'⟩ := hacc.release
  have hmaps := h.maps.remove hev hnone
  unfold Elf.unmapOne
  rw [hrun]
  exact ⟨hacc', hmaps.same hacc.paged hs⟩

theorem Loading.unmapOne_run (h : Loading B M (ms ++ [m])) : ∃ M₁, unmapUserPage m.virt M = (some m.phys, M₁) ∧
    M₁.frames.bitIsUsed (m.phys.toNat / 4096) = true ∧ M₁.frames = M.frames ∧
      Elf.unmapOne M m = { M₁ with frames := M₁.frames.freeFrames m.phys 1 } := by
  obtain ⟨M₁, hrun, hev, hframes, -⟩ := h.unmap_run
  refine ⟨M₁, hrun, (h.accounts.evolves hev).used_owned (by simp), hframes, ?_⟩
  unfold Elf.unmapOne
  rw [hrun]

theorem rollback_append (ms : List Mapping) (m : Mapping) (M : Machine) :
    rollback (ms ++ [m]) M = rollback ms (unmapOne M m) := by
  unfold rollback
  rw [List.reverse_append, List.reverse_singleton, List.singleton_append, List.foldl_cons]

theorem Loading.rollback (h : Loading B M (ks ++ ms)) : Loading B (rollback ms M) ks := by
  induction ms using List.reverseRecOn generalizing M with
  | nil => rwa [List.append_nil] at h
  | append_singleton ms m ih =>
    rw [← List.append_assoc] at h
    rw [rollback_append]
    exact ih h.unmapOne

theorem Loading.rollback_frames (h : Loading B M (ks ++ ms)) :
    (∀ f, M.frames.bitIsUsed f = false → (Elf.rollback ms M).frames.bitIsUsed f = false) ∧
      ∀ m ∈ ms, (Elf.rollback ms M).frames.bitIsUsed (m.phys.toNat / 4096) = false := by
  induction ms using List.reverseRecOn generalizing M with
  | nil => exact ⟨fun _ hf => hf, nofun⟩
  | append_singleton ms m ih =>
    rw [← List.append_assoc] at h
    obtain ⟨M₁, -, -, hframes, hM⟩ := h.unmapOne_run
    obtain ⟨hkeep, hfree⟩ := ih h.unmapOne
    -- unmapping leaves the bitmap alone, and freeing only clears bits
    have hbits : ∀ f, (Elf.unmapOne M m).frames.bitIsUsed f = (M.frames.freeFrames m.phys 1).bitIsUsed f := fun f => by
      rw [hM, hframes]
    rw [rollback_append]
    refine ⟨fun f hf => hkeep f ?_, fun m' hm' => ?_⟩
    · rw [hbits, Frames.freeFrames_bits, hf, ite_self]
    · rcases List.mem_append.mp hm' with hm' | hm'
      · exact hfree m' hm'
      · rw [List.mem_singleton.mp hm']
        refine hkeep _ ?_
        rw [hbits, Frames.freeFrames_bits]
        exact if_pos ⟨le_rfl, Nat.lt_succ_self _⟩

/-- The frames `rollback` gives back, each with whether it is in use then. -/
def rollbackFrees : List Mapping → Machine → List (UInt64 × Bool)
  | [], _ => []
  | m :: ms, M =>
    match unmapUserPage m.virt M with
    | (some phys, M') => (phys, M'.frames.bitIsUsed (phys.toNat / 4096)) ::
        rollbackFrees ms { M' with frames := M'.frames.freeFrames phys 1 }
    | (none, M') => rollbackFrees ms M'

theorem Loading.rollbackFrees_eq (h : Loading B M (ks ++ ms)) :
    rollbackFrees ms.reverse M = ms.reverse.map fun m => (m.phys, true) := by
  induction ms using List.reverseRecOn generalizing M with
  | nil => rfl
  | append_singleton ms m ih =>
    rw [← List.append_assoc] at h
    obtain ⟨M₁, hrun, hused, -, hM⟩ := h.unmapOne_run
    rw [List.reverse_append, List.reverse_singleton, List.singleton_append, rollbackFrees, hrun, List.map_cons]
    dsimp only
    rw [hused, ← hM, ih h.unmapOne]

/-- The frames of the mappings hold the contents `f` of the address space. -/
def Holds (M : Machine) (ms : List Mapping) (f : Memory) : Prop :=
  ∀ m ∈ ms, ∀ k < 4096, M.mem (m.phys.toNat + k) = f (m.virt.toNat + k)

theorem Holds.evolves {f : Memory} {X : List Nat → Prop} (h : Holds M ms f)
    (hacc : Accounts B M own) (hsub : ∀ m ∈ ms, m.phys ∈ own) (hev : Evolves X M M') : Holds M' ms f := by
  intro m hm k hk
  have hal := (hacc.owned _ (hsub m hm)).aligned
  rw [hev.mem, h m hm k hk]
  rw [show (m.phys.toNat + k) / 4096 * 4096 = m.phys.toNat by omega]
  exact hacc.apart hev (hsub m hm)

theorem Holds.alloc {f : Memory} {mem : Memory} (h : Holds M ms f) (hacc : Accounts B M own)
    (hsub : ∀ m ∈ ms, m.phys ∈ own) (hal : phys.toNat % 4096 = 0) (hnew : phys ∉ own)
    (hm : mem = M.mem.write phys.toNat (List.replicate frameSize 0))
    (hzero : ∀ k < 4096, f (v.toNat + k) = 0) {frames : Frames} :
    Holds ⟨mem, M.cr3, frames⟩ (ms ++ [⟨v, phys⟩]) f := by
  intro m hmem k hk
  show mem (m.phys.toNat + k) = _
  rcases List.mem_append.mp hmem with hmem | hmem
  · have hmal := (hacc.owned _ (hsub m hmem)).aligned
    have hne : m.phys.toNat ≠ phys.toNat := fun he => hnew (UInt64.toNat_inj.mp he ▸ hsub m hmem)
    rw [← h m hmem k hk, hm, Memory.write_outside]
    rw [List.length_replicate, frameSize]
    omega
  · rw [List.mem_singleton.mp hmem, hm, hzero k hk]
    have hlen : k < (List.replicate frameSize (0 : UInt8)).length := by rwa [List.length_replicate]
    rw [Memory.write_inside hlen, List.getElem_replicate]

theorem mappedPhys_some (h : mappedPhys ms v = some phys) : ⟨v, phys⟩ ∈ ms := by
  obtain ⟨m, hf, rfl⟩ := Option.map_eq_some_iff.mp h
  have hv : m.virt = v := by simpa using List.find?_some hf
  rw [← hv]
  exact List.mem_of_find?_eq_some hf

theorem mappedPhys_none (h : mappedPhys ms v = none) : v ∉ ms.map Mapping.virt := by
  intro hv
  obtain ⟨m, hm, rfl⟩ := List.mem_map.mp hv
  have hnone := List.find?_eq_none.mp (Option.map_eq_none_iff.mp h) m hm
  simp at hnone

/-- What a run of loader steps establishes beside the mappings `ks` made before: the pages
of `P` are mapped as well, and the mapped frames keep the contents of their pages. -/
structure Extends (B : Machine) (ks : List Mapping) (s s' : LoadState) (P : UInt64 → Prop) : Prop where
  loading : Loading B s'.machine (ks ++ s'.mappings)
  virts : ∀ v, v ∈ s'.mappings.map Mapping.virt ↔ v ∈ s.mappings.map Mapping.virt ∨ P v
  holds : ∀ f, Holds s.machine s.mappings f → (∀ v, P v → ∀ k < 4096, f (v.toNat + k) = 0) →
    Holds s'.machine s'.mappings f

theorem Loading.fresh_page (h : Loading B M ms) (hv : v < userTop ∧ B.userAt v = false) (hal : v.toNat % 4096 = 0)
    (hnew : v ∉ ms.map Mapping.virt) {M₁ M₂ : Machine} {r : Option Unit}
    (ha : allocZeroedFrame M = (some phys, M₁)) (hr : mapUserPage v phys M₁ = (r, M₂)) :
    (r = none → Loading B { M₂ with frames := M₂.frames.freeFrames phys 1 } ms) ∧
    (r = some () → Loading B M₂ (ms ++ [⟨v, phys⟩]) ∧ ∀ f ns, (∀ m ∈ ns, m ∈ ms) → Holds M ns f →
      (∀ k < 4096, f (v.toNat + k) = 0) → Holds M₂ (ns ++ [⟨v, phys⟩]) f) := by
  rcases allocZeroedFrame_cases M with ⟨hrun, -⟩ | ⟨phys', frames, halloc, hrun⟩
  · rw [hrun] at ha
    cases ha
  rw [hrun] at ha
  cases ha
  generalize hm : M.mem.write phys.toNat (List.replicate frameSize 0) = mem at hr
  obtain ⟨hs, hacc⟩ := h.accounts.alloc halloc hm.symm
  have hown := hacc.owned phys List.mem_cons_self
  have hmaps := h.maps.same h.accounts.paged hs
  have hargs : UserArgs v phys := ⟨hv.1, hal, hown.aligned, UInt64.lt_iff_toNat_lt.mpr hown.low⟩
  refine ⟨?_, ?_⟩
  · rintro rfl
    have hg := mapUserPage_none hacc.paged hargs hr
    obtain ⟨hs₂, hacc₂⟩ := (hacc.evolves hg).release
    exact ⟨hacc₂, (hmaps.grown hg).same hg.paged hs₂⟩
  · rintro rfl
    obtain ⟨hev, hwalk⟩ := mapUserPage_some hacc.paged hargs hr
    refine ⟨⟨?_, hmaps.add hv.1 hv.2 hal hnew hev hwalk⟩, fun f ns hsub hf hzero => ?_⟩
    · refine (hacc.evolves hev).perm ?_
      rw [List.map_append, List.map_singleton]
      exact (List.perm_append_singleton _ _).symm
    · have hphys : ∀ m ∈ ns, m.phys ∈ ms.map Mapping.phys := fun m hm => List.mem_map_of_mem (hsub m hm)
      refine (hf.alloc h.accounts hphys hown.aligned (List.nodup_cons.mp hacc.nodup).1 hm.symm
        hzero).evolves hacc (fun m hm => ?_) hev
      rcases List.mem_append.mp hm with hm | hm
      · exact List.mem_cons_of_mem _ (hphys m hm)
      · rw [List.mem_singleton.mp hm]
        exact List.mem_cons_self

theorem mapPage_spec {s : LoadState} (h : Loading B s.machine (ks ++ s.mappings)) (hB : WindowClear B ks)
    (hw : InWindow v) (hal : v.toNat % 4096 = 0) :
    ∃ r s', mapPage v s = (r, s') ∧ ((∃ p, r = .ok p ∧ Extends B ks s s' (· = v)) ∨
      ∃ e, r = .error e ∧ s'.mappings = s.mappings ∧ Loading B s'.machine (ks ++ s'.mappings)) := by
  unfold mapPage
  cases hfind : mappedPhys s.mappings v with
  | some phys =>
    have hmem := mappedPhys_some hfind
    refine ⟨_, _, rfl, Or.inl ⟨phys, rfl, h, fun w => ?_, fun f hf _ => hf⟩⟩
    refine ⟨Or.inl, fun hor => hor.elim id ?_⟩
    rintro rfl
    exact List.mem_map_of_mem (f := Mapping.virt) hmem
  | none =>
    have hnew : v ∉ (ks ++ s.mappings).map Mapping.virt := by
      rw [List.map_append, List.mem_append]
      rintro (hk | hv)
      · obtain ⟨k, hmem, rfl⟩ := List.mem_map.mp hk
        exact hB.kept k hmem hw
      · exact mappedPhys_none hfind hv
    dsimp only
    -- no room, no frame and a failed mapping are the three errors
    by_cases hfull : maxMappedPages ≤ s.mappings.length
    · rw [if_pos hfull]
      exact ⟨_, _, rfl, Or.inr ⟨_, rfl, rfl, h⟩⟩
    · rw [if_neg hfull]
      rcases ha : allocZeroedFrame s.machine with ⟨_ | phys, M₁⟩
      · rcases allocZeroedFrame_cases s.machine with ⟨hrun, -⟩ | ⟨phys, frames, -, hrun⟩
        · rw [hrun] at ha
          cases ha
          exact ⟨_, _, rfl, Or.inr ⟨_, rfl, rfl, h⟩⟩
        · rw [hrun] at ha
          cases ha
      · dsimp only
        rcases hmap : mapUserPage v phys M₁ with ⟨_ | _, M₂⟩
        · obtain ⟨hl, -⟩ := h.fresh_page ⟨hw.lt_userTop, hB.base v hw⟩ hal hnew ha hmap
          exact ⟨_, _, rfl, Or.inr ⟨_, rfl, rfl, hl rfl⟩⟩
        · obtain ⟨-, hl⟩ := h.fresh_page ⟨hw.lt_userTop, hB.base v hw⟩ hal hnew ha hmap
          obtain ⟨hl, hholds⟩ := hl rfl
          refine ⟨_, _, rfl, Or.inl ⟨phys, rfl, ?_, fun w => ?_, fun f hf hzero => ?_⟩⟩
          · rwa [← List.append_assoc]
          · simp [eq_comm]
          · exact hholds f s.mappings (fun m hm => List.mem_append_right _ hm) hf (hzero v rfl)

/-! ## The loops -/

/-- A loader step: it maps the pages of `P`, or it fails with its mappings undone. -/
def Steps {α : Type} (B : Machine) (ks : List Mapping) (x : Load α) (s : LoadState) (P : UInt64 → Prop) : Prop :=
  ∃ r s', x s = (r, s') ∧
    ((∃ a, r = .ok a ∧ Extends B ks s s' P) ∨ (∃ e, r = .error e) ∧ Loading B s'.machine ks)

theorem Extends.refl {s : LoadState} (h : Loading B s.machine (ks ++ s.mappings)) {P : UInt64 → Prop}
    (hP : ∀ v, ¬P v) : Extends B ks s s P := by
  refine ⟨h, fun v => ?_, fun f hf _ => hf⟩
  simp only [hP v, or_false]

theorem Extends.trans {s s' s'' : LoadState} {P Q : UInt64 → Prop} (h : Extends B ks s s' P)
    (h' : Extends B ks s' s'' Q) : Extends B ks s s'' fun v => P v ∨ Q v := by
  refine ⟨h'.loading, fun v => ?_, fun f hf hz => ?_⟩
  · rw [h'.virts, h.virts, or_assoc]
  · exact h'.holds f (h.holds f hf fun v hv => hz v (Or.inl hv)) fun v hv => hz v (Or.inr hv)

theorem Extends.congr {s s' : LoadState} {P Q : UInt64 → Prop} (h : Extends B ks s s' P) (hPQ : ∀ v, P v ↔ Q v) :
    Extends B ks s s' Q := by
  refine ⟨h.loading, fun v => ?_, fun f hf hz => h.holds f hf fun v hv => hz v ((hPQ v).mp hv)⟩
  rw [h.virts, hPQ]

section Steps

variable {α β : Type} {s : LoadState} {P Q : UInt64 → Prop}

theorem bind_ok {x : Load α} {f : α → Load β} {a : α} {s' : LoadState} (h : x s = (.ok a, s')) :
    (x >>= f) s = f a s' := by
  simp only [bind, h]

theorem bind_error {x : Load α} {f : α → Load β} {e : LoadError} {s' : LoadState} (h : x s = (.error e, s')) :
    (x >>= f) s = (.error e, s') := by
  simp only [bind, h]

theorem Steps.bind {x : Load α} {f : α → Load β} (hx : Steps B ks x s P)
    (hf : ∀ a s', Extends B ks s s' P → Steps B ks (f a) s' Q) : Steps B ks (x >>= f) s fun v => P v ∨ Q v := by
  obtain ⟨r, s', hrun, ⟨a, rfl, hext⟩ | ⟨⟨e, rfl⟩, hl⟩⟩ := hx
  · obtain ⟨r₂, s₂, hrun₂, hpost⟩ := hf a s' hext
    refine ⟨r₂, s₂, (bind_ok hrun).trans hrun₂, ?_⟩
    rcases hpost with ⟨b, hr, hext₂⟩ | herr
    · exact Or.inl ⟨b, hr, hext.trans hext₂⟩
    · exact Or.inr herr
  · exact ⟨_, _, bind_error hrun, Or.inr ⟨⟨e, rfl⟩, hl⟩⟩

theorem Steps.congr {x : Load α} (h : Steps B ks x s P) (hPQ : ∀ v, P v ↔ Q v) : Steps B ks x s Q := by
  obtain ⟨r, s', hrun, ⟨a, hr, hext⟩ | herr⟩ := h
  · exact ⟨r, s', hrun, Or.inl ⟨a, hr, hext.congr hPQ⟩⟩
  · exact ⟨r, s', hrun, Or.inr herr⟩

theorem steps_pure {a : α} (h : Loading B s.machine (ks ++ s.mappings)) (hP : ∀ v, ¬P v) : Steps B ks (pure a) s P :=
  ⟨_, _, rfl, Or.inl ⟨a, rfl, Extends.refl h hP⟩⟩

theorem steps_mapPage (h : Loading B s.machine (ks ++ s.mappings)) (hB : WindowClear B ks) (hw : InWindow v)
    (hal : v.toNat % 4096 = 0) : Steps B ks (orRollback (mapPage v)) s (· = v) := by
  obtain ⟨r, s', hrun, ⟨p, rfl, hext⟩ | ⟨e, rfl, -, hl⟩⟩ := mapPage_spec h hB hw hal
  · refine ⟨.ok p, s', ?_, Or.inl ⟨p, rfl, hext⟩⟩
    unfold orRollback
    rw [hrun]
  · refine ⟨.error e, { s' with machine := rollback s'.mappings s'.machine }, ?_,
      Or.inr ⟨⟨e, rfl⟩, hl.rollback⟩⟩
    unfold orRollback
    rw [hrun]

theorem mapPages_succ (fuel : Nat) (page stop : UInt64) : mapPages (fuel + 1) page stop =
    if page < stop then
      orRollback (mapPage page) >>= fun _ => lift (okOr (checkedAdd page pageSize) .badSegment) >>= fun next =>
        mapPages fuel next stop
    else pure () := by rfl

theorem steps_mapPages (hB : WindowClear B ks) (stop : UInt64) (hstop : stop.toNat % 4096 = 0) (fuel : Nat) :
    ∀ (page : UInt64) {s : LoadState}, Loading B s.machine (ks ++ s.mappings) → page.toNat % 4096 = 0 →
      (∀ v : UInt64, v.toNat % 4096 = 0 → page.toNat ≤ v.toNat → v.toNat < stop.toNat → InWindow v) →
      stop.toNat ≤ page.toNat + 4096 * fuel →
      Steps B ks (mapPages fuel page stop) s fun v =>
        v.toNat % 4096 = 0 ∧ page.toNat ≤ v.toNat ∧ v.toNat < stop.toNat := by
  induction fuel with
  | zero =>
    intro page s h hal hw hf
    exact steps_pure h fun v hv => by omega
  | succ fuel ih =>
    intro page s h hal hw hf
    rw [mapPages_succ]
    by_cases hlt : page < stop
    · rw [if_pos hlt]
      have hlt' : page.toNat < stop.toNat := UInt64.lt_iff_toNat_lt.mp hlt
      obtain ⟨hnext, hnat⟩ := next_page hal hstop hlt'
      refine ((steps_mapPage h hB (hw page hal le_rfl hlt') hal).bind
        (Q := fun v => v.toNat % 4096 = 0 ∧ (page + pageSize).toNat ≤ v.toNat ∧ v.toNat < stop.toNat)
        fun p s' hext => ?_).congr fun v => ?_
      · have hlift : lift (okOr (checkedAdd page pageSize) .badSegment) s' = (.ok (page + pageSize), s') := by
          rw [hnext]
          rfl
        unfold Steps
        rw [bind_ok hlift]
        exact ih _ hext.loading (by omega) (fun w hwal hle hlt => hw w hwal (by omega) hlt) (by omega)
      · rw [hnat]
        constructor
        · rintro (rfl | hv)
          · exact ⟨hal, le_rfl, hlt'⟩
          · omega
        · rintro ⟨h1, h2, h3⟩
          by_cases he : v.toNat = page.toNat
          · exact Or.inl (UInt64.toNat_inj.mp he)
          · exact Or.inr (by omega)
    · rw [if_neg hlt]
      rw [UInt64.not_lt, UInt64.le_iff_toNat_le] at hlt
      exact steps_pure h fun v hv => by omega

/-- The pages that meet the memory range of a segment. -/
def Segment.Touches (seg : Segment) (v : UInt64) : Prop :=
  v.toNat % 4096 = 0 ∧ v.toNat < seg.vaddr.toNat + seg.memsz.toNat ∧ seg.vaddr.toNat < v.toNat + 4096

theorem Segment.Ok.pages {image : Image} {seg : Segment} (hok : seg.Ok image) :
    checkedAdd seg.vaddr seg.memsz = some (seg.vaddr + seg.memsz) ∧
      (alignDown seg.vaddr).toNat = seg.vaddr.toNat / 4096 * 4096 ∧
      ∃ stop, alignUp (seg.vaddr + seg.memsz) = some stop ∧
        stop.toNat = (seg.vaddr.toNat + seg.memsz.toNat + 4095) / 4096 * 4096 := by
  have hlow := hok.low
  have hhigh := hok.high
  obtain ⟨hadd, hend⟩ := toNat_checkedAdd (a := seg.vaddr) (b := seg.memsz) (by omega)
  have hmask : (0xFFF : UInt64).toNat = 4095 := by decide
  obtain ⟨hadd', hend'⟩ := toNat_checkedAdd (a := seg.vaddr + seg.memsz) (b := 0xFFF) (by omega)
  refine ⟨hadd, toNat_mask _, (seg.vaddr + seg.memsz + 0xFFF) &&& ~~~0xFFF, ?_, ?_⟩
  · rw [alignUp, hadd', Option.map_some]
  · rw [toNat_mask, hend', hend, hmask]

theorem steps_mapSegment (hB : WindowClear B ks) {image : Image} {seg : Segment} (hok : seg.Ok image)
    (h : Loading B s.machine (ks ++ s.mappings)) : Steps B ks (mapSegment seg) s seg.Touches := by
  have hne := hok.nonempty
  have hlow := hok.low
  have hhigh := hok.high
  obtain ⟨hadd, hfirst, stop, hup, hstop⟩ := hok.pages
  have hrun : mapSegment seg s =
      mapPages (stop.toNat / 4096 - (alignDown seg.vaddr).toNat / 4096) (alignDown seg.vaddr) stop s := by
    unfold mapSegment
    have h1 : lift (okOr (checkedAdd seg.vaddr seg.memsz) .badSegment) s = (.ok (seg.vaddr + seg.memsz), s) := by
      rw [hadd]
      rfl
    have h2 : lift (okOr (alignUp (seg.vaddr + seg.memsz)) .badSegment) s = (.ok stop, s) := by
      rw [hup]
      rfl
    rw [bind_ok h1, bind_ok h2]
  have hloop := steps_mapPages hB stop (by omega)
    (stop.toNat / 4096 - (alignDown seg.vaddr).toNat / 4096) (alignDown seg.vaddr) h (by omega)
    (fun v hal h1 h2 => inWindow_iff.mpr (Or.inl (by omega))) (by omega)
  have hsteps : Steps B ks (mapSegment seg) s fun v =>
      v.toNat % 4096 = 0 ∧ (alignDown seg.vaddr).toNat ≤ v.toNat ∧ v.toNat < stop.toNat := by
    unfold Steps
    rw [hrun]
    exact hloop
  refine hsteps.congr fun v => ?_
  unfold Segment.Touches
  omega

theorem steps_mapSegments (hB : WindowClear B ks) {image : Image} (segs : List Segment) :
    ∀ {s : LoadState}, (∀ seg ∈ segs, seg.Ok image) → Loading B s.machine (ks ++ s.mappings) →
      Steps B ks (forSegments mapSegment segs) s fun v => ∃ seg ∈ segs, seg.Touches v := by
  induction segs with
  | nil =>
    intro s _ h
    exact steps_pure h fun v hv => by simp at hv
  | cons seg segs ih =>
    intro s hok h
    refine ((steps_mapSegment hB (hok seg List.mem_cons_self) h).bind fun _ s' hext =>
      ih (fun seg' hm => hok seg' (List.mem_cons_of_mem _ hm)) hext.loading).congr fun v => ?_
    simp only [List.mem_cons, exists_eq_or_imp]

theorem toNat_stackPage {index : Nat} (h : index < 4) :
    (stackBase + UInt64.ofNat index * pageSize).toNat = 0x103FFC000 + index * 4096 := by
  have hbase : stackBase.toNat = 0x103FFC000 := by decide
  have hsize : pageSize.toNat = 4096 := by decide
  rw [UInt64.toNat_add, UInt64.toNat_mul, UInt64.toNat_ofNat', hbase, hsize]
  omega

theorem steps_mapStack (hB : WindowClear B ks) (idx : List Nat) :
    ∀ {s : LoadState}, (∀ i ∈ idx, i < 4) → Loading B s.machine (ks ++ s.mappings) →
      Steps B ks (mapStack idx) s fun v => ∃ i ∈ idx, v.toNat = 0x103FFC000 + i * 4096 := by
  induction idx with
  | nil =>
    intro s _ h
    exact steps_pure h fun v hv => by simp at hv
  | cons i idx ih =>
    intro s hlt h
    have hi := hlt i List.mem_cons_self
    have hnat := toNat_stackPage hi
    refine ((steps_mapPage h hB (inWindow_iff.mpr (Or.inr (by omega))) (by omega)).bind fun _ s' hext =>
      ih (fun j hj => hlt j (List.mem_cons_of_mem _ hj)) hext.loading).congr fun v => ?_
    simp only [List.mem_cons, exists_eq_or_imp]
    rw [← UInt64.toNat_inj, hnat]

end Steps

end Pippin.Elf
