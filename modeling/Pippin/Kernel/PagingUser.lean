import Pippin.Kernel.PagingGrowth

/-! User mappings: what `map_user_page` and `unmap_user_page` do to the translation and
the accessibility of every lower-half page, for one call and over whole runs. -/

namespace Pippin.Mm
open Mem PageTable

def indices (v : UInt64) : List Nat := [levelIndex v 0, levelIndex v 1, levelIndex v 2, levelIndex v 3]

variable {M M' : Machine} {p : List Nat} {i t : Nat} {virt phys v w : UInt64}

theorem levelIndex_eq (v : UInt64) : levelIndex v 0 = v.toNat / 2 ^ 39 % 512 ∧
    levelIndex v 1 = v.toNat / 2 ^ 30 % 512 ∧ levelIndex v 2 = v.toNat / 2 ^ 21 % 512 ∧
    levelIndex v 3 = v.toNat / 2 ^ 12 % 512 := by
  have hmask : ∀ x : UInt64, (x &&& 0x1FF).toNat = x.toNat % 512 := fun x =>
    Word.toNat_and_pred (a := 0x200) (k := 9) (by decide)
  unfold levelIndex
  simp only [hmask, UInt64.toNat_shiftRight, Nat.shiftRight_eq_div_pow, levelShift]
  exact ⟨rfl, rfl, rfl, rfl⟩

theorem levelIndex_lt (v : UInt64) (level : Nat) : levelIndex v level < 512 := by
  have hmask : ∀ x : UInt64, (x &&& 0x1FF).toNat = x.toNat % 512 := fun x =>
    Word.toNat_and_pred (a := 0x200) (k := 9) (by decide)
  rw [levelIndex, hmask]
  exact Nat.mod_lt _ (by decide)

theorem pagePath_indices (h : v < userTop) : PagePath (indices v) := by
  have hlt : v.toNat < 0x800000000000 := UInt64.lt_iff_toNat_lt.mp h
  refine ⟨⟨fun i hi => ?_, fun i hi => ?_⟩, rfl⟩
  · simp only [indices, List.mem_cons, List.not_mem_nil, or_false] at hi
    rcases hi with rfl | rfl | rfl | rfl <;> exact levelIndex_lt v _
  · have h0 := (levelIndex_eq v).1
    simp only [indices, List.head?_cons, Option.mem_def, Option.some.injEq] at hi
    omega

theorem indices_eq_iff (hv : v < userTop) (hw : w < userTop) :
    indices v = indices w ↔ v.toNat / 4096 = w.toNat / 4096 := by
  have hv' : v.toNat < 0x800000000000 := UInt64.lt_iff_toNat_lt.mp hv
  have hw' : w.toNat < 0x800000000000 := UInt64.lt_iff_toNat_lt.mp hw
  obtain ⟨h0, h1, h2, h3⟩ := levelIndex_eq v
  obtain ⟨g0, g1, g2, g3⟩ := levelIndex_eq w
  simp only [indices, List.cons.injEq, and_true, h0, h1, h2, h3, g0, g1, g2, g3]
  clear h0 h1 h2 h3 g0 g1 g2 g3
  constructor
  · rintro ⟨e0, e1, e2, e3⟩
    omega
  · intro he
    refine ⟨?_, ?_, ?_, ?_⟩
    all_goals omega

theorem slots_of_indices (h : v < userTop) : Slot [] (levelIndex v 0) ∧ Slot [levelIndex v 0] (levelIndex v 1) ∧
    Slot [levelIndex v 0, levelIndex v 1] (levelIndex v 2) ∧
    Slot [levelIndex v 0, levelIndex v 1, levelIndex v 2] (levelIndex v 3) := by
  have hq := (pagePath_indices h).lower
  refine ⟨⟨hq.mono ?_, by decide⟩, ⟨hq.mono ?_, Nat.le_of_ble_eq_true rfl⟩,
    ⟨hq.mono ?_, Nat.le_of_ble_eq_true rfl⟩, ⟨hq, Nat.le_of_ble_eq_true rfl⟩⟩
  · exact ⟨[levelIndex v 1, levelIndex v 2, levelIndex v 3], rfl⟩
  · exact ⟨[levelIndex v 2, levelIndex v 3], rfl⟩
  · exact ⟨[levelIndex v 3], rfl⟩

/-- A table open to user access, after growth from `M`. -/
structure Opened (M M' : Machine) (p : List Nat) (t : Nat) : Prop where
  grown : Grown M M'
  table : descend M'.entries M.root p = some t
  rights : userPath M'.entries M.root p = true

section Open

variable {M₀ : Machine} (h : Opened M₀ M p t) (hs : Slot p i)

include h hs

theorem Opened.link_spec (hlev : p.length < 3) (hh : huge (M.entries t i) = false) :
    ∃ r M', linkTable (t + 8 * i) M = (r, M') ∧ Grown M₀ M' ∧
      (r = some () → ∃ t', Opened M₀ M' (p ++ [i]) t' ∧ (M'.mem.read64 (t + 8 * i) &&& ~~~0xFFF).toNat = t') := by
  have hroot := h.grown.root
  obtain ⟨r, M', hrun, hg, hpost⟩ := linkTable_spec h.grown.paged hs hlev (hroot ▸ h.table) hh
  refine ⟨r, M', hrun, h.grown.trans hg, fun hr => ?_⟩
  obtain ⟨t', hd, hu⟩ := hpost hr
  rw [hroot] at hd hu
  have hroot' : M'.root = M₀.root := hg.root.trans hroot
  refine ⟨t', ⟨h.grown.trans hg, hd, hu.trans h.rights⟩, ?_⟩
  have hparent := hg.tables p t hs.tablePath (hroot ▸ h.table)
  exact hg.paged.follow hs hlev (hg.root.symm ▸ hparent) (hroot'.symm ▸ hd)

theorem Opened.open_spec {size step flags : UInt64} (hsp : Split p.length size step flags) :
    ∃ r M', openTable (t + 8 * i) size step flags M = (r, M') ∧ Grown M₀ M' ∧
      (r = some () → ∃ t', Opened M₀ M' (p ++ [i]) t' ∧ (M'.mem.read64 (t + 8 * i) &&& ~~~0xFFF).toNat = t') := by
  have hroot := h.grown.root
  have hlev : p.length < 3 := by
    generalize p.length = n at hsp
    cases hsp <;> decide
  obtain ⟨r, M₁, hrun, hg, hpost⟩ := splitHuge_spec h.grown.paged hs hlev (hroot ▸ h.table) hsp
  unfold openTable
  cases r with
  | none =>
    rw [Kernel.bind_none hrun]
    exact ⟨none, M₁, rfl, h.grown.trans hg, nofun⟩
  | some u =>
    rw [Kernel.bind_some hrun]
    have h₁ : Opened M₀ M₁ p t := by
      refine ⟨h.grown.trans hg, ?_, ?_⟩
      · exact hroot ▸ hg.tables p t hs.tablePath (hroot ▸ h.table)
      · exact hroot ▸ hg.rights p hs.tablePath (hroot ▸ h.rights)
    exact h₁.link_spec hs hlev (hpost rfl)

end Open

def userEntry (phys : UInt64) : UInt64 := phys ||| PRESENT ||| WRITABLE ||| USER

theorem userEntry_flags (h : phys.toNat % 4096 = 0) : present (userEntry phys) = true ∧
    PageTable.user (userEntry phys) = true ∧ huge (userEntry phys) = false ∧
    frameNumber (userEntry phys) = frameNumber phys := by
  have hassoc : userEntry phys = phys ||| (PRESENT ||| WRITABLE ||| USER) := by
    rw [userEntry, UInt64.or_assoc, UInt64.or_assoc, UInt64.or_assoc]
  obtain ⟨h1, h2, h3⟩ := flags_or (c := PRESENT ||| WRITABLE ||| USER) h
  rw [hassoc, h1, h2, h3, frameNumber_or (by decide)]
  exact ⟨by decide, by decide, by decide, rfl⟩

/-- The arguments `map_user_page` accepts. -/
structure UserArgs (virt phys : UInt64) : Prop where
  virt_lt : virt < userTop
  virt_aligned : virt.toNat % 4096 = 0
  phys_aligned : phys.toNat % 4096 = 0
  phys_lt : phys < initialMapSize

theorem and_fff (x : UInt64) : x &&& 0xFFF = 0 ↔ x.toNat % 4096 = 0 := by
  have h : (x &&& 0xFFF).toNat = x.toNat % 4096 := Word.toNat_and_pred (a := 0x1000) (k := 12) (by decide)
  rw [← UInt64.toNat_inj, h]
  rfl

theorem userArgs_iff : UserArgs virt phys ↔
    ¬(virt ≥ userTop ∨ virt &&& 0xFFF ≠ 0 ∨ phys &&& 0xFFF ≠ 0 ∨ phys ≥ initialMapSize) := by
  simp only [not_or, not_not, ge_iff_le, UInt64.not_le, and_fff]
  constructor
  · intro ha
    exact ⟨ha.virt_lt, ha.virt_aligned, ha.phys_aligned, ha.phys_lt⟩
  · rintro ⟨hvirt, hvaligned, hpaligned, hphys⟩
    exact ⟨hvirt, hvaligned, hpaligned, hphys⟩

/-- One call of `map_user_page`: failure only grows the tables, success also sets the
entry of the page. -/
theorem mapUserPage_spec (hP : Paged M) (ha : UserArgs virt phys) :
    ∃ r M', mapUserPage virt phys M = (r, M') ∧ (r = none → Grown M M') ∧
      (r = some () → Evolves (· = indices virt) M M' ∧
        walk M'.entries M.root (indices virt) = some ⟨userEntry phys, [], true⟩) := by
  obtain ⟨s0, s1, s2, s3⟩ := slots_of_indices ha.virt_lt
  unfold mapUserPage
  rw [if_neg (userArgs_iff.mp ha)]
  have hcr3 : Kernel.readCr3 M = (some M.cr3, M) := rfl
  rw [Kernel.bind_some hcr3]
  -- level 0: the root table, which is always open
  have h0 : Opened M M [] M.root := ⟨hP.grown, rfl, rfl⟩
  obtain ⟨r1, M1, hrun1, hg1, hpost1⟩ := h0.link_spec s0 (by decide) (hP.wf.top s0)
  have hslot0 : slotOf M.cr3 virt 0 = M.root + 8 * levelIndex virt 0 := rfl
  rw [hslot0]
  cases r1 with
  | none =>
    rw [Kernel.bind_none hrun1]
    exact ⟨none, M1, rfl, fun _ => hg1, nofun⟩
  | some u =>
  rw [Kernel.bind_some hrun1]
  obtain ⟨t1, h1, hptr1⟩ := hpost1 rfl
  have hload1 : Kernel.load (M.root + 8 * levelIndex virt 0) M1 =
      (some (M1.mem.read64 (M.root + 8 * levelIndex virt 0)), M1) := rfl
  rw [Kernel.bind_some hload1, slotOf, hptr1]
  -- level 1: 1 GiB pages
  obtain ⟨r2, M2, hrun2, hg2, hpost2⟩ := h1.open_spec s1 Split.gib
  cases r2 with
  | none =>
    rw [Kernel.bind_none hrun2]
    exact ⟨none, M2, rfl, fun _ => hg2, nofun⟩
  | some u =>
  rw [Kernel.bind_some hrun2]
  obtain ⟨t2, h2, hptr2⟩ := hpost2 rfl
  have hload2 : Kernel.load (t1 + 8 * levelIndex virt 1) M2 =
      (some (M2.mem.read64 (t1 + 8 * levelIndex virt 1)), M2) := rfl
  rw [Kernel.bind_some hload2, slotOf, hptr2]
  -- level 2: 2 MiB pages
  obtain ⟨r3, M3, hrun3, hg3, hpost3⟩ := h2.open_spec s2 Split.mib
  cases r3 with
  | none =>
    rw [Kernel.bind_none hrun3]
    exact ⟨none, M3, rfl, fun _ => hg3, nofun⟩
  | some u =>
  rw [Kernel.bind_some hrun3]
  obtain ⟨t3, h3, hptr3⟩ := hpost3 rfl
  have hload3 : Kernel.load (t2 + 8 * levelIndex virt 2) M3 =
      (some (M3.mem.read64 (t2 + 8 * levelIndex virt 2)), M3) := rfl
  rw [Kernel.bind_some hload3, slotOf, hptr3]
  -- level 3: the page itself
  have hroot := h3.grown.root
  obtain ⟨hpr, husr, -, -⟩ := userEntry_flags ha.phys_aligned
  obtain ⟨hev, hwalk, -⟩ := evolves_setPage h3.grown.paged s3 rfl (hroot.symm ▸ h3.table)
    (e := userEntry phys) (fun _ => hroot.symm ▸ h3.rights) rfl
  refine ⟨some (), _, rfl, nofun, fun _ => ⟨Evolves.trans h3.grown.evolves hev, ?_⟩⟩
  have hw := hwalk hpr
  rw [husr, hroot] at hw
  exact hw

/-! ## Removing a user page -/

theorem inaccessible_of_absent {E : Entries} {root : Nat} {is : List Nat} (hd : descend E root p = some t)
    (h : present (E t i) = false) : accessible E root (p ++ i :: is) = false := by
  unfold accessible
  rw [walk_append hd (List.cons_ne_nil _ _), walk_cons_absent h]
  rfl

theorem inaccessible_of_kernel {E : Entries} {root : Nat} {is : List Nat} (hd : descend E root p = some t)
    (hl : is = [] ∨ huge (E t i) = true) (h : PageTable.user (E t i) = false) :
    accessible E root (p ++ i :: is) = false := by
  cases hpr : present (E t i) with
  | false => exact inaccessible_of_absent hd hpr
  | true =>
    unfold accessible
    rw [walk_append hd (List.cons_ne_nil _ _), walk_cons_leaf hpr hl]
    refine any_under_false fun l hw => ?_
    cases hw
    exact h

theorem and_present_user {e : UInt64} :
    e &&& (PRESENT ||| USER) = PRESENT ||| USER ↔ present e = true ∧ PageTable.user e = true := by
  have hmask : ∀ k, (PRESENT ||| USER).toNat.testBit k = (decide (0 = k) || decide (2 = k)) := fun k =>
    (Word.testBit_or_bit (w := PRESENT) (k := 2) (by decide) k).trans
      (congrArg (· || _) (Nat.testBit_two_pow (n := 0)))
  rw [← UInt64.toNat_inj, present_eq, user_eq]
  constructor
  · intro h
    have hb := fun k => congrArg (Nat.testBit · k) h
    simp only [UInt64.toNat_and, Nat.testBit_and, hmask] at hb
    have h0 := hb 0
    have h2 := hb 2
    simp at h0 h2
    exact ⟨by simpa using h0, by simpa using h2⟩
  · rintro ⟨h0, h2⟩
    refine Nat.eq_of_testBit_eq fun k => ?_
    rw [UInt64.toNat_and, Nat.testBit_and, hmask]
    by_cases hk0 : 0 = k
    · subst hk0
      rw [h0]
      rfl
    · by_cases hk2 : 2 = k
      · subst hk2
        rw [h2]
        rfl
      · simp [hk0, hk2]

section Unmap

variable (hP : Paged M) (hs : Slot p i) (hlev : p.length < 3) (hd : descend M.entries M.root p = some t)

include hP hs hlev hd

theorem Paged.target_eq (hpr : present (M.entries t i) = true) (hh : huge (M.entries t i) = false) :
    target (M.entries t i) = (M.entries t i &&& ~~~0xFFF).toNat := by
  rw [target_of_lt (hP.wf.low hs hlev hd (isLink_iff.mpr ⟨hpr, hh⟩)), toNat_mask]

theorem Paged.descend_through (hpr : present (M.entries t i) = true) (hh : huge (M.entries t i) = false) :
    descend M.entries M.root (p ++ [i]) = some (M.entries t i &&& ~~~0xFFF).toNat := by
  rw [descend_snoc hd, if_pos (isLink_iff.mpr ⟨hpr, hh⟩), hP.target_eq hs hlev hd hpr hh]

theorem Paged.descend_middle (h : ¬(M.entries t i &&& PRESENT = 0 ∨ M.entries t i &&& HUGE ≠ 0)) :
    descend M.entries M.root (p ++ [i]) = some (M.entries t i &&& ~~~0xFFF).toNat := by
  rw [not_or, and_present, Bool.not_eq_false, and_huge, Bool.not_eq_true] at h
  exact hP.descend_through hs hlev hd h.1 h.2

omit hP

theorem inaccessible_of_middle (hu : UserClosed M.entries M.root)
    (h : M.entries t i &&& PRESENT = 0 ∨ M.entries t i &&& HUGE ≠ 0) (is : List Nat) :
    accessible M.entries M.root (p ++ i :: is) = false := by
  rcases h with h | h
  · exact inaccessible_of_absent hd (and_present.mp h)
  · exact inaccessible_of_kernel hd (Or.inr (and_huge.mp h)) (hu.large hs hlev hd (and_huge.mp h))

end Unmap

theorem load_slot {e : UInt64} (ht : (e &&& ~~~0xFFF).toNat = t) (virt : UInt64) (level : Nat) :
    Kernel.load (slotOf e virt level) M = (some (M.entries t (levelIndex virt level)), M) := by
  rw [slotOf, ht]
  rfl

/-- One call of `unmap_user_page`: it fails exactly on pages without user access, and
otherwise clears the entry of the page. -/
theorem unmapUserPage_spec (hP : Paged M) (hu : UserClosed M.entries M.root) (hv : virt < userTop)
    (hal : virt.toNat % 4096 = 0) :
    (unmapUserPage virt M = (none, M) ∧ accessible M.entries M.root (indices virt) = false) ∨
    ∃ M' pte, unmapUserPage virt M = (some (pte &&& ~~~0xFFF), M') ∧
      walk M.entries M.root (indices virt) = some ⟨pte, [], true⟩ ∧
      Evolves (· = indices virt) M M' ∧ M'.frames = M.frames ∧
      walk M'.entries M.root (indices virt) = none := by
  obtain ⟨s0, s1, s2, s3⟩ := slots_of_indices hv
  unfold unmapUserPage
  rw [if_neg (not_not.mpr ((and_fff virt).mpr hal))]
  have hcr3 : Kernel.readCr3 M = (some M.cr3, M) := rfl
  rw [Kernel.bind_some hcr3]
  have d0 : descend M.entries M.root [] = some M.root := rfl
  have hload0 : Kernel.load (slotOf M.cr3 virt 0) M = (some (M.entries M.root (levelIndex virt 0)), M) := rfl
  rw [Kernel.bind_some hload0]
  -- an entry that stops the walk at some level leaves the page inaccessible
  by_cases hp0 : present (M.entries M.root (levelIndex virt 0)) = false
  · rw [if_pos (and_present.mpr hp0)]
    exact Or.inl ⟨rfl, inaccessible_of_absent d0 hp0⟩
  rw [if_neg (mt and_present.mp hp0)]
  rw [Bool.not_eq_false] at hp0
  have d1 := hP.descend_through s0 (by decide) d0 hp0 (hP.wf.top s0)
  generalize ht1 : (M.entries M.root (levelIndex virt 0) &&& ~~~0xFFF).toNat = t1 at d1
  rw [Kernel.bind_some (load_slot ht1 virt 1)]
  by_cases hp1 : M.entries t1 (levelIndex virt 1) &&& PRESENT = 0 ∨ M.entries t1 (levelIndex virt 1) &&& HUGE ≠ 0
  · rw [if_pos hp1]
    exact Or.inl ⟨rfl, inaccessible_of_middle s1 (by simp) d1 hu hp1 _⟩
  rw [if_neg hp1]
  have d2 := hP.descend_middle s1 (by simp) d1 hp1
  generalize ht2 : (M.entries t1 (levelIndex virt 1) &&& ~~~0xFFF).toNat = t2 at d2
  rw [Kernel.bind_some (load_slot ht2 virt 2)]
  by_cases hp2 : M.entries t2 (levelIndex virt 2) &&& PRESENT = 0 ∨ M.entries t2 (levelIndex virt 2) &&& HUGE ≠ 0
  · rw [if_pos hp2]
    exact Or.inl ⟨rfl, inaccessible_of_middle s2 (by simp) d2 hu hp2 _⟩
  rw [if_neg hp2]
  have d3 := hP.descend_middle s2 (by simp) d2 hp2
  generalize ht3 : (M.entries t2 (levelIndex virt 2) &&& ~~~0xFFF).toNat = t3 at d3
  have hslot3 : slotOf (M.entries t2 (levelIndex virt 2)) virt 3 = t3 + 8 * levelIndex virt 3 := by
    rw [slotOf, ht3]
  rw [hslot3]
  have hload3 : Kernel.load (t3 + 8 * levelIndex virt 3) M = (some (M.entries t3 (levelIndex virt 3)), M) := rfl
  rw [Kernel.bind_some hload3]
  by_cases hp3 : M.entries t3 (levelIndex virt 3) &&& (PRESENT ||| USER) ≠ PRESENT ||| USER
  · rw [if_pos hp3]
    refine Or.inl ⟨rfl, ?_⟩
    rw [ne_eq, and_present_user, not_and, Bool.not_eq_true] at hp3
    cases hpr : present (M.entries t3 (levelIndex virt 3)) with
    | false =>
      exact inaccessible_of_absent (p := [levelIndex virt 0, levelIndex virt 1, levelIndex virt 2]) d3 hpr
    | true =>
      exact inaccessible_of_kernel (p := [levelIndex virt 0, levelIndex virt 1, levelIndex virt 2]) d3
        (Or.inl rfl) (hp3 hpr)
  rw [if_neg hp3]
  rw [not_not, and_present_user] at hp3
  -- a user page: all entries on the way allow user access
  replace d3 : descend M.entries M.root [levelIndex virt 0, levelIndex virt 1, levelIndex virt 2] = some t3 := d3
  have hpath := hu.small s3 rfl d3 hp3.1 hp3.2
  have hwalk : walk M.entries M.root (indices virt) = some ⟨M.entries t3 (levelIndex virt 3), [], true⟩ := by
    show walk M.entries M.root ([levelIndex virt 0, levelIndex virt 1, levelIndex virt 2] ++ [levelIndex virt 3]) = _
    rw [walk_append d3 (List.cons_ne_nil _ _), walk_cons_leaf hp3.1 (Or.inl rfl), hp3.2, hpath]
    rfl
  obtain ⟨hev, -, hnone⟩ := evolves_setPage hP s3 rfl d3 (e := 0) nofun rfl
  exact Or.inr ⟨_, _, rfl, hwalk, hev, rfl, hnone rfl⟩

/-! ## Runs -/

namespace Machine

def pageAt (M : Machine) (v : UInt64) : Option Nat := pageOf M.entries M.root (indices v)

def userAt (M : Machine) (v : UInt64) : Bool := accessible M.entries M.root (indices v)

end Machine

theorem userPageMapped_eq (hP : Paged M) (hv : v < userTop) : userPageMapped M v = M.userAt v := by
  obtain ⟨s0, s1, s2, -⟩ := slots_of_indices hv
  have d0 : descend M.entries M.root [] = some M.root := rfl
  have hread : ∀ e l, M.mem.read64 (slotOf e v l) = M.entries (e &&& ~~~0xFFF).toNat (levelIndex v l) := fun _ _ => rfl
  have hnot : ∀ {e : UInt64}, e &&& (PRESENT ||| USER) ≠ PRESENT ||| USER ↔
    (present e && PageTable.user e) = false := by
    intro e
    rw [ne_eq, and_present_user, ← Bool.and_eq_true, Bool.not_eq_true]
  unfold userPageMapped Machine.userAt accessible indices
  simp only [any_walk_cons, hread, hnot, and_present_user, and_huge]
  rw [if_neg (UInt64.not_le.mpr hv), show (M.cr3 &&& ~~~0xFFF).toNat = M.root from rfl]
  -- each level either ends both walks or leads to the same table
  cases h0 : present (M.entries M.root (levelIndex v 0)) && PageTable.user (M.entries M.root (levelIndex v 0)) with
  | false => rfl
  | true =>
  have hp0 := (Bool.and_eq_true _ _ ▸ h0).1
  have hh0 := hP.wf.top s0
  have d1 := hP.descend_through s0 (by decide) d0 hp0 hh0
  rw [hP.target_eq s0 (by decide) d0 hp0 hh0, hh0]
  generalize (M.entries M.root (levelIndex v 0) &&& ~~~0xFFF).toNat = t1 at d1 ⊢
  cases h1 : present (M.entries t1 (levelIndex v 1)) && PageTable.user (M.entries t1 (levelIndex v 1)) with
  | false => rfl
  | true =>
  have hp1 := (Bool.and_eq_true _ _ ▸ h1).1
  cases hh1 : huge (M.entries t1 (levelIndex v 1)) with
  | true => rfl
  | false =>
  have d2 := hP.descend_through s1 (by simp) d1 hp1 hh1
  rw [hP.target_eq s1 (by simp) d1 hp1 hh1]
  generalize (M.entries t1 (levelIndex v 1) &&& ~~~0xFFF).toNat = t2 at d2 ⊢
  cases h2 : present (M.entries t2 (levelIndex v 2)) && PageTable.user (M.entries t2 (levelIndex v 2)) with
  | false => rfl
  | true =>
  have hp2 := (Bool.and_eq_true _ _ ▸ h2).1
  cases hh2 : huge (M.entries t2 (levelIndex v 2)) with
  | true => rfl
  | false =>
  rw [hP.target_eq s2 (by simp) d2 hp2 hh2]
  simp [Bool.decide_and]

/-- Runs of map and unmap calls from `M₀`, with the pages mapped and not since unmapped. -/
inductive UserRun (M₀ : Machine) : Machine → (Nat → Prop) → Prop
  | start : UserRun M₀ M₀ fun _ => False
  | map {M M' S virt phys} (h : UserRun M₀ M S) (ha : UserArgs virt phys)
      (hr : mapUserPage virt phys M = (some (), M')) : UserRun M₀ M' fun n => S n ∨ n = virt.toNat / 4096
  | fail {M M' S virt phys} (h : UserRun M₀ M S) (ha : UserArgs virt phys)
      (hr : mapUserPage virt phys M = (none, M')) : UserRun M₀ M' S
  | unmap {M M' S r virt} (h : UserRun M₀ M S) (hv : virt < userTop) (hal : virt.toNat % 4096 = 0)
      (hr : unmapUserPage virt M = (r, M')) : UserRun M₀ M' fun n => S n ∧ n ≠ virt.toNat / 4096

section Law

variable {X : List Nat → Prop}

theorem Evolves.pageAt (h : Evolves X M M') (hw : w < userTop) (hn : ¬X (indices w)) : M'.pageAt w = M.pageAt w := by
  unfold Machine.pageAt
  rw [h.root]
  exact h.pages _ (pagePath_indices hw) hn

theorem Evolves.userAt (h : Evolves X M M') (hu : UserClosed M.entries M.root) (hw : w < userTop)
    (hn : ¬X (indices w)) : M'.userAt w = M.userAt w := by
  unfold Machine.userAt
  rw [h.root]
  exact (h.user hu).2 _ (pagePath_indices hw) hn

theorem Evolves.userClosed (h : Evolves X M M') (hu : UserClosed M.entries M.root) :
    UserClosed M'.entries M'.root := by
  rw [h.root]
  exact (h.user hu).1

end Law

theorem mapUserPage_some (hP : Paged M) (ha : UserArgs virt phys) (hr : mapUserPage virt phys M = (some (), M')) :
    Evolves (· = indices virt) M M' ∧ walk M'.entries M'.root (indices virt) = some ⟨userEntry phys, [], true⟩ := by
  obtain ⟨r, M₁, hrun, -, hpost⟩ := mapUserPage_spec hP ha
  rw [hrun] at hr
  cases hr
  obtain ⟨hev, hw⟩ := hpost rfl
  rw [hev.root]
  exact ⟨hev, hw⟩

theorem mapUserPage_none (hP : Paged M) (ha : UserArgs virt phys) (hr : mapUserPage virt phys M = (none, M')) :
    Grown M M' := by
  obtain ⟨r, M₁, hrun, hpost, -⟩ := mapUserPage_spec hP ha
  rw [hrun] at hr
  cases hr
  exact hpost rfl

/-- What a run keeps: good tables, and user access exactly to the pages in `S`. -/
structure UserInv (M : Machine) (S : Nat → Prop) : Prop where
  paged : Paged M
  closed : UserClosed M.entries M.root
  exact_pages : ∀ w, w < userTop → (M.userAt w = true ↔ S (w.toNat / 4096))

theorem userRun_inv {M₀ : Machine} {S : Nat → Prop} (hP : Paged M₀) (hu : UserClosed M₀.entries M₀.root)
    (h0 : ∀ w, w < userTop → M₀.userAt w = false) (h : UserRun M₀ M S) : UserInv M S := by
  -- on the run: the pages of the user are exactly those of `S`
  induction h with
  | start => exact ⟨hP, hu, fun w hw => by simp [h0 w hw]⟩
  | @map M M' S virt phys _ ha hr ih =>
    obtain ⟨hev, hwalk⟩ := mapUserPage_some ih.paged ha hr
    refine ⟨hev.paged, hev.userClosed ih.closed, fun w hw => ?_⟩
    by_cases he : w.toNat / 4096 = virt.toNat / 4096
    · have hi : indices w = indices virt := (indices_eq_iff hw ha.virt_lt).mpr he
      unfold Machine.userAt accessible
      rw [hi, hwalk]
      exact ⟨fun _ => Or.inr he, fun _ => rfl⟩
    · rw [hev.userAt ih.closed hw (mt (indices_eq_iff hw ha.virt_lt).mp he), ih.exact_pages w hw]
      exact ⟨Or.inl, fun h => h.resolve_right he⟩
  | @fail M M' S virt phys _ ha hr ih =>
    have hg := mapUserPage_none ih.paged ha hr
    refine ⟨hg.paged, hg.userClosed ih.closed, fun w hw => ?_⟩
    rw [hg.userAt ih.closed hw id, ih.exact_pages w hw]
  | @unmap M M' S r virt _ hv hal hr ih =>
    rcases unmapUserPage_spec ih.paged ih.closed hv hal with ⟨hrun, hno⟩ | ⟨M₁, pte, hrun, -, hev, -, hnone⟩
    · rw [hrun] at hr
      cases hr
      refine ⟨ih.paged, ih.closed, fun w hw => ?_⟩
      rw [ih.exact_pages w hw]
      refine ⟨fun hS => ⟨hS, fun he => ?_⟩, fun h => h.1⟩
      have hacc := (ih.exact_pages w hw).mpr hS
      rw [Machine.userAt, (indices_eq_iff hw hv).mpr he, hno] at hacc
      cases hacc
    · rw [hrun] at hr
      cases hr
      refine ⟨hev.paged, hev.userClosed ih.closed, fun w hw => ?_⟩
      by_cases he : w.toNat / 4096 = virt.toNat / 4096
      · have hi : indices w = indices virt := (indices_eq_iff hw hv).mpr he
        unfold Machine.userAt accessible
        rw [hi, hev.root, hnone]
        exact ⟨nofun, fun h => absurd he h.2⟩
      · rw [hev.userAt ih.closed hw (mt (indices_eq_iff hw hv).mp he), ih.exact_pages w hw]
        exact ⟨fun h => ⟨h, he⟩, fun h => h.1⟩

/-- User mapping frame law: a successful call maps its page and no other, a failed one
changes nothing that a walk can see, and over runs the user-accessible pages are those
mapped and not since unmapped. -/
theorem user_mapping_frame_law (M : Machine) (hP : Paged M) (hu : UserClosed M.entries M.root) :
    (∀ virt phys M', UserArgs virt phys → mapUserPage virt phys M = (some (), M') →
      (∃ l, walk M'.entries M'.root (indices virt) = some l ∧ l.rest = [] ∧ l.page * 4096 = phys.toNat ∧
        l.user = true) ∧
      ∀ w, w < userTop → w.toNat / 4096 ≠ virt.toNat / 4096 →
        M'.pageAt w = M.pageAt w ∧ M'.userAt w = M.userAt w) ∧
    (∀ virt phys M', UserArgs virt phys → mapUserPage virt phys M = (none, M') →
      ∀ w, w < userTop → M'.pageAt w = M.pageAt w ∧ M'.userAt w = M.userAt w) ∧
    ((∀ w, w < userTop → M.userAt w = false) → ∀ M' S, UserRun M M' S →
      ∀ w, w < userTop → (M'.userAt w = true ↔ S (w.toNat / 4096))) := by
  refine ⟨fun virt phys M' ha hr => ⟨?_, fun w hw hne => ?_⟩, fun virt phys M' ha hr w hw => ?_,
    fun h0 M' S hrun => (userRun_inv hP hu h0 hrun).exact_pages⟩
  · obtain ⟨-, hwalk⟩ := mapUserPage_some hP ha hr
    refine ⟨_, hwalk, rfl, ?_, rfl⟩
    have hlt : phys.toNat < 0x40000000 := UInt64.lt_iff_toNat_lt.mp ha.phys_lt
    have hal := ha.phys_aligned
    have hf := (userEntry_flags hal).2.2.2
    unfold Leaf.page
    dsimp only
    rw [hf]
    simp only [frameNumber, offset, List.length_nil, List.foldl_nil]
    omega
  · obtain ⟨hev, -⟩ := mapUserPage_some hP ha hr
    have hn := mt (indices_eq_iff hw ha.virt_lt).mp hne
    exact ⟨hev.pageAt hw hn, hev.userAt hu hw hn⟩
  · have hg := mapUserPage_none hP ha hr
    exact ⟨hg.pageAt hw id, hg.userAt hu hw id⟩

def Machine.blank (frames : Frames) : Machine := ⟨fun _ => 0, 0x1000, frames⟩

theorem blank_tables (frames : Frames) (h : frames.bitIsUsed 1 = true) :
    Paged (Machine.blank frames) ∧ UserClosed (Machine.blank frames).entries (Machine.blank frames).root ∧
      (∀ t, (Machine.blank frames).HasTable t → t = 0x1000) ∧
      ∀ v, (Machine.blank frames).userAt v = false := by
  have hroot : (Machine.blank frames).root = 0x1000 := by
    show ((0x1000 : UInt64) &&& ~~~0xFFF).toNat = 0x1000
    decide
  have hzero : ∀ t i, (Machine.blank frames).entries t i = 0 := fun t i => Memory.read64_zero (t + 8 * i)
  -- memory is zero, so no path leaves the root
  have hnil : ∀ {p t}, descend (Machine.blank frames).entries 0x1000 p = some t → p = [] ∧ t = 0x1000 := by
    intro p t hd
    cases p with
    | nil =>
      cases hd
      exact ⟨rfl, rfl⟩
    | cons i p =>
      rw [descend, hzero] at hd
      cases hd
  rw [hroot]
  refine ⟨⟨?_, fun t ht => ?_⟩, ⟨fun _ _ _ hh => ?_, fun _ _ _ hp => ?_⟩, fun t ht => ?_, fun v => ?_⟩
  · rw [hroot]
    exact
    { root_aligned := rfl
      root_low := by decide
      tree := fun _ _ hp hq => (hnil hp).1.trans (hnil hq).1.symm
      absent := fun _ _ _ _ => hzero _ _
      low := fun _ _ _ hl => by
        rw [hzero] at hl
        cases hl
      top := fun _ => by
        rw [hzero]
        rfl }
  · obtain ⟨p, -, hd⟩ := ht
    rw [hroot] at hd
    rw [(hnil hd).2]
    exact h
  · rw [hzero] at hh
    cases hh
  · rw [hzero] at hp
    cases hp
  · obtain ⟨p, -, hd⟩ := ht
    rw [hroot] at hd
    exact (hnil hd).2
  · rw [Machine.userAt, hroot]
    exact inaccessible_of_absent (p := []) rfl (by rw [hzero]; rfl)

theorem user_mapping_first : ∃ M', mapUserPage 0x100000000 0x9000
      (Machine.blank (Boot.limine [⟨0x2000, 0x8000, 0⟩]).frames) = (some (), M') ∧
    M'.pageAt 0x100000000 = some 9 ∧ M'.userAt 0x100000000 = true ∧ M'.userAt 0x100001000 = false := by
  have hok : (mapUserPage 0x100000000 0x9000
      (Machine.blank (Boot.limine [⟨0x2000, 0x8000, 0⟩]).frames)).1 = some () := by decide +kernel
  obtain ⟨hP, hu, -, hno⟩ := blank_tables (Boot.limine [⟨0x2000, 0x8000, 0⟩]).frames (by decide +kernel)
  have hrun : mapUserPage 0x100000000 0x9000 (Machine.blank (Boot.limine [⟨0x2000, 0x8000, 0⟩]).frames) =
      (some (), _) := Prod.ext hok rfl
  have ha : UserArgs 0x100000000 0x9000 := ⟨by decide, by decide, by decide, by decide⟩
  obtain ⟨hone, -, hall⟩ := user_mapping_frame_law _ hP hu
  obtain ⟨⟨l, hw, -, hpage, hl⟩, hkeep⟩ := hone _ _ _ ha hrun
  refine ⟨_, hrun, ?_, ?_, ?_⟩
  · have hnine : l.page = 9 := Nat.eq_of_mul_eq_mul_right (m := 4096) (by decide) hpage
    rw [Machine.pageAt, pageOf, hw, Option.map_some, hnine]
  · rw [Machine.userAt, accessible, hw, Option.any_some, hl]
  · rw [(hkeep 0x100001000 (by decide) (by decide)).2, hno]

end Pippin.Mm
