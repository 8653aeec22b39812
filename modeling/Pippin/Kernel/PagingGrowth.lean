import Pippin.Lib.PageTableEdit
import Pippin.Kernel.FrameInvariant
import Pippin.Kernel.Paging

/-! Growth of the page tables: the steps that allocate and link tables, open links to
user access or split large pages change no translation and no access right. -/

namespace Pippin.Mm
open Mem PageTable

def entriesOf (mem : Memory) : Entries := fun t i => mem.read64 (t + 8 * i)

namespace Machine

def entries (M : Machine) : Entries := entriesOf M.mem

def root (M : Machine) : Nat := (M.cr3 &&& ~~~0xFFF).toNat

def HasTable (M : Machine) (t : Nat) : Prop := ∃ p, TablePath p ∧ descend M.entries M.root p = some t

end Machine

/-- Well-formed tables whose frames the allocator holds as used. -/
structure Paged (M : Machine) : Prop where
  wf : WellFormed M.entries M.root
  used : ∀ t, M.HasTable t → M.frames.bitIsUsed (t / 4096) = true

variable {M M' M'' : Machine} {p : List Nat} {i t : Nat}

theorem Paged.aligned (hP : Paged M) (ht : M.HasTable t) : t % 4096 = 0 ∧ t < 2 ^ 30 := by
  obtain ⟨p, hp, hd⟩ := ht
  exact hP.wf.table_aligned hp hd

theorem Paged.edit (hP : Paged M) (hs : Slot p i) (hd : descend M.entries M.root p = some t) {mem : Memory}
    (hout : ∀ a, M.HasTable (a / 4096 * 4096) → ¬(t + 8 * i ≤ a ∧ a < t + 8 * i + 8) → mem a = M.mem a) :
    Edit M.entries (entriesOf mem) M.root p i t := by
  refine ⟨hs, hd, fun q u j hq hX hu => ?_⟩
  have hta := (hP.wf.table_aligned hs.tablePath hd).1
  have hua := (hP.wf.table_aligned hq.tablePath hu).1
  have hi := hs.lt
  have hj := hq.lt
  have hne : u ≠ t ∨ j ≠ i := by
    by_contra hc
    simp only [not_or, not_not] at hc
    obtain ⟨rfl, rfl⟩ := hc
    exact hX ⟨hP.wf.tree hq.tablePath hs.tablePath hu hd, rfl⟩
  refine Memory.read64_congr fun k hk => hout _ ?_ ?_
  · have he : (u + 8 * j + k) / 4096 * 4096 = u := by omega
    rw [he]
    exact ⟨q, hq.tablePath, hu⟩
  · omega

/-- `M'` is `M` after work on the page tables that keeps every translation and access
right but those of the pages in `X`. -/
structure Evolves (X : List Nat → Prop) (M M' : Machine) : Prop where
  paged : Paged M'
  cr3 : M'.cr3 = M.cr3
  pages : ∀ q, PagePath q → ¬X q → pageOf M'.entries M.root q = pageOf M.entries M.root q
  leaves : ∀ q l, PagePath q → ¬X q → walk M.entries M.root q = some l → l.rest = [] → l.user = true →
    walk M'.entries M.root q = some l
  tables : ∀ p t, TablePath p → descend M.entries M.root p = some t → descend M'.entries M.root p = some t
  fresh : ∀ t, M'.HasTable t → M.HasTable t ∨ 0 < t ∧ M.frames.bitIsUsed (t / 4096) = false
  used : ∀ f, M'.frames.bitIsUsed f = true ↔ M.frames.bitIsUsed f = true ∨ M'.HasTable (f * 4096)
  mem : ∀ a, ¬M'.HasTable (a / 4096 * 4096) → M'.mem a = M.mem a
  rights : ∀ p, TablePath p → userPath M.entries M.root p = true → userPath M'.entries M.root p = true
  user : UserClosed M.entries M.root → UserClosed M'.entries M.root ∧
    ∀ q, PagePath q → ¬X q → accessible M'.entries M.root q = accessible M.entries M.root q
  counted : M.frames.Counted → M'.frames.Counted

abbrev Grown (M M' : Machine) : Prop := Evolves (fun _ => False) M M'

section Evolves

variable {X Y : List Nat → Prop}

theorem Evolves.root (h : Evolves X M M') : M'.root = M.root := by
  unfold Machine.root
  rw [h.cr3]

theorem Evolves.hasTable (h : Evolves X M M') (ht : M.HasTable t) : M'.HasTable t := by
  obtain ⟨p, hp, hd⟩ := ht
  refine ⟨p, hp, ?_⟩
  rw [h.root]
  exact h.tables p t hp hd

theorem Paged.used_table (hP : Paged M) (f : Nat) :
    M.frames.bitIsUsed f = true ↔ M.frames.bitIsUsed f = true ∨ M.HasTable (f * 4096) := by
  refine ⟨Or.inl, fun h => h.elim (fun h => h) fun h => ?_⟩
  have hu := hP.used _ h
  rwa [Nat.mul_div_cancel _ (by decide)] at hu

theorem Paged.grown (hP : Paged M) : Grown M M where
  paged := hP
  cr3 := rfl
  pages := fun _ _ _ => rfl
  leaves := fun _ _ _ _ hw _ _ => hw
  tables := fun _ _ _ h => h
  fresh := fun _ h => Or.inl h
  used := hP.used_table
  mem := fun _ _ => rfl
  rights := fun _ _ h => h
  user := fun h => ⟨h, fun _ _ _ => rfl⟩
  counted := fun h => h

theorem Evolves.mono (h : Evolves X M M') (hXY : ∀ q, X q → Y q) : Evolves Y M M' :=
  { h with
    pages := fun q hq hn => h.pages q hq fun hX => hn (hXY q hX)
    leaves := fun q l hq hn => h.leaves q l hq fun hX => hn (hXY q hX)
    user := fun hu => ⟨(h.user hu).1, fun q hq hn => (h.user hu).2 q hq fun hX => hn (hXY q hX)⟩ }

theorem Grown.evolves (h : Grown M M') : Evolves X M M' := Evolves.mono h fun _ => False.elim

theorem Evolves.trans (h : Evolves X M M') (h' : Evolves X M' M'') : Evolves X M M'' where
  paged := h'.paged
  cr3 := h'.cr3.trans h.cr3
  pages := fun q hq hn => (h.root ▸ h'.pages q hq hn).trans (h.pages q hq hn)
  leaves := fun q l hq hn hw hr hu => h.root ▸ h'.leaves q l hq hn (h.root.symm ▸ h.leaves q l hq hn hw hr hu) hr hu
  tables := fun p t hp hd => h.root ▸ h'.tables p t hp (h.root.symm ▸ h.tables p t hp hd)
  fresh := fun t ht => by
    rcases h'.fresh t ht with h1 | h1
    · exact h.fresh t h1
    · refine Or.inr ⟨h1.1, ?_⟩
      cases hb : M.frames.bitIsUsed (t / 4096) with
      | false => rfl
      | true => exact absurd ((h.used _).mpr (Or.inl hb)) (by rw [h1.2]; exact Bool.false_ne_true)
  used := fun f => by
    rw [h'.used, h.used]
    constructor
    · rintro ((h1 | h1) | h1)
      · exact Or.inl h1
      · exact Or.inr (h'.hasTable h1)
      · exact Or.inr h1
    · rintro (h1 | h1)
      · exact Or.inl (Or.inl h1)
      · exact Or.inr h1
  mem := fun a ha => (h'.mem a ha).trans (h.mem a fun ht => ha (h'.hasTable ht))
  rights := fun p hp hu => h.root ▸ h'.rights p hp (h.root.symm ▸ h.rights p hp hu)
  user := fun hu => by
    obtain ⟨h1, h2⟩ := h.user hu
    obtain ⟨h3, h4⟩ := h'.user (h.root.symm ▸ h1)
    exact ⟨h.root ▸ h3, fun q hq hn => (h.root ▸ h4 q hq hn).trans (h2 q hq hn)⟩
  counted := fun hc => h'.counted (h.counted hc)

end Evolves

/-- A machine with the same tables; the other memory and the allocator are its own. -/
structure SameTables (M M' : Machine) : Prop where
  cr3 : M'.cr3 = M.cr3
  mem : ∀ a, M.HasTable (a / 4096 * 4096) → M'.mem a = M.mem a
  used : ∀ t, M.HasTable t → M'.frames.bitIsUsed (t / 4096) = true

theorem SameTables.root_eq (h : SameTables M M') : M'.root = M.root := by
  unfold Machine.root
  rw [h.cr3]

section Same

variable (hP : Paged M) (h : SameTables M M')

include hP h

theorem SameTables.entries_eq (ht : M.HasTable t) (hi : i < 512) : M'.entries t i = M.entries t i := by
  have hal := (hP.aligned ht).1
  refine Memory.read64_congr fun k hk => h.mem _ ?_
  have he : (t + 8 * i + k) / 4096 * 4096 = t := by omega
  rw [he]
  exact ht

theorem SameTables.agree : Agree (fun _ _ => False) M.entries M'.entries M'.root := by
  intro p t i hs _ hd
  rw [h.root_eq] at hd
  exact h.entries_eq hP ⟨p, hs.tablePath, hd⟩ hs.lt

theorem SameTables.descend_eq (hp : TablePath p) : descend M'.entries M'.root p = descend M.entries M.root p := by
  rw [((h.agree hP).same hp.lower (Nat.le_succ_of_le hp.length)).1, h.root_eq]

theorem SameTables.walk_eq {q : List Nat} (hq : PagePath q) :
    walk M'.entries M'.root q = walk M.entries M.root q := by
  rw [((h.agree hP).same hq.lower hq.length.le).2.1, h.root_eq]

theorem SameTables.hasTable (t : Nat) : M'.HasTable t ↔ M.HasTable t :=
  exists_congr fun p => and_congr_right fun hp => by rw [h.descend_eq hP hp]

theorem SameTables.paged : Paged M' where
  wf := (h.agree hP).wellFormed (h.root_eq ▸ hP.wf)
  used := fun t ht => h.used t ((h.hasTable hP t).mp ht)

theorem SameTables.userClosed (hu : UserClosed M.entries M.root) : UserClosed M'.entries M'.root :=
  (h.agree hP).userClosed (h.root_eq ▸ hu)

end Same

theorem Paged.table_of_slot (hP : Paged M) (hs : Slot p i) (hd : descend M.entries M.root p = some t) {a : Nat}
    (ha : t + 8 * i ≤ a ∧ a < t + 8 * i + 8) : M.HasTable (a / 4096 * 4096) := by
  have hta := (hP.wf.table_aligned hs.tablePath hd).1
  have hi := hs.lt
  have he : a / 4096 * 4096 = t := by omega
  rw [he]
  exact ⟨p, hs.tablePath, hd⟩

theorem Paged.fresh_frame (hP : Paged M) {phys : UInt64} {frames : Frames}
    (ha : M.frames.allocFrames 1 = some (phys, frames)) :
    phys.toNat % 4096 = 0 ∧ 0 < phys.toNat ∧ phys.toNat < 2 ^ 30 ∧ ¬M.HasTable phys.toNat ∧
      M.frames.bitIsUsed (phys.toNat / 4096) = false ∧
      ∀ f, frames.bitIsUsed f = true ↔ M.frames.bitIsUsed f = true ∨ f * 4096 = phys.toNat := by
  obtain ⟨f, hphys, h1, -, hmax, hclear, hbits, -⟩ := Frames.allocFrames_spec ha
  simp only [frameSize, maxFrames, bootMappedEnd] at hphys hmax
  have hdiv : phys.toNat / 4096 = f := by omega
  have hfree : M.frames.bitIsUsed (phys.toNat / 4096) = false := by
    rw [hdiv]
    exact hclear f le_rfl (by omega)
  refine ⟨by omega, by omega, by omega, fun ht => ?_, hfree, fun g => ?_⟩
  · rw [hP.used _ ht] at hfree
    cases hfree
  · rw [hbits]
    split_ifs with hg
    · exact ⟨fun _ => Or.inr (by omega), fun _ => rfl⟩
    · exact ⟨Or.inl, fun h => h.elim (fun h => h) fun h => absurd h (by omega)⟩

theorem grown_link (hP : Paged M) (hs : Slot p i) (hlev : p.length < 3)
    (hd : descend M.entries M.root p = some t) (hold : isLink (M.entries t i) = false)
    {phys c : UInt64} {frames : Frames} (ha : M.frames.allocFrames 1 = some (phys, frames))
    (hc : c.toNat < 4096) (hcl : isLink c = true) {m : Memory}
    (hout : ∀ a, a / 4096 * 4096 ≠ phys.toNat → ¬(t + 8 * i ≤ a ∧ a < t + 8 * i + 8) → m a = M.mem a)
    (hslot : m.read64 (t + 8 * i) = phys ||| c)
    (hleaves : ∀ j < 512, PageTable.user (entriesOf m phys.toNat j) = false ∧ (p.length = 2 ∨
      entriesOf m phys.toNat j = 0 ∨
        present (entriesOf m phys.toNat j) = true ∧ huge (entriesOf m phys.toNat j) = true))
    (hpages : ∀ is, is.length + p.length = 3 → (∀ j ∈ is, j < 512) →
      (walk (entriesOf m) phys.toNat is).map Leaf.page = (walk M.entries t (i :: is)).map Leaf.page) :
    Grown M ⟨m, M.cr3, frames⟩ ∧ descend (entriesOf m) M.root (p ++ [i]) = some phys.toNat ∧
      (PageTable.user c = true → userPath (entriesOf m) M.root (p ++ [i]) = userPath M.entries M.root p) := by
  obtain ⟨hal, hpos, hlow, hnew, hfree, hbits⟩ := hP.fresh_frame ha
  have hflags := flags_or (c := c) hal
  have hnat : (phys ||| c).toNat = phys.toNat + c.toNat := Word.toNat_or_low (k := 12) hal hc
  have hl : isLink (phys ||| c) = true := by
    unfold isLink at hcl ⊢
    rw [hflags.1, hflags.2.2]
    exact hcl
  have hlow' : (phys ||| c).toNat < 2 ^ 30 := by omega
  have hpoint : target (phys ||| c) = phys.toNat := by
    rw [target_of_lt hlow']
    omega
  -- the general theory of a link added to a tree needs only that the old slot was no link and the frame was in
  -- no table
  have hlink : Link M.entries (entriesOf m) M.root p i t phys.toNat :=
    { toEdit := hP.edit hs hd fun a ht hn => hout a (fun he => hnew (he ▸ ht)) hn
      level := hlev
      old := hold
      links := by rw [entriesOf, hslot]; exact hl
      points := by rw [entriesOf, hslot]; exact hpoint
      low := by rw [entriesOf, hslot]; exact hlow'
      fresh := fun q u hq hu he => hnew (he ▸ ⟨q, hq, hu⟩)
      leaves := fun j hj => (hleaves j hj).2
      pages := hpages }
  have hk : ∀ j < 512, PageTable.user (entriesOf m phys.toNat j) = false := fun j hj => (hleaves j hj).1
  have hself : descend (entriesOf m) M.root (p ++ [i]) = some phys.toNat := by
    rw [hlink.descend_eq hlink.slot_path, if_pos rfl]
  have htab : ∀ u, (⟨m, M.cr3, frames⟩ : Machine).HasTable u ↔ M.HasTable u ∨ u = phys.toNat :=
    fun u => hlink.table_iff
  refine ⟨?_, hself, fun hu => hlink.userPath_eq ?_⟩
  · exact
    { paged :=
        { wf := hlink.wellFormed hP.wf
          used := fun u hu => by
            rw [hbits]
            rcases (htab u).mp hu with h | rfl
            · exact Or.inl (hP.used u h)
            · exact Or.inr (by omega) }
      cr3 := rfl
      pages := fun q hq _ => hlink.pageOf_eq hq
      leaves := fun q l hq _ hw hr _ => hlink.walk_small hq hw hr
      tables := fun q u hq hu => hlink.descend_kept hq hu
      fresh := fun u hu => by
        rcases (htab u).mp hu with h | rfl
        · exact Or.inl h
        · exact Or.inr ⟨hpos, hfree⟩
      used := fun f => by
        rw [hbits]
        constructor
        · rintro (h | h)
          · exact Or.inl h
          · exact Or.inr ((htab _).mpr (Or.inr h))
        · rintro (h | h)
          · exact Or.inl h
          · rcases (htab _).mp h with h | h
            · exact Or.inl ((hP.used_table f).mpr (Or.inr h))
            · exact Or.inr h
      mem := fun a hn => by
        exact hout a (fun he => hn ((htab _).mpr (Or.inr he))) fun hin =>
          hn ((htab _).mpr (Or.inl (hP.table_of_slot hs hd hin)))
      rights := fun q hq hu => by
        -- below the new link nothing was accessible before, elsewhere nothing has changed
        by_cases hb : p ++ [i] <+: q
        · obtain ⟨is, rfl⟩ := below_cases hb
          rw [userPath_append hd, userPath, hold, Bool.false_and, Bool.false_and, Bool.and_false] at hu
          cases hu
        · show userPath (entriesOf m) M.root q = true
          rw [(hlink.apart hq.lower (by have := hq.length; omega) hb).2.2]
          exact hu
      user := fun hu => ⟨hlink.userClosed hu hk, fun q hq _ => hlink.accessible_eq hu hk hq⟩
      counted := fun hcnt => hcnt.alloc ha }
  · rw [entriesOf, hslot, hflags.2.1]
    exact hu

theorem or_user_entry {e : UInt64} (hl : isLink e = true) (hlow : e.toNat < 2 ^ 30) :
    isLink (e ||| USER) = true ∧ target (e ||| USER) = target e ∧ (e ||| USER).toNat < 2 ^ 30 ∧
      PageTable.user (e ||| USER) = true := by
  have hbit : ∀ k, (e ||| USER).toNat.testBit k = (e.toNat.testBit k || decide (2 = k)) :=
    Word.testBit_or_bit (k := 2) (by decide)
  rw [isLink_iff, present_eq, huge_eq] at hl
  refine ⟨?_, ?_, ?_, ?_⟩
  · rw [isLink_iff, present_eq, huge_eq, hbit, hbit, hl.1, hl.2]
    exact ⟨rfl, rfl⟩
  · rw [target, target, frameNumber_or (by decide)]
  · rw [UInt64.toNat_or]
    exact Nat.or_lt_two_pow hlow (by decide)
  · rw [user_eq, hbit, decide_eq_true rfl, Bool.or_true]

theorem grown_mark (hP : Paged M) (hs : Slot p i) (hlev : p.length < 3)
    (hd : descend M.entries M.root p = some t) (hl : isLink (M.entries t i) = true) {mem : Memory}
    (hmem : mem = M.mem.write64 (t + 8 * i) (M.entries t i ||| USER)) :
    Grown M { M with mem } ∧ descend (entriesOf mem) M.root (p ++ [i]) = some (target (M.entries t i)) ∧
      userPath (entriesOf mem) M.root (p ++ [i]) = userPath M.entries M.root p := by
  have he : entriesOf mem t i = M.entries t i ||| USER := by
    rw [hmem, entriesOf, Memory.read64_write64_self]
  obtain ⟨h1, h2, h3, h4⟩ := or_user_entry hl (hP.wf.low hs hlev hd hl)
  have hout : ∀ a, ¬(t + 8 * i ≤ a ∧ a < t + 8 * i + 8) → mem a = M.mem a := fun a hn => by
    rw [hmem]
    exact Memory.write64_outside (by omega)
  -- the link gets the user bit and keeps its target
  have hmark : Mark M.entries (entriesOf mem) M.root p i t :=
    { toEdit := hP.edit hs hd fun a _ hn => hout a hn
      level := hlev
      links := hl
      links' := by rw [he]; exact h1
      points := by rw [he]; exact h2
      low := by rw [he]; exact h3
      marked := by rw [he]; exact h4 }
  have htab : ∀ u, (⟨mem, M.cr3, M.frames⟩ : Machine).HasTable u ↔ M.HasTable u := fun u =>
    exists_congr fun q => and_congr_right fun hq => by
      show descend (entriesOf mem) M.root q = some u ↔ _
      rw [hmark.descend_eq hq]
  refine ⟨?_, ?_, hmark.userPath_eq⟩
  · exact
    { paged :=
        { wf := hmark.wellFormed hP.wf
          used := fun u hu => hP.used u ((htab u).mp hu) }
      cr3 := rfl
      pages := fun q hq _ => hmark.pageOf_eq hq
      leaves := fun q l hq _ hw _ hu => hmark.walk_user hq hw hu
      tables := fun q u hq hu => (hmark.descend_eq hq).trans hu
      fresh := fun u hu => Or.inl ((htab u).mp hu)
      used := fun f => by
        rw [htab]
        exact hP.used_table f
      mem := fun a hn => hout a fun hin => hn ((htab _).mpr (hP.table_of_slot hs hd hin))
      rights := fun q hq hu => hmark.userPath_mono hq hu
      user := fun hu => ⟨hmark.userClosed hu, fun q hq _ => hmark.accessible_eq hu hq⟩
      counted := fun hc => hc }
  · rw [hmark.descend_eq ⟨hs.1, by rw [List.length_append, List.length_singleton]; omega⟩,
      descend_snoc hd, if_pos hl]

theorem evolves_setPage (hP : Paged M) (hs : Slot p i) (hlev : p.length = 3)
    (hd : descend M.entries M.root p = some t) {e : UInt64}
    (hk : PageTable.user e = true → userPath M.entries M.root p = true) {mem : Memory}
    (hmem : mem = M.mem.write64 (t + 8 * i) e) :
    Evolves (· = p ++ [i]) M { M with mem } ∧
      (present e = true → walk (entriesOf mem) M.root (p ++ [i]) = some ⟨e, [], PageTable.user e⟩) ∧
      (present e = false → walk (entriesOf mem) M.root (p ++ [i]) = none) := by
  have he : entriesOf mem t i = e := by rw [hmem, entriesOf, Memory.read64_write64_self]
  have hout : ∀ a, ¬(t + 8 * i ≤ a ∧ a < t + 8 * i + 8) → mem a = M.mem a := fun a hn => by
    rw [hmem]
    exact Memory.write64_outside (by omega)
  have hedit : Edit M.entries (entriesOf mem) M.root p i t := hP.edit hs hd fun a _ hn => hout a hn
  have htab : ∀ u, (⟨mem, M.cr3, M.frames⟩ : Machine).HasTable u ↔ M.HasTable u := fun u =>
    exists_congr fun q => and_congr_right fun hq => by
      show descend (entriesOf mem) M.root q = some u ↔ _
      rw [(hedit.descend_of_page hlev hq).1]
  refine ⟨?_, fun hpr => ?_, fun hpr => hedit.walk_at_absent (he.symm ▸ hpr)⟩
  · exact
    { paged :=
        { wf := hedit.wellFormed_of_page hlev hP.wf
          used := fun u hu => hP.used u ((htab u).mp hu) }
      cr3 := rfl
      pages := fun q hq hn => congrArg (Option.map Leaf.page) (hedit.walk_of_page hlev hq hn)
      leaves := fun q l hq hn hw _ _ => (hedit.walk_of_page hlev hq hn).trans hw
      tables := fun q u hq hu => ((hedit.descend_of_page hlev hq).1).trans hu
      fresh := fun u hu => Or.inl ((htab u).mp hu)
      used := fun f => by
        rw [htab]
        exact hP.used_table f
      mem := fun a hn => hout a fun hin => hn ((htab _).mpr (hP.table_of_slot hs hd hin))
      rights := fun q hq hu => ((hedit.descend_of_page hlev hq).2).trans hu
      user := fun hu => ⟨hedit.userClosed_of_page hlev hu (he.symm ▸ hk), fun q hq hn =>
        congrArg (Option.any Leaf.user) (hedit.walk_of_page hlev hq hn)⟩
      counted := fun hc => hc }
  · rw [hedit.walk_at_page (he.symm ▸ hpr), he]
    cases hu : PageTable.user e with
    | false => rw [Bool.and_false]
    | true => rw [hk hu, Bool.and_true]

/-! ## The steps of the source -/

namespace Kernel

variable {α β : Type}

theorem bind_some {x : Kernel α} {f : α → Kernel β} {a : α} (h : x M = (some a, M')) :
    (x >>= f) M = f a M' := by
  simp only [bind, h]

theorem bind_none {x : Kernel α} {f : α → Kernel β} (h : x M = (none, M')) : (x >>= f) M = (none, M') := by
  simp only [bind, h]

end Kernel

theorem allocZeroedFrame_cases (M : Machine) : allocZeroedFrame M = (none, M) ∧ M.frames.allocFrames 1 = none ∨
    ∃ phys frames, M.frames.allocFrames 1 = some (phys, frames) ∧
      allocZeroedFrame M = (some phys, ⟨M.mem.write phys.toNat (List.replicate frameSize 0), M.cr3, frames⟩) := by
  unfold allocZeroedFrame
  cases ha : M.frames.allocFrames 1 with
  | none => exact Or.inl ⟨rfl, rfl⟩
  | some r => exact Or.inr ⟨r.1, r.2, rfl, rfl⟩

theorem zeroed_link_entries {phys v : UInt64} (hal : phys.toNat % 4096 = 0) {s : Nat}
    (hs : s + 8 ≤ phys.toNat ∨ phys.toNat + 4096 ≤ s) {mem : Memory}
    (hmem : mem = (M.mem.write phys.toNat (List.replicate frameSize 0)).write64 s v) :
    (∀ a, a / 4096 * 4096 ≠ phys.toNat → ¬(s ≤ a ∧ a < s + 8) → mem a = M.mem a) ∧
      mem.read64 s = v ∧ ∀ j < 512, entriesOf mem phys.toNat j = 0 := by
  refine ⟨fun a ha hn => ?_, ?_, fun j hj => ?_⟩
  · rw [hmem, Memory.write64_outside (by omega), Memory.write_outside]
    rw [List.length_replicate, frameSize]
    omega
  · rw [hmem, Memory.read64_write64_self]
  · rw [hmem, entriesOf, Memory.read64_write64_disjoint (by omega), Memory.read64_zeroed]
    rw [frameSize]
    omega

theorem walk_zero_table {E : Entries} {f : Nat} (h : ∀ j < 512, E f j = 0) {is : List Nat}
    (hr : ∀ j ∈ is, j < 512) : walk E f is = none := by
  cases is with
  | nil => rfl
  | cons j is => rw [walk_cons_absent (by rw [h j (hr j List.mem_cons_self)]; rfl)]

theorem and_present {e : UInt64} : e &&& PRESENT = 0 ↔ present e = false := by
  unfold present PRESENT
  rw [bne_eq_false_iff_eq]

theorem and_huge {e : UInt64} : e &&& HUGE ≠ 0 ↔ huge e = true := by
  unfold huge HUGE
  rw [bne_iff_ne]

theorem toNat_mask (e : UInt64) : (e &&& ~~~0xFFF).toNat = e.toNat / 4096 * 4096 :=
  Word.toNat_and_not (a := 0x1000) (k := 12) (by decide)

theorem Paged.follow (hP : Paged M) (hs : Slot p i) (hlev : p.length < 3)
    (hd : descend M.entries M.root p = some t) {t' : Nat}
    (hd' : descend M.entries M.root (p ++ [i]) = some t') :
    (M.mem.read64 (t + 8 * i) &&& ~~~0xFFF).toNat = t' := by
  rw [descend_snoc hd] at hd'
  split_ifs at hd' with hl
  have ht := target_of_lt (hP.wf.low hs hlev hd hl)
  rw [Option.some.inj hd'] at ht
  rw [ht]
  exact toNat_mask _

theorem Paged.slot_apart (hP : Paged M) (hs : Slot p i) (hd : descend M.entries M.root p = some t) {f : Nat}
    (hf : f % 4096 = 0) (hn : ¬M.HasTable f) : t + 8 * i + 8 ≤ f ∨ f + 4096 ≤ t + 8 * i := by
  have hta := (hP.wf.table_aligned hs.tablePath hd).1
  have hi := hs.lt
  have hne : t ≠ f := fun he => hn (he ▸ ⟨p, hs.tablePath, hd⟩)
  omega

theorem fill_entries (mem : Memory) (f n : Nat) (v : Nat → UInt64) :
    (∀ j < n, entriesOf ((List.range n).foldl (fun mem j => mem.write64 (f + 8 * j) (v j)) mem) f j = v j) ∧
      ∀ a, a < f ∨ f + 8 * n ≤ a → (List.range n).foldl (fun mem j => mem.write64 (f + 8 * j) (v j)) mem a = mem a := by
  induction n with
  | zero => exact ⟨nofun, fun _ _ => rfl⟩
  | succ n ih =>
    obtain ⟨h1, h2⟩ := ih
    rw [List.range_succ, List.foldl_append]
    refine ⟨fun j hj => ?_, fun a ha => ?_⟩
    · show Memory.read64 _ _ = v j
      by_cases he : j = n
      · subst he
        exact Memory.read64_write64_self _
      · exact (Memory.read64_write64_disjoint (by omega)).trans (h1 j (by omega))
    · exact (Memory.write64_outside (by omega)).trans (h2 a (by omega))

/-- The parameters of the two large page sizes, by the level of the entry. -/
inductive Split : Nat → UInt64 → UInt64 → UInt64 → Prop
  | gib : Split 1 (Word.bit 30) (Word.bit 21) (PRESENT ||| WRITABLE ||| HUGE)
  | mib : Split 2 (Word.bit 21) (Word.bit 12) (PRESENT ||| WRITABLE)

section Split

variable {level : Nat} {size step flags : UInt64} (h : Split level size step flags) {j : Nat} (hj : j < 512)

include h hj

theorem Split.part_toNat (old : UInt64) : ((old &&& ~~~(size - 1)) + UInt64.ofNat j * step).toNat =
    old.toNat / size.toNat * size.toNat + j * step.toNat ∧ step.toNat * 512 = size.toNat ∧
      size.toNat ≤ 2 ^ 30 ∧ step.toNat % 4096 = 0 := by
  have hold := old.toNat_lt
  have hj' : (UInt64.ofNat j).toNat = j := by
    rw [UInt64.toNat_ofNat']
    omega
  cases h with
  | gib =>
    have h1 : (Word.bit 30).toNat = 2 ^ 30 := Word.toNat_bit (by decide)
    have h2 : (Word.bit 21).toNat = 2 ^ 21 := Word.toNat_bit (by decide)
    rw [UInt64.toNat_add, UInt64.toNat_mul, Word.toNat_and_not h1, hj', h1, h2]
    omega
  | mib =>
    have h1 : (Word.bit 21).toNat = 2 ^ 21 := Word.toNat_bit (by decide)
    have h2 : (Word.bit 12).toNat = 2 ^ 12 := Word.toNat_bit (by decide)
    rw [UInt64.toNat_add, UInt64.toNat_mul, Word.toNat_and_not h1, hj', h1, h2]
    omega

theorem Split.part_entry {old e : UInt64} (he : e = ((old &&& ~~~(size - 1)) + UInt64.ofNat j * step) ||| flags) :
    present e = true ∧ PageTable.user e = false ∧ huge e = decide (level = 1) := by
  obtain ⟨hsum, hstep, -, hal⟩ := h.part_toNat hj old
  have hmod : ((old &&& ~~~(size - 1)) + UInt64.ofNat j * step).toNat % 4096 = 0 := by
    obtain ⟨m, hm⟩ := Nat.dvd_of_mod_eq_zero hal
    have hfac : old.toNat / size.toNat * size.toNat + j * step.toNat =
        4096 * (old.toNat / size.toNat * (m * 512) + j * m) := by
      rw [← hstep, hm]
      ring
    rw [hsum, hfac, Nat.mul_mod_right]
  obtain ⟨h1, h2, h3⟩ := flags_or (c := flags) hmod
  rw [he, h1, h2, h3]
  cases h <;> decide

theorem Split.part_page {old e : UInt64} (he : e = ((old &&& ~~~(size - 1)) + UInt64.ofNat j * step) ||| flags)
    {is : List Nat} (hlen : is.length + 1 + level = 3) (b b' : Bool) :
    (⟨e, is, b⟩ : Leaf).page = (⟨old, j :: is, b'⟩ : Leaf).page := by
  have hsum := (h.part_toNat hj old).1
  have hold := old.toNat_lt
  have hf : frameNumber e = frameNumber ((old &&& ~~~(size - 1)) + UInt64.ofNat j * step) := by
    rw [he]
    refine frameNumber_or ?_
    cases h <;> decide
  unfold Leaf.page
  dsimp only
  rw [hf]
  unfold frameNumber
  rw [hsum]
  cases h with
  | gib =>
    obtain ⟨k, rfl⟩ := List.length_eq_one_iff.mp (show is.length = 1 by omega)
    have h1 : (Word.bit 30).toNat = 2 ^ 30 := Word.toNat_bit (by decide)
    have h2 : (Word.bit 21).toNat = 2 ^ 21 := Word.toNat_bit (by decide)
    simp only [h1, h2, offset, List.length_cons, List.length_nil, List.foldl_cons, List.foldl_nil]
    omega
  | mib =>
    obtain rfl := List.length_eq_zero_iff.mp (show is.length = 0 by omega)
    have h1 : (Word.bit 21).toNat = 2 ^ 21 := Word.toNat_bit (by decide)
    have h2 : (Word.bit 12).toNat = 2 ^ 12 := Word.toNat_bit (by decide)
    simp only [h1, h2, offset, List.length_cons, List.length_nil, List.foldl_cons, List.foldl_nil]
    omega

end Split

section Steps

variable (hP : Paged M) (hs : Slot p i) (hlev : p.length < 3) (hd : descend M.entries M.root p = some t)

include hP hs hlev hd

theorem link_zeroed (habs : present (M.entries t i) = false) {phys c : UInt64} {frames : Frames}
    (ha : M.frames.allocFrames 1 = some (phys, frames)) (hc : c.toNat < 4096) (hcl : isLink c = true)
    {mem : Memory}
    (hmem : mem = (M.mem.write phys.toNat (List.replicate frameSize 0)).write64 (t + 8 * i) (phys ||| c)) :
    Grown M ⟨mem, M.cr3, frames⟩ ∧ descend (entriesOf mem) M.root (p ++ [i]) = some phys.toNat ∧
      (PageTable.user c = true → userPath (entriesOf mem) M.root (p ++ [i]) = userPath M.entries M.root p) := by
  obtain ⟨hal, -, -, hnew, -, -⟩ := hP.fresh_frame ha
  obtain ⟨hout, hslot, hzero⟩ := zeroed_link_entries hal (hP.slot_apart hs hd hal hnew) hmem
  have hold : isLink (M.entries t i) = false := by rw [isLink, habs, Bool.false_and]
  refine grown_link hP hs hlev hd hold ha hc hcl hout hslot (fun j hj => ?_) fun is _ hr => ?_
  · rw [hzero j hj]
    exact ⟨rfl, Or.inr (Or.inl rfl)⟩
  · rw [walk_zero_table hzero hr, walk_cons_absent habs]

theorem linkTable_spec (hh : huge (M.entries t i) = false) :
    ∃ r M', linkTable (t + 8 * i) M = (r, M') ∧ Grown M M' ∧ (r = some () →
      ∃ t', descend M'.entries M.root (p ++ [i]) = some t' ∧
        userPath M'.entries M.root (p ++ [i]) = userPath M.entries M.root p) := by
  have hload : Kernel.load (t + 8 * i) M = (some (M.entries t i), M) := rfl
  unfold linkTable
  rw [Kernel.bind_some hload]
  by_cases habs : present (M.entries t i) = false
  · rw [if_pos (and_present.mpr habs)]
    rcases allocZeroedFrame_cases M with ⟨h, -⟩ | ⟨phys, frames, ha, h⟩
    · rw [Kernel.bind_none h]
      exact ⟨none, M, rfl, hP.grown, fun hsome => by cases hsome⟩
    · rw [Kernel.bind_some h]
      have hassoc : phys ||| PRESENT ||| WRITABLE ||| USER = phys ||| (PRESENT ||| WRITABLE ||| USER) := by
        rw [UInt64.or_assoc, UInt64.or_assoc, UInt64.or_assoc]
      obtain ⟨hg, hself, hup⟩ := link_zeroed hP hs hlev hd habs ha
        (c := PRESENT ||| WRITABLE ||| USER) (by decide) (by decide) rfl
      rw [hassoc]
      exact ⟨_, _, rfl, hg, fun _ => ⟨_, hself, hup (by decide)⟩⟩
  · rw [if_neg (mt and_present.mp habs), Kernel.bind_some hload]
    rw [Bool.not_eq_false] at habs
    obtain ⟨hg, hself, hup⟩ := grown_mark hP hs hlev hd (isLink_iff.mpr ⟨habs, hh⟩) rfl
    exact ⟨_, _, rfl, hg, fun _ => ⟨_, hself, hup⟩⟩

theorem followTable_spec (hh : huge (M.entries t i) = false) (hnz : ∀ u, M.HasTable u → u ≠ 0) :
    ∃ r M', followTable (t + 8 * i) M = (r, M') ∧ Grown M M' ∧ (∀ u, M'.HasTable u → u ≠ 0) ∧
      ∀ table, r = some table → descend M'.entries M.root (p ++ [i]) = some table.toNat ∧
        (present (M.entries t i) = true ∧ M' = M ∨ ∀ j < 512, M'.entries table.toNat j = 0) := by
  have hload : Kernel.load (t + 8 * i) M = (some (M.entries t i), M) := rfl
  unfold followTable
  rw [Kernel.bind_some hload]
  by_cases habs : present (M.entries t i) = false
  · have h0 : M.entries t i &&& ~~~0xFFF = 0 := by
      rw [hP.wf.absent hs hlev hd habs]
      rfl
    rw [if_pos h0]
    rcases allocZeroedFrame_cases M with ⟨h, -⟩ | ⟨phys, frames, ha, h⟩
    · rw [Kernel.bind_none h]
      exact ⟨none, M, rfl, hP.grown, hnz, nofun⟩
    · rw [Kernel.bind_some h]
      obtain ⟨hg, hself, -⟩ := link_zeroed hP hs hlev hd habs ha
        (c := PRESENT ||| WRITABLE) (by decide) (by decide) rfl
      rw [UInt64.or_assoc]
      refine ⟨_, _, rfl, hg, fun u hu => ?_, fun table htab => ?_⟩
      · rcases hg.fresh u hu with h | h
        · exact hnz u h
        · exact Nat.pos_iff_ne_zero.mp h.1
      · cases htab
        obtain ⟨hal, -, -, hnew, -, -⟩ := hP.fresh_frame ha
        exact ⟨hself, Or.inr (zeroed_link_entries hal (hP.slot_apart hs hd hal hnew) rfl).2.2⟩
  · rw [Bool.not_eq_false] at habs
    have hl := isLink_iff.mpr ⟨habs, hh⟩
    have hself : descend M.entries M.root (p ++ [i]) = some (target (M.entries t i)) := by
      rw [descend_snoc hd, if_pos hl]
    have hptr := hP.follow hs hlev hd hself
    -- a table at address zero would look like an absent one
    have hne : M.entries t i &&& ~~~0xFFF ≠ 0 := by
      intro h0
      refine hnz _ ⟨p ++ [i], ⟨hs.1, ?_⟩, hself⟩ ?_
      · rw [List.length_append, List.length_singleton]
        omega
      · rw [← hptr]
        exact congrArg UInt64.toNat h0
    rw [if_neg hne]
    refine ⟨_, _, rfl, hP.grown, hnz, fun table htab => ?_⟩
    cases htab
    rw [hself]
    exact ⟨congrArg some hptr.symm, Or.inl ⟨habs, rfl⟩⟩

theorem splitHuge_spec {size step flags : UInt64} (hsp : Split p.length size step flags) :
    ∃ r M', splitHuge (t + 8 * i) size step flags M = (r, M') ∧ Grown M M' ∧
      (r = some () → huge (M'.entries t i) = false) := by
  have hload : Kernel.load (t + 8 * i) M = (some (M.entries t i), M) := rfl
  unfold splitHuge
  rw [Kernel.bind_some hload]
  by_cases hh : huge (M.entries t i) = true
  · rw [if_pos (and_huge.mpr hh)]
    have hpr := hP.wf.present_of_huge hs hlev hd hh
    have hold : isLink (M.entries t i) = false := by rw [isLink, hh, Bool.not_true, Bool.and_false]
    -- only running out of frames makes the split fail, and then nothing is written
    rcases allocZeroedFrame_cases M with ⟨h, -⟩ | ⟨phys, frames, ha, h⟩
    · rw [Kernel.bind_none h]
      exact ⟨none, M, rfl, hP.grown, fun hsome => by cases hsome⟩
    · rw [Kernel.bind_some h]
      obtain ⟨hal, -, -, hnew, -, -⟩ := hP.fresh_frame ha
      have hapart := hP.slot_apart hs hd hal hnew
      have hassoc : phys ||| PRESENT ||| WRITABLE ||| USER = phys ||| (PRESENT ||| WRITABLE ||| USER) := by
        rw [UInt64.or_assoc, UInt64.or_assoc, UInt64.or_assoc]
      -- the part of the huge page that slot `j` of the new table stands for
      let v : Nat → UInt64 := fun j => ((M.entries t i &&& ~~~(size - 1)) + UInt64.ofNat j * step) ||| flags
      let zeroed := M.mem.write phys.toNat (List.replicate frameSize 0)
      obtain ⟨hfill, hkeep⟩ := fill_entries zeroed phys.toNat 512 v
      have hrun : ∃ filled, filled = (List.range 512).foldl
            (fun mem j => mem.write64 (phys.toNat + 8 * j) (v j)) zeroed ∧
          fillTable phys (M.entries t i &&& ~~~(size - 1)) step flags ⟨zeroed, M.cr3, frames⟩ =
            (some (), ⟨filled, M.cr3, frames⟩) := ⟨_, rfl, rfl⟩
      obtain ⟨filled, hfilled, hrun⟩ := hrun
      rw [← hfilled] at hfill hkeep
      rw [Kernel.bind_some hrun, hassoc]
      have hent : ∀ j < 512, entriesOf (filled.write64 (t + 8 * i) (phys ||| (PRESENT ||| WRITABLE ||| USER)))
          phys.toNat j = v j := fun j hj =>
        (Memory.read64_write64_disjoint (by omega)).trans (hfill j hj)
      have hgrown := grown_link hP hs hlev hd hold ha (c := PRESENT ||| WRITABLE ||| USER)
        (m := filled.write64 (t + 8 * i) (phys ||| (PRESENT ||| WRITABLE ||| USER))) (by decide) (by decide)
        (fun a hne hn => ?_) (Memory.read64_write64_self _) (fun j hj => ?_) fun is hlen hr => ?_
      -- a huge slot would end the walk there, but the new table is reached through it
      · obtain ⟨hg, hself, -⟩ := hgrown
        refine ⟨some (), _, rfl, hg, fun _ => ?_⟩
        have hsn := descend_snoc (i := i) (hg.tables p t hs.tablePath hd)
        by_contra hc
        rw [if_neg (fun hl => hc (isLink_iff.mp hl).2)] at hsn
        cases hself.symm.trans hsn
      · have hz : zeroed a = M.mem a := Memory.write_outside (by rw [List.length_replicate, frameSize]; omega)
        exact (Memory.write64_outside (by omega)).trans ((hkeep a (by omega)).trans hz)
      · obtain ⟨h1, h2, h3⟩ := hsp.part_entry hj (hent j hj)
        refine ⟨h2, ?_⟩
        by_cases hp2 : p.length = 2
        · exact Or.inl hp2
        · refine Or.inr (Or.inr ⟨h1, h3.trans (decide_eq_true ?_)⟩)
          cases hpl : p.length with
          | zero =>
            rw [hpl] at hsp
            cases hsp
          | succ n => omega
      · cases is with
        | nil =>
          rw [List.length_nil] at hlen
          omega
        | cons j is =>
          have hj := hr j List.mem_cons_self
          obtain ⟨h1, -, h3⟩ := hsp.part_entry hj (hent j hj)
          rw [List.length_cons] at hlen
          have hleaf : is = [] ∨ huge (entriesOf (filled.write64 (t + 8 * i)
              (phys ||| (PRESENT ||| WRITABLE ||| USER))) phys.toNat j) = true := by
            by_cases hp1 : p.length = 1
            · exact Or.inr (h3.trans (decide_eq_true hp1))
            · cases hpl : p.length with
              | zero =>
                rw [hpl] at hsp
                cases hsp
              | succ n => exact Or.inl (List.length_eq_zero_iff.mp (by omega))
          rw [walk_cons_leaf h1 hleaf, walk_cons_leaf hpr (Or.inr hh)]
          exact congrArg some (hsp.part_page hj (hent j hj) (by omega) _ _)
  · rw [if_neg (mt and_huge.mp hh)]
    exact ⟨_, _, rfl, hP.grown, fun _ => Bool.eq_false_iff.mpr hh⟩

end Steps

end Pippin.Mm
