import Pippin.Kernel.Syscall

/-! The check of user pointers against the page tables as they are: `user_range_mapped`
accepts a range iff the walk of every byte's page is open to the application at each level. -/

namespace Pippin.Syscall
open Mem Mm Elf PageTable

variable {M : Machine} {v ptr len lastPage : UInt64}

/-- The loop of `user_range_mapped`; `none` stands for one that has not ended yet. -/
def pagesLoop (m : Machine) (lastPage : UInt64) : Nat → UInt64 → Option Bool
  | 0, _ => none
  | rounds + 1, page =>
    if !userPageMapped m page then some false
    else if page = lastPage then some true
    else
      match checkedAdd page pageSize with
      | none => some false
      | some next => pagesLoop m lastPage rounds next

def rangeLoop (m : Machine) (ptr len : UInt64) (rounds : Nat) : Option Bool :=
  if len = 0 then some true
  else
    match checkedAdd ptr (len - 1) with
    | none => some false
    | some last => pagesLoop m (alignDown last) rounds (alignDown ptr)

/-- The entry the walk of `v` meets at a level, tables being found by the address field. -/
def walkEntry (m : Machine) (v : UInt64) : Nat → UInt64
  | 0 => m.mem.read64 (slotOf m.cr3 v 0)
  | level + 1 => m.mem.read64 (slotOf (walkEntry m v level) v (level + 1))

/-- The walk ends at a 4 KiB entry, or at a huge page of one of the two middle levels. -/
def IsLeaf (m : Machine) (v : UInt64) (level : Nat) : Prop :=
  level = 3 ∨ 1 ≤ level ∧ huge (walkEntry m v level) = true

def openEntry (e : UInt64) : Bool := present e && user e

/-- The walk of `v` is open at every level down to its leaf. -/
def UserWalk (m : Machine) (v : UInt64) : Prop :=
  ∃ leaf ≤ 3, IsLeaf m v leaf ∧ (∀ level < leaf, ¬IsLeaf m v level) ∧
    ∀ level ≤ leaf, openEntry (walkEntry m v level) = true

theorem openEntry_iff {e : UInt64} : openEntry e = true ↔ e &&& (PRESENT ||| USER) = PRESENT ||| USER := by
  rw [openEntry, Bool.and_eq_true, and_present_user]

theorem not_leaf_zero : ¬IsLeaf M v 0 := by
  rintro (h | ⟨h, -⟩)
  · exact absurd h (by decide)
  · exact absurd h (by decide)

def WalkFrom (m : Machine) (v : UInt64) (level : Nat) : Prop :=
  ∃ leaf ≤ 3, level ≤ leaf ∧ IsLeaf m v leaf ∧ (∀ l, level ≤ l → l < leaf → ¬IsLeaf m v l) ∧
    ∀ l, level ≤ l → l ≤ leaf → openEntry (walkEntry m v l) = true

theorem userWalk_iff : UserWalk M v ↔ WalkFrom M v 0 := by
  simp only [UserWalk, WalkFrom, Nat.zero_le, true_and, forall_const]

theorem walkFrom_iff {level : Nat} (h : level ≤ 3) : WalkFrom M v level ↔
    openEntry (walkEntry M v level) = true ∧ (IsLeaf M v level ∨ WalkFrom M v (level + 1)) := by
  constructor
  · rintro ⟨leaf, hle, hge, hleaf, hno, hopen⟩
    refine ⟨hopen level le_rfl hge, ?_⟩
    rcases hge.eq_or_lt with rfl | hlt
    · exact Or.inl hleaf
    · exact Or.inr ⟨leaf, hle, hlt, hleaf, fun l h1 => hno l (by omega), fun l h1 => hopen l (by omega)⟩
  · rintro ⟨ho, hrest⟩
    by_cases hleaf : IsLeaf M v level
    · refine ⟨level, h, le_rfl, hleaf, fun l h1 h2 => absurd h2 (Nat.not_lt.mpr h1), fun l h1 h2 => ?_⟩
      rwa [h2.antisymm h1]
    · obtain ⟨leaf, hle, hge, hl, hno, hopen⟩ := hrest.resolve_left hleaf
      refine ⟨leaf, hle, Nat.le_of_succ_le hge, hl, fun l h1 h2 => ?_, fun l h1 h2 => ?_⟩
      · rcases h1.eq_or_lt with rfl | hlt
        · exact hleaf
        · exact hno l hlt h2
      · rcases h1.eq_or_lt with rfl | hlt
        · exact ho
        · exact hopen l hlt h2

theorem userPageMapped_iff : userPageMapped M v = true ↔ v < userTop ∧ UserWalk M v := by
  by_cases hv : v ≥ userTop
  · unfold userPageMapped
    rw [if_pos hv]
    exact ⟨fun h => (nomatch h), fun h => absurd h.1 (UInt64.not_lt.mpr hv)⟩
  have hlt : v < userTop := UInt64.not_le.mp hv
  have hclosed : ∀ {e : UInt64}, e &&& (PRESENT ||| USER) ≠ PRESENT ||| USER ↔ ¬openEntry e = true :=
    fun {_} => not_congr openEntry_iff.symm
  have hrun : userPageMapped M v =
      if ¬openEntry (walkEntry M v 0) = true then false
      else if ¬openEntry (walkEntry M v 1) = true then false
      else if huge (walkEntry M v 1) then true
      else if ¬openEntry (walkEntry M v 2) = true then false
      else if huge (walkEntry M v 2) then true
      else openEntry (walkEntry M v 3) := by
    unfold userPageMapped
    rw [if_neg hv]
    simp only [hclosed, and_huge, ← openEntry_iff, Bool.decide_eq_true]
    rfl
  have hmiddle : ∀ level, level = 1 ∨ level = 2 → (IsLeaf M v level ↔ huge (walkEntry M v level) = true) := by
    rintro level (rfl | rfl)
    · exact ⟨fun hl => hl.elim nofun And.right, fun hh => Or.inr ⟨le_rfl, hh⟩⟩
    · exact ⟨fun hl => hl.elim nofun And.right, fun hh => Or.inr ⟨by decide, hh⟩⟩
  have hlast : IsLeaf M v 3 := Or.inl rfl
  rw [hrun, and_iff_right hlt, userWalk_iff, walkFrom_iff (by decide), walkFrom_iff (by decide),
    walkFrom_iff (by decide), walkFrom_iff (by decide), or_iff_right not_leaf_zero, hmiddle 1 (Or.inl rfl),
    hmiddle 2 (Or.inr rfl), and_iff_left (Or.inl hlast)]
  cases openEntry (walkEntry M v 0) with
  | false => simp
  | true =>
    cases openEntry (walkEntry M v 1) with
    | false => simp
    | true =>
      cases huge (walkEntry M v 1) with
      | true => simp
      | false => cases openEntry (walkEntry M v 2) <;> cases huge (walkEntry M v 2) <;> simp

theorem pagesLoop_succ (rounds : Nat) (page : UInt64) : pagesLoop M lastPage (rounds + 1) page =
    if !userPageMapped M page then some false
    else if page = lastPage then some true
    else
      match checkedAdd page pageSize with
      | none => some false
      | some next => pagesLoop M lastPage rounds next := by rfl

theorem pagesLoop_spec (hlast : lastPage.toNat % 4096 = 0) (rounds : Nat) :
    ∀ {page : UInt64}, page.toNat % 4096 = 0 → page.toNat ≤ lastPage.toNat →
      lastPage.toNat < page.toNat + 4096 * rounds →
      ∃ b, pagesLoop M lastPage rounds page = some b ∧ userPagesMapped M lastPage rounds page = b ∧
        (b = true ↔ ∀ v : UInt64, v.toNat % 4096 = 0 → page.toNat ≤ v.toNat → v.toNat ≤ lastPage.toNat →
          userPageMapped M v = true) := by
  induction rounds with
  | zero =>
    intro page _ h1 h2
    omega
  | succ rounds ih =>
    intro page hpage h1 h2
    rw [pagesLoop_succ, userPagesMapped]
    cases hm : userPageMapped M page with
    | false =>
      refine ⟨false, rfl, rfl, fun h => absurd h Bool.false_ne_true, fun h => ?_⟩
      rw [← hm]
      exact h page hpage le_rfl h1
    | true =>
      rw [Bool.not_true, if_neg Bool.false_ne_true, if_neg Bool.false_ne_true]
      by_cases he : page = lastPage
      · rw [if_pos he, if_pos he]
        refine ⟨true, rfl, rfl, fun _ v hv h3 h4 => ?_, fun _ => rfl⟩
        rw [he] at h3
        rw [UInt64.toNat_inj.mp (h4.antisymm h3), ← he]
        exact hm
      · have hne : page.toNat ≠ lastPage.toNat := fun hc => he (UInt64.toNat_inj.mp hc)
        obtain ⟨hnext, hnat⟩ := next_page hpage hlast (by omega)
        rw [if_neg he, if_neg he, hnext]
        obtain ⟨b, hloop, hplain, hiff⟩ := @ih (page + pageSize) (by omega) (by omega) (by omega)
        refine ⟨b, hloop, hplain, hiff.trans ⟨fun h v hv h3 h4 => ?_, fun h v hv h3 h4 => h v hv (by omega) h4⟩⟩
        by_cases hvp : v.toNat = page.toNat
        · rw [UInt64.toNat_inj.mp hvp]
          exact hm
        · exact h v hv (by omega) h4

theorem toNat_page {a : Nat} (ha : a < 2 ^ 64) : (UInt64.ofNat (a / 4096 * 4096)).toNat = a / 4096 * 4096 := by
  rw [UInt64.toNat_ofNat', Nat.mod_eq_of_lt (by omega)]

theorem pages_iff_bytes {P : UInt64 → Prop} {lo n : Nat} (hn : 0 < n) (htop : lo + n ≤ 2 ^ 64) :
    (∀ v : UInt64, v.toNat % 4096 = 0 → lo / 4096 * 4096 ≤ v.toNat → v.toNat ≤ (lo + (n - 1)) / 4096 * 4096 → P v) ↔
      ∀ a, lo ≤ a → a < lo + n → P (UInt64.ofNat (a / 4096 * 4096)) := by
  constructor
  · intro h a h1 h2
    have ha := toNat_page (a := a) (by omega)
    exact h _ (by omega) (by omega) (by omega)
  · intro h v hv h1 h2
    have hbyte : max lo v.toNat / 4096 * 4096 = v.toNat := by omega
    have hp := h (max lo v.toNat) (by omega) (by omega)
    rwa [hbyte, UInt64.ofNat_toNat] at hp

/-- The byte at `a` may be touched by the application: its page lies below the top of user
space and its walk is open. -/
def UserByte (m : Machine) (a : Nat) : Prop :=
  a / 4096 * 4096 < 2 ^ 47 ∧ UserWalk m (UInt64.ofNat (a / 4096 * 4096))

theorem userByte_iff (hP : Paged M) {a : Nat} (ha : a < 2 ^ 64) :
    UserByte M a ↔ UInt64.ofNat a < userTop ∧ M.userAt (UInt64.ofNat a) = true := by
  have hto : (UInt64.ofNat a).toNat = a := by rw [UInt64.toNat_ofNat', Nat.mod_eq_of_lt ha]
  have hpage := toNat_page ha
  have htop : userTop.toNat = 2 ^ 47 := by decide
  have hlt : a / 4096 * 4096 < 2 ^ 47 ↔ UInt64.ofNat a < userTop := by
    rw [UInt64.lt_iff_toNat_lt, hto, htop]
    omega
  rw [UserByte, hlt]
  refine and_congr_right fun hv => ?_
  have hv' : UInt64.ofNat (a / 4096 * 4096) < userTop := by
    rw [UInt64.lt_iff_toNat_lt, htop] at hv ⊢
    omega
  have hmapped : UserWalk M (UInt64.ofNat (a / 4096 * 4096)) ↔
      userPageMapped M (UInt64.ofNat (a / 4096 * 4096)) = true := by
    rw [userPageMapped_iff, and_iff_right hv']
  rw [hmapped, userPageMapped_eq hP hv', Machine.userAt, Machine.userAt, (indices_eq_iff hv' hv).mpr (by omega)]

theorem userPageMapped_byte {a : Nat} (ha : a < 2 ^ 64) :
    userPageMapped M (UInt64.ofNat (a / 4096 * 4096)) = true ↔ UserByte M a := by
  have htop : userTop.toNat = 2 ^ 47 := by decide
  rw [userPageMapped_iff, UserByte, UInt64.lt_iff_toNat_lt, toNat_page ha, htop]

section Range

variable (hlen : len ≠ 0)

include hlen

theorem toNat_len_sub : 1 ≤ len.toNat ∧ (len - 1).toNat = len.toNat - 1 := by
  have hpos : 1 ≤ len.toNat := Nat.pos_of_ne_zero fun h0 => hlen (UInt64.toNat_inj.mp h0)
  exact ⟨hpos, UInt64.toNat_sub_of_le _ _ (UInt64.le_iff_toNat_le.mpr hpos)⟩

theorem range_wraps (hsum : ¬ptr.toNat + (len.toNat - 1) < 2 ^ 64) (rounds : Nat) :
    rangeLoop M ptr len rounds = some false ∧ userRangeMapped M ptr len = false := by
  rw [← (toNat_len_sub hlen).2] at hsum
  rw [rangeLoop, userRangeMapped, if_neg hlen, if_neg hlen, checkedAdd, if_neg hsum]
  exact ⟨rfl, rfl⟩

theorem range_pages (hsum : ptr.toNat + (len.toNat - 1) < 2 ^ 64) {rounds : Nat}
    (hrounds : len.toNat / 4096 + 2 ≤ rounds) :
    rangeLoop M ptr len rounds = some (userRangeMapped M ptr len) ∧
      (userRangeMapped M ptr len = true ↔ ∀ v : UInt64, v.toNat % 4096 = 0 → ptr.toNat / 4096 * 4096 ≤ v.toNat →
        v.toNat ≤ (ptr.toNat + (len.toNat - 1)) / 4096 * 4096 → userPageMapped M v = true) := by
  obtain ⟨hpos, hlen1⟩ := toNat_len_sub hlen
  obtain ⟨hadd, hnat⟩ := toNat_checkedAdd (a := ptr) (b := len - 1) (by omega)
  have hfirst : (alignDown ptr).toNat = ptr.toNat / 4096 * 4096 := toNat_mask _
  have hlast : (alignDown (ptr + (len - 1))).toNat = (ptr.toNat + (len.toNat - 1)) / 4096 * 4096 := by
    rw [← hlen1, ← hnat]
    exact toNat_mask _
  obtain ⟨b, hloop, -, hiff⟩ := @pagesLoop_spec M (alignDown (ptr + (len - 1))) (by omega)
    rounds (alignDown ptr) (by omega) (by omega) (by omega)
  obtain ⟨b', -, hplain, hiff'⟩ := @pagesLoop_spec M (alignDown (ptr + (len - 1))) (by omega)
    ((alignDown (ptr + (len - 1))).toNat / 4096 - (alignDown ptr).toNat / 4096 + 1)
    (alignDown ptr) (by omega) (by omega) (by omega)
  have hb : b' = b := Bool.eq_iff_iff.mpr (hiff'.trans hiff.symm)
  rw [rangeLoop, userRangeMapped, if_neg hlen, if_neg hlen, hadd, Option.any_some, hplain, hb, ← hfirst, ← hlast]
  exact ⟨hloop, hiff⟩

end Range

/-- User pointer check: over any page table the loop ends within the pages of the range,
and the range is accepted iff it is empty, or does not wrap and each byte is a user byte. -/
theorem user_range_mapped_iff (M : Machine) (ptr len : UInt64) :
    (∀ rounds, len.toNat / 4096 + 2 ≤ rounds → rangeLoop M ptr len rounds = some (userRangeMapped M ptr len)) ∧
    (userRangeMapped M ptr len = true ↔ len = 0 ∨ ptr.toNat + (len.toNat - 1) < 2 ^ 64 ∧
      ∀ a, ptr.toNat ≤ a → a < ptr.toNat + len.toNat → UserByte M a) ∧
    (Paged M → ∀ a < 2 ^ 64, UserByte M a ↔ UInt64.ofNat a < userTop ∧ M.userAt (UInt64.ofNat a) = true) := by
  refine ⟨fun rounds hrounds => ?_, ?_, fun hP a ha => userByte_iff hP ha⟩
  · by_cases hlen : len = 0
    · rw [rangeLoop, userRangeMapped, if_pos hlen, if_pos hlen]
    by_cases hsum : ptr.toNat + (len.toNat - 1) < 2 ^ 64
    · exact (range_pages hlen hsum hrounds).1
    · rw [(range_wraps hlen hsum rounds).1, (range_wraps hlen hsum rounds).2]
  · by_cases hlen : len = 0
    · rw [userRangeMapped, if_pos hlen]
      exact ⟨fun _ => Or.inl hlen, fun _ => rfl⟩
    rw [or_iff_right hlen]
    by_cases hsum : ptr.toNat + (len.toNat - 1) < 2 ^ 64
    · have hpos := (toNat_len_sub hlen).1
      rw [and_iff_right hsum, (range_pages hlen hsum le_rfl).2,
        pages_iff_bytes (P := fun v => userPageMapped M v = true) hpos (by omega)]
      exact forall_congr' fun a => forall_congr' fun _ => forall_congr' fun h2 => userPageMapped_byte (by omega)
    · rw [(range_wraps hlen hsum 0).2]
      exact ⟨fun h => absurd h Bool.false_ne_true, fun h => absurd h.1 hsum⟩

end Pippin.Syscall
