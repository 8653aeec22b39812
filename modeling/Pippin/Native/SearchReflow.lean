import Pippin.Lib.Spread
import Pippin.Native.HitTest

/-! Live search lays out the results it shows anew: one row of equal controls over the span of
all results, with the gap that was between them. -/

namespace Pippin.Native
open Checked

/-! ## What matches -/

theorem asciiContains_iff {hay needle : List UInt8} : asciiContainsCaseInsensitive hay needle = true ↔
    needle.map asciiLower <:+: hay.map asciiLower := by
  unfold asciiContainsCaseInsensitive
  split
  · rename_i hempty
    rw [List.isEmpty_iff.mp hempty]
    exact iff_of_true rfl List.nil_infix
  · split
    · rename_i hlong
      refine iff_of_false Bool.false_ne_true fun h => ?_
      have hle := h.length_le
      rw [List.length_map, List.length_map] at hle
      omega
    · rename_i hshort
      rw [List.any_eq_true]
      refine ⟨fun h => ?_, fun h => ?_⟩
      · obtain ⟨start, -, heq⟩ := h
        rw [beq_iff_eq] at heq
        rw [← heq]
        exact ((List.take_prefix _ _).isInfix.trans (List.drop_suffix _ _).isInfix).map asciiLower
      · obtain ⟨before, after, heq⟩ := h
        have hlength : before.length + needle.length + after.length = hay.length := by
          have hlen := congrArg List.length heq
          simpa only [List.length_append, List.length_map] using hlen
        refine ⟨before.length, List.mem_range.mpr (by omega), ?_⟩
        rw [beq_iff_eq, List.map_take, List.map_drop, ← heq, List.append_assoc, List.drop_left,
          List.take_left' (List.length_map asciiLower)]

variable {w : Window} {r a b : Row} {gap : Int} {q : List UInt8} {i index k : Nat}

/-! ## The result rows -/

def Row.right (r : Row) : Int := r.x + r.width

def Row.result (r : Row) : Bool := !(r.structural || r.action.isEmpty)

def Window.results (w : Window) : List (Row × Nat) := w.rows.zipIdx.filter fun p => p.1.result

/-- Rows side by side from the left edge of `a` to the right edge of `b`, with one gap between
neighbours. -/
structure Group (rows : List (Row × Nat)) (gap : Int) (a b : Row) : Prop where
  nonneg : 0 ≤ gap
  width : ∀ p ∈ rows, 1 ≤ p.1.width
  beside : rows.IsChain fun p q => q.1.x = p.1.right + gap
  first : rows.head?.map Prod.fst = some a
  last : rows.getLast?.map Prod.fst = some b
  word : ∀ p ∈ rows, -2 ^ 31 ≤ p.1.x ∧ p.1.x < 2 ^ 31

/-- The results before the last one and the gaps behind them reach up to the last one. -/
theorem Group.reach {rows : List (Row × Nat)} (h : Group rows gap a b) :
    0 < rows.length ∧ 1 ≤ b.width ∧ (rows.length - 1 : Nat) * (1 + gap) ≤ b.x - a.x := by
  obtain ⟨hnonneg, hwidth, hbeside, hfirst, hlast, -⟩ := h
  have key : ∀ p : Row × Nat, ∀ l : List (Row × Nat), (p :: l).IsChain (fun p q => q.1.x = p.1.right + gap) →
      (∀ q ∈ p :: l, 1 ≤ q.1.width) → (l.length : Int) * (1 + gap) ≤ (l.getLastD p).1.x - p.1.x := by
    intro p l
    induction l generalizing p with
    | nil =>
      intro _ _
      rw [List.getLastD_nil, List.length_nil]
      omega
    | cons q l ih =>
      intro hchain hwidth
      obtain ⟨hbeside, hchain⟩ := List.isChain_cons_cons.mp hchain
      have hp := hwidth p List.mem_cons_self
      have hrest := ih q hchain fun r hr => hwidth r (List.mem_cons_of_mem p hr)
      have hmul : ((l.length + 1 : Nat) : Int) * (1 + gap) = l.length * (1 + gap) + (1 + gap) := by
        push_cast
        ring
      rw [List.getLastD_cons, List.length_cons, hmul]
      unfold Row.right at hbeside
      omega
  cases rows with
  | nil => cases hfirst
  | cons p l =>
    cases hfirst
    have hend := List.mem_of_getLast? (a := l.getLastD p) (l := p :: l)
      (by rw [List.getLast?_cons, ← List.getLastD_eq_getLast?])
    rw [List.getLast?_cons, ← List.getLastD_eq_getLast?] at hlast
    cases hlast
    exact ⟨Nat.succ_pos _, hwidth _ hend, key p l hbeside hwidth⟩

theorem Group.ends {rows : List (Row × Nat)} (h : Group rows gap a b) : -2 ^ 31 ≤ a.x ∧ b.x < 2 ^ 31 := by
  obtain ⟨p, hp, rfl⟩ := Option.map_eq_some_iff.mp h.first
  obtain ⟨p', hp', rfl⟩ := Option.map_eq_some_iff.mp h.last
  exact ⟨(h.word p (List.mem_of_head? hp)).1, (h.word p' (List.mem_of_getLast? hp')).2⟩

theorem Group.reach_of_le {rows : List (Row × Nat)} (h : Group rows gap a b) (hk : k ≤ rows.length - 1) :
    (k : Int) * (1 + gap) ≤ b.x - a.x := by
  have hnonneg := h.nonneg
  have hmul : (k : Int) * (1 + gap) ≤ (rows.length - 1 : Nat) * (1 + gap) :=
    Int.mul_le_mul_of_nonneg_right (by omega) (by omega)
  exact hmul.trans h.reach.2.2

theorem countP_lt_key {α : Type} {f : α → Nat} {l : List α} {a : α} (hl : l.Pairwise fun a b => f a < f b)
    (h : l[k]? = some a) : (l.countP fun b => decide (f b < f a)) = k := by
  induction l generalizing k with
  | nil => cases h
  | cons b l ih =>
    obtain ⟨hb, hl⟩ := List.pairwise_cons.mp hl
    rw [List.countP_cons]
    cases k with
    | zero =>
      cases h
      have hnone : (l.countP fun c => decide (f c < f a)) = 0 :=
        List.countP_eq_zero.mpr fun c hc => by simpa using Nat.le_of_lt (hb c hc)
      rw [hnone, decide_eq_false (Nat.lt_irrefl _)]
      rfl
    | succ k =>
      have hlt := hb a (List.mem_of_getElem? h)
      rw [ih hl h, decide_eq_true hlt]
      rfl

namespace Compositor

variable {s : Compositor}

def hits (s : Compositor) (w : Window) : List (Row × Nat) := w.results.filter fun p => s.rowMatchesSearch w p.1

def before (s : Compositor) (w : Window) (index : Nat) (p : Row × Nat) : Bool :=
  s.rowMatchesSearch w p.1 && decide (p.2 < index)

theorem reflow_skip {f : Reflow} {p : Row × Nat} (h : p.1.result = false) : Reflow.next s w index f p = .ok f := by
  unfold Reflow.next
  unfold Row.result at h
  rw [Bool.not_eq_false'] at h
  dsimp only
  rw [if_pos h]
  rfl

theorem reflow_results (f : Reflow) :
    w.rows.zipIdx.foldlM (Reflow.next s w index) f = w.results.foldlM (Reflow.next s w index) f := by
  unfold Window.results
  rw [List.foldlM_filter]
  congr 1
  funext f p
  split
  · rfl
  · rename_i h
    exact reflow_skip (Bool.not_eq_true _ ▸ h)

theorem reflow_beside {first before total : _} {prev : Int} {p : Row × Nat} {step : Int} (hp : p.1.result = true)
    (hprev : -2 ^ 31 ≤ prev) (hstep : p.1.x = prev + gap) (hg : 0 ≤ gap) (hgap : gap < 2 ^ 31) (hfirst : first ≤ p.1.x)
    (hwidth : 1 ≤ p.1.width) (hword : p.1.x < 2 ^ 31) :
    Reflow.next s w index ⟨first, saturate prev, step, before, total, some (saturate prev)⟩ p =
      .ok ⟨first, saturate p.1.right, gap, before + if s.before w index p then 1 else 0,
        total + if s.rowMatchesSearch w p.1 then 1 else 0, some (saturate p.1.right)⟩ := by
  unfold Row.result at hp
  rw [Bool.not_eq_true'] at hp
  -- only the last right edge can be out of range
  have hedge : saturate prev = prev := by
    unfold saturate
    omega
  have hdiff : i32 (p.1.x - prev) = .ok gap := by
    rw [hstep, i32_eq (by omega) (by omega)]
    exact congrArg Except.ok (by omega)
  have hmin : min first p.1.x = first := Int.min_eq_left hfirst
  have hmax : max prev (saturate p.1.right) = saturate p.1.right := by
    unfold Row.right saturate
    omega
  unfold Reflow.next Compositor.before
  dsimp only
  rw [hp, if_neg Bool.false_ne_true, hedge, hdiff]
  unfold Row.right at hmax ⊢
  simp only [ok_bind, hmin, hmax, Int.max_eq_left hg]
  refine congrArg Except.ok ?_
  cases s.rowMatchesSearch w p.1 <;> cases decide (p.2 < index) <;> rfl

theorem reflow_after {p : Row × Nat} {l : List (Row × Nat)} {first step : Int} {before total : Nat}
    (hl : ∀ q ∈ l, q.1.result = true ∧ 1 ≤ q.1.width ∧ q.1.x < 2 ^ 31) (hg : 0 ≤ gap)
    (hgap : l ≠ [] → gap < 2 ^ 31) (hlow : -2 ^ 31 ≤ first) (hfirst : first ≤ p.1.right)
    (hchain : (p :: l).IsChain fun p q => q.1.x = p.1.right + gap) :
    l.foldlM (Reflow.next s w index) ⟨first, saturate p.1.right, step, before, total, some (saturate p.1.right)⟩ =
      .ok ⟨first, saturate (l.getLastD p).1.right, if l.isEmpty then step else gap,
        before + l.countP (s.before w index), total + l.countP (fun p => s.rowMatchesSearch w p.1),
        some (saturate (l.getLastD p).1.right)⟩ := by
  induction l generalizing p step before total with
  | nil => rfl
  | cons q l ih =>
    obtain ⟨hresult, hwidth, hword⟩ := hl q List.mem_cons_self
    obtain ⟨hbeside, hchain⟩ := List.isChain_cons_cons.mp hchain
    have hgap := hgap (List.cons_ne_nil q l)
    have hright : first ≤ q.1.right := by
      unfold Row.right at hbeside hfirst ⊢
      omega
    rw [List.foldlM_cons, reflow_beside hresult (by omega) hbeside hg hgap (by omega) hwidth hword, ok_bind,
      ih (fun r hr => hl r (List.mem_cons_of_mem q hr)) (fun _ => hgap) hright hchain, List.getLastD_cons,
      List.countP_cons, List.countP_cons]
    congr 2
    · cases l <;> rfl
    · omega
    · omega

theorem reflow_first {p : Row × Nat} (hp : p.1.result = true) (hword : -2 ^ 31 ≤ p.1.x ∧ p.1.x < 2 ^ 31) :
    Reflow.next s w index .start p =
      .ok ⟨p.1.x, saturate p.1.right, 12, 0 + if s.before w index p then 1 else 0,
        0 + if s.rowMatchesSearch w p.1 then 1 else 0, some (saturate p.1.right)⟩ := by
  unfold Row.result at hp
  rw [Bool.not_eq_true'] at hp
  have hmin : min (2 ^ 31 - 1) p.1.x = p.1.x := by omega
  have hmax : max (-2 ^ 31) (saturate p.1.right) = saturate p.1.right := by
    unfold saturate
    omega
  unfold Reflow.next Reflow.start Compositor.before
  dsimp only
  unfold Row.right at hmax ⊢
  rw [hp, if_neg Bool.false_ne_true, hmin, hmax]
  refine congrArg Except.ok ?_
  cases s.rowMatchesSearch w p.1 <;> cases decide (p.2 < index) <;> rfl

def usedGap (w : Window) (gap : Int) : Int := if w.results.length = 1 then 12 else gap

theorem reflow_group (s : Compositor) (index : Nat) (h : Group w.results gap a b)
    (hgap : 1 < w.results.length → gap < 2 ^ 31) : ∃ last,
    w.rows.zipIdx.foldlM (Reflow.next s w index) .start = .ok ⟨a.x, saturate b.right, usedGap w gap,
      w.results.countP (s.before w index), (s.hits w).length, last⟩ := by
  have hresult : ∀ p ∈ w.results, p.1.result = true := fun p hp => (List.mem_filter.mp hp).2
  have hhits : (s.hits w).length = w.results.countP fun p => s.rowMatchesSearch w p.1 :=
    (List.countP_eq_length_filter ..).symm
  obtain ⟨hnonneg, hwidth, hbeside, hfirst, hlast, hword⟩ := h
  unfold usedGap
  rw [reflow_results, hhits]
  generalize w.results = rows at *
  cases rows with
  | nil => cases hfirst
  | cons p l =>
    cases hfirst
    have hright : p.1.x ≤ p.1.right := by
      have hp := hwidth p List.mem_cons_self
      unfold Row.right
      omega
    have hend : (l.getLastD p).1 = b := by
      rw [List.getLast?_cons, ← List.getLastD_eq_getLast?] at hlast
      exact Option.some.inj hlast
    have hused : (if l.isEmpty then 12 else gap) = if (p :: l).length = 1 then 12 else gap := by
      cases l <;> rfl
    refine ⟨some (saturate b.right), ?_⟩
    rw [List.foldlM_cons, reflow_first (hresult p List.mem_cons_self) (hword p List.mem_cons_self), ok_bind,
      reflow_after (fun q hq => ?_) hnonneg (fun hmore => hgap ?_)
      (hword p List.mem_cons_self).1 hright hbeside, hend, hused, List.countP_cons, List.countP_cons]
    · congr 2 <;> omega
    · exact ⟨hresult q (List.mem_cons_of_mem p hq), hwidth q (List.mem_cons_of_mem p hq),
        (hword q (List.mem_cons_of_mem p hq)).2⟩
    · exact Nat.succ_lt_succ (List.length_pos_iff.mpr hmore)

theorem countP_before (h : (s.hits w)[k]? = some (r, i)) : w.results.countP (s.before w i) = k := by
  have hsorted : (s.hits w).Pairwise fun p q => p.2 < q.2 := by
    have hall : w.rows.zipIdx.Pairwise fun p q => p.2 < q.2 := by
      refine List.pairwise_map.mp ?_
      rw [List.zipIdx_map_snd]
      exact List.pairwise_lt_range'
    exact (hall.filter _).filter _
  have hrank := countP_lt_key (f := Prod.snd) hsorted h
  unfold hits at hrank
  rw [List.countP_filter] at hrank
  rw [← hrank]
  refine congrArg (fun f => w.results.countP f) (funext fun p => ?_)
  exact Bool.and_comm _ _

/-- What `m` results are laid out over: the span, or one more where the last right edge saturates. -/
def share (span gap : Int) (m : Nat) : Int := max span (m + gap * (m - 1 : Nat))

theorem share_room (span gap : Int) (m : Nat) : Spread.Room (share span gap m) gap m := Int.le_max_right _ _

theorem share_frame {first last step : Int} {m : Nat} (y height : Int) (hlow : -2 ^ 31 ≤ first) (hlast : first < last)
    (hhigh : last < 2 ^ 31) (hspan : last - first < 2 ^ 31) (hstep : 0 ≤ step)
    (hinner : (m - 1 : Nat) * (1 + step) ≤ last - first) (hsingle : m = 1 → last - first + step < 2 ^ 31) (hk : k < m) :
    (do
      let span ← i32 (last - first)
      let gaps := saturate (step * (m - 1 : Nat))
      let width := max ((← i32 (span - gaps)).tdiv m) 1
      let x ← i32 (first + (← i32 (k * (← i32 (width + step)))))
      return (x, y, width, height) : Checked (Int × Int × Int × Int)) =
      .ok (Spread.left first (share (last - first) step m) step m k, y,
        Spread.width (share (last - first) step m) step m, height) := by
  have hm : 0 < m := Nat.zero_lt_of_lt hk
  have hsum := Spread.need_eq step hm
  have hgaps : 0 ≤ step * (m - 1 : Nat) := Int.mul_nonneg hstep (Int.natCast_nonneg _)
  have hone := Spread.width_pos hm (share_room (last - first) step m)
  have hfits := Spread.width_fits (share (last - first) step m) step hm
  have hend := Spread.right_le first hstep hm (Int.le_of_lt hone) hk
  have hstart := Spread.left_mono first hstep (Int.le_of_lt hone) (Nat.zero_le k)
  rw [Spread.left_zero] at hstart
  have hdiv : max ((last - first - step * (m - 1 : Nat)).tdiv m) 1 =
    Spread.width (share (last - first) step m) step m := by
    rw [Int.tdiv_eq_ediv_of_nonneg (by omega)]
    exact Spread.width_max (last - first) step hm
  have hshare : share (last - first) step m ≤ last - first + 1 := by
    unfold share
    omega
  -- the step to the next result
  have hnext : Spread.width (share (last - first) step m) step m + step < 2 ^ 31 := by
    rcases Nat.lt_or_ge 1 m with hmany | hle
    · have hwidths : 2 * Spread.width (share (last - first) step m) step m ≤
          m * Spread.width (share (last - first) step m) step m :=
        Int.mul_le_mul_of_nonneg_right (by omega) (Int.le_of_lt hone)
      have hgap : step * 1 ≤ step * (m - 1 : Nat) := Int.mul_le_mul_of_nonneg_left (by omega) hstep
      omega
    · obtain rfl : m = 1 := by omega
      have hroom := hsingle rfl
      have hwhole : share (last - first) step 1 = last - first := by
        unfold share
        rw [Nat.sub_self, Int.natCast_zero, Int.mul_zero]
        omega
      rw [Nat.sub_self, Int.natCast_zero, Int.mul_zero] at hfits
      omega
  have hsaturate : saturate (step * (m - 1 : Nat)) = step * (m - 1 : Nat) := by
    unfold saturate
    omega
  rw [i32_eq (v := last - first) (by omega) hspan, ok_bind]
  dsimp only
  rw [hsaturate, i32_eq (by omega) (by omega), ok_bind, hdiv]
  unfold Spread.left at hend hstart ⊢
  rw [i32_eq (v := _ + step) (by omega) hnext, ok_bind, i32_eq (v := k * _) (by omega) (by omega), ok_bind,
    i32_eq (by omega) (by omega)]
  rfl

theorem filteredFrame_hit (hid : searches w.id = true) (hquery : s.searchQuery w.id = some q) (hq : q ≠ [])
    (h : Group w.results gap a b) (hspan : saturate b.right - a.x < 2 ^ 31)
    (hsingle : (s.hits w).length = 1 → saturate b.right - a.x + usedGap w gap < 2 ^ 31) (hfirst : a.x ≠ 2 ^ 31 - 1)
    (hk : (s.hits w)[k]? = some (r, i)) :
    s.filteredFrame w i r =
      .ok (Spread.left a.x (share (saturate b.right - a.x) gap (s.hits w).length) gap (s.hits w).length k,
      r.y, Spread.width (share (saturate b.right - a.x) gap (s.hits w).length) gap (s.hits w).length, r.height) := by
  have hin := (List.mem_filter.mp (List.mem_of_getElem? hk)).1
  have hresult : r.result = true := (List.mem_filter.mp hin).2
  unfold Row.result at hresult
  rw [Bool.not_eq_true', Bool.or_eq_false_iff] at hresult
  have hlt : k < (s.hits w).length := (List.getElem?_eq_some_iff.mp hk).1
  have hle : (s.hits w).length ≤ w.results.length := List.length_filter_le _ _
  have hnonneg := h.nonneg
  obtain ⟨hlow, hlast⟩ := h.ends
  have hreach : ∀ n : Nat, n ≤ w.results.length - 1 → (n : Int) * (1 + gap) ≤ b.x - a.x := fun n hn => h.reach_of_le hn
  have hwide := h.reach.2.1
  have hforward := hreach 0 (Nat.zero_le _)
  rw [Int.natCast_zero, Int.zero_mul] at hforward
  have hedge : a.x < saturate b.right ∧ b.x ≤ saturate b.right ∧ saturate b.right < 2 ^ 31 := by
    unfold saturate Row.right
    omega
  -- the scan of the rows has found the group and where the query's matches stand in it
  obtain ⟨last, hfold⟩ := reflow_group s i h fun hmany => by
    have hone := hreach 1 (by omega)
    omega
  rw [countP_before hk] at hfold
  have hinner := hreach ((s.hits w).length - 1) (by omega)
  have hframe : s.filteredFrame w i r =
    .ok (Spread.left a.x (share (saturate b.right - a.x) (usedGap w gap) (s.hits w).length)
      (usedGap w gap) (s.hits w).length k, r.y,
      Spread.width (share (saturate b.right - a.x) (usedGap w gap) (s.hits w).length)
      (usedGap w gap) (s.hits w).length, r.height) := by
    unfold filteredFrame
    rw [hid, hresult.1, hresult.2, hquery, Option.getD_some, List.isEmpty_eq_false_iff.mpr hq, if_neg (by decide),
      hfold, ok_bind]
    dsimp only
    rw [if_neg (by omega)]
    refine share_frame r.y r.height hlow hedge.1 hedge.2.2 hspan ?_ ?_ hsingle hlt
    · unfold usedGap
      split <;> omega
    · unfold usedGap
      split
      · have hsole : (s.hits w).length - 1 = 0 := by omega
        rw [hsole, Int.natCast_zero, Int.zero_mul]
        omega
      · omega
  rw [hframe]
  unfold usedGap
  split
  · -- with one result the gap does not matter
    have hm : (s.hits w).length = 1 := by omega
    have hzero : k = 0 := by omega
    unfold share Spread.width
    rw [hm, hzero, Nat.sub_self, Int.natCast_zero, Int.mul_zero, Int.mul_zero, Spread.left_zero, Spread.left_zero]
  · rfl

theorem share_le (h : Group w.results gap a b) (hm : 1 ≤ (s.hits w).length) :
    share (saturate b.right - a.x) gap (s.hits w).length ≤ b.right - a.x := by
  have hle : (s.hits w).length ≤ w.results.length := List.length_filter_le _ _
  have hinner := h.reach_of_le (k := (s.hits w).length - 1) (by omega)
  have hforward := h.reach_of_le (k := 0) (Nat.zero_le _)
  rw [Int.natCast_zero, Int.zero_mul] at hforward
  have hsum := Spread.need_eq gap hm
  obtain ⟨hlow, -⟩ := h.ends
  have hwidth := h.reach.2.1
  unfold share saturate Row.right
  omega

theorem filteredFrame_end (h : Group w.results gap a b) (hfirst : a.x = 2 ^ 31 - 1)
    (hk : (s.hits w)[k]? = some (r, i)) :
    k = 0 ∧ (s.hits w).length = 1 ∧ r = a ∧ r = b ∧ s.filteredFrame w i r = .ok r.frame := by
  have hlt : k < (s.hits w).length := (List.getElem?_eq_some_iff.mp hk).1
  have hle : (s.hits w).length ≤ w.results.length := List.length_filter_le _ _
  have hnonneg := h.nonneg
  have hone : w.results.length = 1 := by
    by_contra hmany
    have hpos := h.reach.1
    have hreach := h.reach_of_le (k := 1) (by omega)
    have hlast := h.ends.2
    omega
  have hin := (List.mem_filter.mp (List.mem_of_getElem? hk)).1
  have hends : r = a ∧ r = b := by
    obtain ⟨p, hp⟩ := List.length_eq_one_iff.mp hone
    have hfirst := h.first
    have hlast := h.last
    rw [hp] at hin hfirst hlast
    cases List.mem_singleton.mp hin
    cases hfirst
    cases hlast
    exact ⟨rfl, rfl⟩
  obtain ⟨last, hfold⟩ := reflow_group s i h fun hmany => by omega
  refine ⟨by omega, by omega, hends.1, hends.2, ?_⟩
  unfold filteredFrame
  split
  · rfl
  · rw [hfold, ok_bind]
    dsimp only
    rw [if_pos (Or.inr (Or.inl hfirst))]
    rfl

theorem mem_hits {p : Row × Nat} (hid : searches w.id = true) (hquery : s.searchQuery w.id = some q) (hq : q ≠ [])
    (hp : p ∈ w.results) : p ∈ s.hits w ↔ q.map asciiLower <:+: p.1.text.bytes.map asciiLower := by
  have hresult : p.1.result = true := (List.mem_filter.mp hp).2
  unfold Row.result at hresult
  rw [Bool.not_eq_true', Bool.or_eq_false_iff] at hresult
  have hmatch : s.rowMatchesSearch w p.1 = asciiContainsCaseInsensitive p.1.text.bytes q := by
    unfold rowMatchesSearch
    rw [hid, hresult.1, hresult.2, hquery]
    rw [if_neg (by decide)]
    dsimp only
    rw [List.isEmpty_eq_false_iff.mpr hq, Bool.false_or]
  unfold hits
  rw [List.mem_filter, and_iff_right hp, hmatch, asciiContains_iff]

/-- Search reflow: under a query the matching results of a group share its span in order, with
one width and the gap of the group between them, and nothing else of their frames changes. The span is an i32, and
where one row matches so is the span with a gap behind it. -/
theorem search_reflow (hid : w.id = "launcher".toList ∨ w.id = "files".toList) (hquery : s.searchQuery w.id = some q)
    (hq : q ≠ []) (h : Group w.results gap a b) (hspan : saturate (b.x + b.width) - a.x < 2 ^ 31)
    (hsingle : (s.hits w).length = 1 → saturate (b.x + b.width) - a.x + usedGap w gap < 2 ^ 31)
    (hm : 1 ≤ (s.hits w).length) :
    (∃ width, 1 ≤ width ∧
      (∀ (k : Nat) r i, (s.hits w)[k]? = some (r, i) →
        s.filteredFrame w i r = .ok (a.x + k * (width + gap), r.y, width, r.height)) ∧
      a.x + ((s.hits w).length - 1 : Nat) * (width + gap) + width ≤ b.x + b.width ∧
      ∀ j k : Nat, j < k → a.x + j * (width + gap) + width ≤ a.x + k * (width + gap)) ∧
    ∀ p ∈ w.results, p ∈ s.hits w ↔ q.map asciiLower <:+: p.1.text.bytes.map asciiLower := by
  have hid : searches w.id = true := by
    rcases hid with h | h <;> rw [h] <;> rfl
  refine ⟨?_, fun p hp => mem_hits hid hquery hq hp⟩
  have hnonneg := h.nonneg
  have hbwidth := h.reach.2.1
  by_cases hfirst : a.x = 2 ^ 31 - 1
  · obtain ⟨-, hone, hra, hrb, -⟩ := filteredFrame_end (r := (s.hits w)[0].1) h hfirst (List.getElem?_eq_getElem hm)
    have hab : a = b := hra.symm.trans hrb
    refine ⟨a.width, hab ▸ hbwidth, fun k r i hk => ?_, ?_, fun j k hjk => ?_⟩
    · obtain ⟨rfl, -, rfl, -, hframe⟩ := filteredFrame_end h hfirst hk
      rw [hframe, Int.natCast_zero, Int.zero_mul, Int.add_zero]
      rfl
    · rw [hone, hab, Nat.sub_self, Int.natCast_zero, Int.zero_mul, Int.add_zero]
    · exact Spread.apart a.x hnonneg (hab ▸ Int.le_trans (by decide) hbwidth) hjk
  · have hroom := share_room (saturate b.right - a.x) gap (s.hits w).length
    have hone := Spread.width_pos hm hroom
    refine ⟨_, hone, fun k r i hk => filteredFrame_hit hid hquery hq h hspan hsingle hfirst hk, ?_,
      fun j k hjk => Spread.apart a.x hnonneg (Int.le_of_lt hone) hjk⟩
    have hend := Spread.right_le a.x hnonneg hm (Int.le_of_lt hone) (Nat.sub_lt hm Nat.one_pos)
    have hshare := share_le h hm
    unfold Spread.left Row.right at *
    omega

def narrowed : Compositor := { opened with edits := [⟨"launcher".toList, 1, [105, 110], 2⟩] }

theorem search_reflow_launcher : ∃ r, (narrowed.hits launcherWindow)[1]? = some (r, 4) ∧ ∃ width, 1 ≤ width ∧
    narrowed.filteredFrame launcherWindow 4 r = .ok (24 + 1 * (width + 12), 169, width, 64) := by
  have hgroup : Group launcherWindow.results 12
      ⟨"Files".toList, "files.open".toList, 98, 1, flagFocusable, 24, 169, 142, 64⟩
      ⟨"Terminal".toList, "terminal.open".toList, 98, 1, flagFocusable, 333, 169, 143, 64⟩ :=
    ⟨by decide, by decide, by decide, rfl, rfl, by decide⟩
  obtain ⟨⟨width, hone, hframe, -, -⟩, -⟩ := search_reflow (s := narrowed) (q := [105, 110]) (Or.inl rfl) (by decide)
    (by decide) hgroup (by decide) (fun hone => absurd hone (by decide)) (by decide)
  exact ⟨_, rfl, width, hone, hframe 1 _ 4 rfl⟩

def apart : Window :=
  { launcherWindow with
    rows := [⟨"Search apps".toList, "launcher.search".toList, kindSearch, 4, flagFocusable, 24, 106, 452, 38⟩,
      ⟨"Files".toList, "files.open".toList, 98, 1, flagFocusable, -2147483648, 169, 1, 64⟩,
      ⟨"Settings".toList, "settings.open".toList, 98, 1, flagFocusable, 2147483646, 169, 1, 64⟩] }

theorem search_reflow_apart : ¬∀ (s : Compositor) (w : Window) q gap a b,
    (w.id = "launcher".toList ∨ w.id = "files".toList) →
    s.searchQuery w.id = some q → q ≠ [] → Group w.results gap a b → 1 ≤ (s.hits w).length →
    ∀ (k : Nat) r i, (s.hits w)[k]? = some (r, i) → ∃ f, s.filteredFrame w i r = .ok f := by
  intro h
  have hgroup : Group apart.results 4294967293
      ⟨"Files".toList, "files.open".toList, 98, 1, flagFocusable, -2147483648, 169, 1, 64⟩
      ⟨"Settings".toList, "settings.open".toList, 98, 1, flagFocusable, 2147483646, 169, 1, 64⟩ :=
    ⟨by decide, by decide, by decide, rfl, rfl, by decide⟩
  obtain ⟨f, hf⟩ := h { opened with windows := [apart], edits := [⟨"launcher".toList, 0, [105], 1⟩] } apart [105] _ _ _
    (Or.inl rfl) (by decide) (by decide) hgroup (by decide) 1 _ 2 rfl
  have hfault : filteredFrame { opened with windows := [apart], edits := [⟨"launcher".toList, 0, [105], 1⟩] } apart 2
      ⟨"Settings".toList, "settings.open".toList, 98, 1, flagFocusable, 2147483646, 169, 1, 64⟩ =
      .error .overflow := by decide +kernel
  cases hfault.symm.trans hf

end Compositor

end Pippin.Native
